import BlobTopFs.Directory.PathWalk

/-!
# What `find_path` leaves of the objects it is given

`find_path` works on the directory object it starts at: the object becomes the next directory,
and the blob of the root is closed on the way if that is where it starts. The objects stay what
they are only if the first part is not found, or the path ends with its first part.
-/

namespace BlobTopFs

open Machine

variable {g : Geometry}

/-- The directory object at `p` is what it was. Its blob has not been closed, nor has the blob
been opened again: an object that is read anew has other buffers, and the blob one more
reference, even where it reads what it held before. -/
structure PathState.Untouched (s s' : PathState g) (p : DirPtr) : Prop where
  object : ∀ d, s.dirs p = some d → ∃ d', s'.dirs p = some d' ∧ d.Alike d' ∧ d'.dirty = d.dirty
  handle : ∀ d, s.dirs p = some d → ∃ es, s'.bs.log = es ++ s.bs.log ∧
    ∀ e ∈ es, e.request ≠ .closeBlob d.blob ∧ e.request ≠ .openBlob d.blob

/-- `find_path` returns, and leaves its directory and the root as they are. -/
def SparesDirs (ans : Nat → PathAnswer) (raw : Mem) (dir root fileDir : DirPtr) (name : CStr)
    (s : PathState g) : Prop :=
  ∃ e, findPath ans raw dir root fileDir name s = some e ∧
    s.Untouched e.state dir ∧ s.Untouched e.state root

/-- The call goes no round that finds its part. If it goes none at all, the directory it copies
to `*file_dir` does not replace another. -/
structure StaysInPlace (dir root fileDir : DirPtr) (name : CStr) (s : PathState g)
    (start : SpdkfsDir) : Prop where
  rounds : ∀ c cs, pathRounds name.chars = c :: cs → c.strlen ≤ spdkMaxNameCount →
    spdkfsDirLookup start c = -1
  output : pathRounds name.chars = [] → name.chars ≠ [slash] →
    (∀ c ∈ pathParts name.chars, c.strlen ≤ spdkMaxNameCount) →
    ∀ d, (fileDir = dir ∨ fileDir = root) → s.dirs fileDir = some d →
      d.Alike start ∧ start.dirty = d.dirty

theorem PathState.Untouched.refl (s : PathState g) (p : DirPtr) : s.Untouched s p where
  object := fun d hd => ⟨d, hd, .refl d, rfl⟩
  handle := fun _ _ => ⟨[], rfl, fun _ h => nomatch h⟩

section Frame

variable {ans : Nat → PathAnswer} {raw : Mem} {dir root fileDir now p : DirPtr} {name : CStr}
  {s : PathState g} {start : SpdkfsDir}

/-! ## Without a round -/

/-- The copy to `*file_dir` touches no object but that, and that only if it held something else. -/
theorem untouched_copy (h : ∀ d, fileDir = p → s.dirs fileDir = some d →
    d.Alike start ∧ start.dirty = d.dirty) :
    s.Untouched { s with dirs := Function.update s.dirs fileDir (some start) } p where
  object := by
    intro d hd
    by_cases hp : fileDir = p
    · subst hp
      obtain ⟨halike, hdirty⟩ := h d rfl hd
      exact ⟨start, Function.update_self .., halike, hdirty⟩
    · exact ⟨d, (Function.update_of_ne (Ne.symm hp) ..).trans hd, .refl d, rfl⟩
  handle := fun _ _ => ⟨[], rfl, fun _ h => nomatch h⟩

/-- A call that goes no round leaves an object as it is if the copy does. -/
theorem untouched_copy_iff (hfile : fileDir = p) :
    s.Untouched { s with dirs := Function.update s.dirs fileDir (some start) } p ↔
      ∀ d, s.dirs fileDir = some d → d.Alike start ∧ start.dirty = d.dirty := by
  subst hfile
  constructor
  · intro h d hd
    obtain ⟨d', hd', halike, hdirty⟩ := h.object d hd
    cases (Function.update_self ..).symm.trans hd'
    exact ⟨halike, hdirty⟩
  · intro h
    exact untouched_copy fun d _ => h d

/-! ## With a round -/

/-- In `s'` the object at `now` has been put in another directory since `s`, and the directory it
was in has been closed unless it is the caller's. -/
structure Moved (dir now : DirPtr) (start : SpdkfsDir) (s s' : PathState g) : Prop where
  entered : ∃ d es, s'.dirs now = some d ∧ s'.bs.log = es ++ s.bs.log ∧
    ∃ e ∈ es, e.request = .openBlob d.blob
  left : now ≠ dir → ∃ es, s'.bs.log = es ++ s.bs.log ∧
    ∃ e ∈ es, e.request = .closeBlob start.blob

/-- What a round adds to the log: the blob it opens, and the one it closes. -/
theorem findPathStep_log {a : PathAnswer} {c : CStr} {s' : PathState g} {d : SpdkfsDir}
    (hd : s.dirs now = some d) (h : findPathStep a dir now c s = some (some s')) :
    ∃ d' es, s'.dirs now = some d' ∧ s'.bs.log = es ++ s.bs.log ∧
      (∃ e ∈ es, e.request = .openBlob d'.blob) ∧
      (now ≠ dir → ∃ e ∈ es, e.request = .closeBlob d.blob) := by
  obtain ⟨d₁, bs, b, d', read, hd₁, hclose, rfl⟩ := findPathStep_entered h
  cases hd.symm.trans hd₁
  have hlog : ∃ es, bs.log = es ++ s.bs.log ∧
      (now ≠ dir → ∃ e ∈ es, e.request = .closeBlob d.blob) := by
    split at hclose
    · obtain ⟨e, es, hes, -⟩ := simpleDirClose_log hclose
      exact ⟨⟨.closeBlob d.blob, e⟩ :: es, hes, fun _ => ⟨_, List.mem_cons_self, rfl⟩⟩
    · next hnow =>
        cases hclose
        exact ⟨[], rfl, fun h => absurd h hnow⟩
  obtain ⟨es, hes, hclosed⟩ := hlog
  refine ⟨d', read :: ⟨.openBlob d'.blob, 0⟩ :: es, Function.update_self .., ?_, ?_, ?_⟩
  · show read :: _ :: bs.log = _
    rw [hes]
    rfl
  · exact ⟨_, List.mem_cons_of_mem _ List.mem_cons_self, rfl⟩
  · intro hnow
    obtain ⟨e, he, hreq⟩ := hclosed hnow
    exact ⟨e, List.mem_cons_of_mem _ (List.mem_cons_of_mem _ he), hreq⟩

theorem Moved.first {a : PathAnswer} {c : CStr} {s' : PathState g} (hd : s.dirs now = some start)
    (h : findPathStep a dir now c s = some (some s')) : Moved dir now start s s' := by
  obtain ⟨d', es, hd', hes, hopened, hclosed⟩ := findPathStep_log hd h
  exact ⟨⟨d', es, hd', hes, hopened⟩, fun hnow => ⟨es, hes, hclosed hnow⟩⟩

/-- Once moved, the object stays so: a later round does not take back what is in the log. -/
theorem Moved.step {a : PathAnswer} {c : CStr} {s₁ s₂ : PathState g}
    (hm : Moved dir now start s s₁) (h : findPathStep a dir now c s₁ = some (some s₂)) :
    Moved dir now start s s₂ := by
  obtain ⟨d, es, hd, hes, -⟩ := hm.entered
  obtain ⟨d', es', hd', hes', ⟨e, he, hreq⟩, -⟩ := findPathStep_log hd h
  refine ⟨⟨d', es' ++ es, hd', ?_, e, List.mem_append_left es he, hreq⟩, fun hnow => ?_⟩
  · rw [hes', hes, List.append_assoc]
  · obtain ⟨fs, hfs, e', he', hreq'⟩ := hm.left hnow
    refine ⟨es' ++ fs, ?_, e', List.mem_append_right es' he', hreq'⟩
    rw [hes', hfs, List.append_assoc]

/-- An object that has been moved is touched: if it is the caller's its blob has been opened, and
if it is the root its blob has been closed. -/
theorem Moved.touched {r : PathState g × Option CStr} {e : FoundPath g}
    (hstart : s.dirs (pathCursor name dir root) = some start)
    (hm : Moved dir (pathCursor name dir root) start s r.1)
    (h : pathFinish fileDir (pathCursor name dir root) r = some e) :
    ¬ (s.Untouched e.state dir ∧ s.Untouched e.state root) := by
  rintro ⟨hdir, hroot⟩
  -- the copy at the end puts the object in no other directory, and makes no request
  have hend : e.state.bs = r.1.bs ∧ ∀ d, r.1.dirs (pathCursor name dir root) = some d →
      e.state.dirs (pathCursor name dir root) = some d := by
    unfold pathFinish at h
    split at h
    · cases h
      exact ⟨rfl, fun _ hd => hd⟩
    · obtain ⟨d', hd', rfl⟩ := Option.map_eq_some_iff.mp h
      refine ⟨rfl, fun d hd => ?_⟩
      cases hd'.symm.trans hd
      by_cases hfile : fileDir = pathCursor name dir root
      · rw [hfile]
        exact Function.update_self ..
      · exact (Function.update_of_ne (Ne.symm hfile) ..).trans hd
  obtain ⟨hbs, hkept⟩ := hend
  by_cases hnow : pathCursor name dir root = dir
  · obtain ⟨d, es, hd, hes, ev, hev, hreq⟩ := hm.entered
    rw [hnow] at hstart hkept hd
    obtain ⟨d', hd', halike, -⟩ := hdir.object start hstart
    cases (hkept d hd).symm.trans hd'
    obtain ⟨es', hes', hfree⟩ := hdir.handle start hstart
    rw [hbs, hes] at hes'
    rw [List.append_cancel_right hes'] at hev
    exact (hfree ev hev).2 (halike.blob ▸ hreq)
  · obtain ⟨es, hes, ev, hev, hreq⟩ := hm.left hnow
    have hcursor : pathCursor name dir root = root := by
      unfold pathCursor at hnow ⊢
      split at hnow
      · next h => exact if_pos h
      · exact absurd rfl hnow
    rw [hcursor] at hstart
    obtain ⟨es', hes', hfree⟩ := hroot.handle start hstart
    rw [hbs, hes] at hes'
    rw [List.append_cancel_right hes'] at hev
    exact (hfree ev hev).1 hreq

/-! ## When it spares them -/

/-- A path that ends before a round: only the copy at the end matters. -/
theorem sparesDirs_end_iff {tail : CStr} (hone : name.chars ≠ [slash])
    (hnil : pathRounds name.chars = [])
    (hfits : ∀ c ∈ pathParts name.chars, c.strlen ≤ spdkMaxNameCount)
    (hend : findPath ans raw dir root fileDir name s =
      some ⟨{ s with dirs := Function.update s.dirs fileDir (some start) }, some tail, true⟩) :
    SparesDirs ans raw dir root fileDir name s ↔ StaysInPlace dir root fileDir name s start := by
  constructor
  · rintro ⟨e, he, hdir, hroot⟩
    cases hend.symm.trans he
    refine ⟨fun c cs h => absurd (hnil.symm.trans h) (List.cons_ne_nil c cs).symm, ?_⟩
    rintro - - - d hfile hd
    rcases hfile with hfile | hfile
    · exact (untouched_copy_iff hfile).mp hdir d hd
    · exact (untouched_copy_iff hfile).mp hroot d hd
  · intro h
    have hout := h.output hnil hone hfits
    exact ⟨_, hend, untouched_copy fun d hp hd => hout d (Or.inl hp) hd,
      untouched_copy fun d hp hd => hout d (Or.inr hp) hd⟩

/-- **The frame of `find_path`.** It leaves the directory it is given and the root as they are
exactly when it goes no round that finds its part, and copies no other directory over them. -/
theorem sparesDirs_iff (hstart : s.dirs (pathCursor name dir root) = some start)
    (hcount : start.count < 2 ^ 64) :
    SparesDirs ans raw dir root fileDir name s ↔ StaysInPlace dir root fileDir name s start := by
  by_cases hone : name.chars = [slash]
  · have hrounds : pathRounds name.chars = [] := by
      rw [hone]
      decide
    constructor
    · intro _
      exact ⟨fun c cs h => absurd (hrounds.symm.trans h) (List.cons_ne_nil c cs).symm,
        fun _ h => absurd hone h⟩
    · intro _
      exact ⟨_, if_pos hone, .refl s dir, .refl s root⟩
  · rcases findPath_cases ans dir raw root fileDir s hone with
      ⟨hnil, hfits, tail, hfind⟩ | ⟨hlong, ⟨c, hc, hlen⟩, hfind⟩ |
        ⟨c, cs, part, src, hcons, hlen, hfind⟩
    · apply sparesDirs_end_iff hone hnil hfits
      rw [hfind]
      show (s.dirs _).map _ = _
      rw [hstart]
      rfl
    · constructor
      · intro _
        exact ⟨fun c' cs' h hle => absurd hle (Nat.not_le_of_lt (hlong c' cs' h)),
          fun _ _ h => absurd (h c hc) (Nat.not_le_of_lt hlen)⟩
      · intro _
        exact ⟨_, hfind, .refl s dir, .refl s root⟩
    · have hmissing :
          spdkfsDirLookup start c = -1 ↔ SparesDirs ans raw dir root fileDir name s := by
        constructor
        · intro hl
          rw [findPathStep_missing hstart hl] at hfind
          exact ⟨_, hfind, .refl s dir, .refl s root⟩
        · rintro ⟨e, he, huntouched⟩
          rcases lookup_cases start c with hl | ⟨i, hi, hl, -⟩
          · exact hl
          · exfalso
            obtain ⟨o, hstep, hrest⟩ := Option.bind_eq_some_iff.mp (hfind.symm.trans he)
            have hsmall : i < 2 ^ 64 - 1 := Nat.lt_sub_of_add_lt (Nat.lt_of_le_of_lt hi hcount)
            obtain ⟨bs, b, q, m, -, -, -, -, -, rfl⟩ :=
              (findPathStep_found hstart hl hsmall).mp hstep
            obtain ⟨e', hloop, hfinish⟩ := Option.bind_eq_some_iff.mp hrest
            have hmoved := findPathLoop_inv (fun _ _ _ _ hm hs => Moved.step hm hs)
              (Moved.first hstart hstep) hloop
            exact Moved.touched (r := (e'.state, _)) hstart hmoved hfinish huntouched
      rw [← hmissing]
      constructor
      · intro hl
        refine ⟨fun c' cs' h _ => ?_, fun h => absurd (hcons.symm.trans h) (List.cons_ne_nil c cs)⟩
        cases hcons.symm.trans h
        exact hl
      · intro h
        exact h.rounds c cs hcons hlen

end Frame

/-- The path `b` ends with its first part, and the root is copied to another object. -/
theorem sparesDirs_nameB :
    SparesDirs (fun _ => .done) (fun _ => 0) 0 0 1 nameB (oneDir 0) := by
  have hrounds : pathRounds nameB.chars = [] := by decide
  have hstart : (oneDir 0).dirs (pathCursor nameB 0 0) = some (oneDirRoot 0) := rfl
  refine (sparesDirs_iff hstart (by decide)).mpr ⟨?_, ?_⟩
  · intro c cs h
    cases hrounds.symm.trans h
  · intro _ _ _ d hfile
    rcases hfile with hfile | hfile <;> cases hfile

/-- The path `a/b` puts the root in the directory `a`. -/
theorem not_sparesDirs_pathAB :
    ¬ SparesDirs (fun _ => .done) (fun _ => 0) 0 0 1 pathAB (oneDir 0) := by
  rintro ⟨e, he, hdir, -⟩
  have hmoved : (findPath (fun _ => .done) (fun _ => 0) 0 0 1 pathAB (oneDir 0)).map
      (fun e => (e.state.dirs 0).map SpdkfsDir.blob) = some (some 0) := by
    decide +kernel
  obtain ⟨d', hd', halike, -⟩ := hdir.object (oneDirRoot 0) rfl
  rw [he, Option.map_some, hd', Option.map_some] at hmoved
  have hblob := Option.some.inj (Option.some.inj hmoved)
  rw [halike.blob] at hblob
  exact absurd hblob (by decide)

end BlobTopFs
