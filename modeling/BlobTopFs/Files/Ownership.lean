import BlobTopFs.Lib.PartialMap
import BlobTopFs.Lib.Run
import BlobTopFs.SimpleFs.Calls
import BlobTopFs.SimpleFs.Super

/-!
# Descriptor ownership

A caller who keeps track of the descriptors it was given, from the values its calls return,
knows for each of them the file object its slot holds and the position of that object. What
carries it over any history of opens and closes is that the table's `used` flags are set for
the descriptors the caller holds and for no others, so that a slot found free belongs to
nobody.
-/

namespace BlobTopFs

open Machine Run PartialMap

variable {g : Geometry}

/-! ## Runs beside the descriptors handed out -/

/-- An open descriptor: the file object made by the call that returned it, and the position
its own calls have left it at. -/
structure Opened where
  object : FileId
  pos : Int

/-- The file system beside the descriptors its caller holds. -/
structure FdWorld (g : Geometry) where
  fs : Fs g
  opened : Nat → Option Opened

/-- The position of the descriptor `fd` changes. -/
def moveTo (opened : Nat → Option Opened) (fd : Int) (pos : Int → Int) : Nat → Option Opened :=
  Function.update opened fd.toNat
    ((opened fd.toNat).map fun o => { o with pos := pos o.pos })

/-- What a caller learns from the value a call returns: a descriptor that is not negative
stands for the object that the call has made. -/
def FsCall.noteOpened (nextFile : FileId) (opened : Nat → Option Opened) (ret : Int) :
    FsCall → Nat → Option Opened
  | .create .. | .openName .. =>
      if 0 ≤ ret then Function.update opened ret.toNat (some ⟨nextFile, 0⟩) else opened
  | .close _ fd => Function.update opened fd.toNat none
  | .lseek fd _ _ => moveTo opened fd fun _ => ret
  | .read _ fd _ _ _ | .write _ fd _ _ _ => moveTo opened fd fun pos => s64 (pos + ret)
  | .stat .. | .unlink .. => opened

def fdStep (findDir : FindDir) (w : FdWorld g) (call : FsCall) : Option (FdWorld g) :=
  (call.run findDir w.fs).map fun r =>
    ⟨r.1, call.noteOpened w.fs.nextFile w.opened r.2⟩

/-- Descriptors that are passed in are open ones, and offsets are values of their type. -/
def FsCall.UsesOpen (opened : Nat → Option Opened) : FsCall → Prop
  | .close _ fd | .read _ fd _ _ _ | .write _ fd _ _ _ => 0 ≤ fd ∧ (opened fd.toNat).isSome
  | .lseek fd offset _ => 0 ≤ fd ∧ (opened fd.toNat).isSome ∧ FitsOff offset
  | _ => True

/-- A non-negative descriptor that an open or a create returns is inside the table and was
not open. -/
def FsCall.ReturnsFree (w : FdWorld g) : FsCall → Prop
  | .create ans name => ∀ s fd, monopolyCreate ans name w.fs = some (s, fd) → 0 ≤ fd →
      fd < spdkMaxFileCnt ∧ w.opened fd.toNat = none
  | .openName openErrno name => ∀ s fd, monopolyOpen openErrno name w.fs = some (s, fd) → 0 ≤ fd →
      fd < spdkMaxFileCnt ∧ w.opened fd.toNat = none
  | _ => True

/-- The table holds what the caller thinks it holds: each open descriptor's slot is in use and
has that descriptor's object, at that descriptor's position, no two have the same object, and
no other slot is in use. -/
structure FdWorld.Owned (w : FdWorld g) : Prop where
  slot : ∀ fd o, w.opened fd = some o → fd < spdkMaxFileCnt ∧ w.fs.fdtable.used fd = true ∧
    w.fs.fdtable.openFiles fd = some o.object
  object : ∀ fd o, w.opened fd = some o →
    ∃ file, w.fs.files o.object = some file ∧ file.fPos = o.pos
  distinct : ∀ fd fd' o o', w.opened fd = some o → w.opened fd' = some o' →
    o.object = o'.object → fd = fd'
  free : ∀ fd < spdkMaxFileCnt, w.opened fd = none → w.fs.fdtable.used fd = false

/-- Besides, objects are older than the next one, and positions fit their type. -/
structure FdWorld.Inv (w : FdWorld g) : Prop extends w.Owned where
  old : ∀ fd o, w.opened fd = some o → o.object < w.fs.nextFile
  fits : ∀ fd o, w.opened fd = some o → FitsOff o.pos

/-! ## What each call does -/

section Step

variable {w : FdWorld g} {s : Fs g}

theorem FdWorld.Inv.file_eq (hw : w.Inv) {fd : Int} (h0 : 0 ≤ fd)
    (hopen : (w.opened fd.toNat).isSome) {f : FileId} (hf : w.fs.fdtable.file fd = some f) :
    ∃ o, w.opened fd.toNat = some o ∧ o.object = f := by
  obtain ⟨o, ho⟩ := Option.isSome_iff_exists.mp hopen
  obtain ⟨hlt, -, hslot⟩ := hw.slot _ o ho
  rw [Fdtable.file, if_pos ⟨h0, by omega⟩, hslot] at hf
  exact ⟨o, ho, Option.some.inj hf⟩

/-- The table with a slot it has just handed out is the old one but for that slot. -/
theorem install_cases {t t' : Fdtable} {fd : Int} (h : getFdFromTable t = some (t', fd))
    (f : FileId) :
    (fd = -1 ∧ t'.install fd f = t) ∨
      ∃ i : Nat, fd = i ∧ i < spdkMaxFileCnt ∧ t.used i = false ∧
        (t'.install fd f).used = Function.update t.used i true ∧
        (t'.install fd f).openFiles = Function.update t.openFiles i (some f) := by
  rcases getFdFromTable_cases h with ⟨rfl, rfl⟩ | ⟨i, rfl, hi, hfree, -, rfl⟩
  · exact Or.inl ⟨rfl, if_pos rfl⟩
  · refine Or.inr ⟨i, rfl, hi, hfree, ?_⟩
    rw [Fdtable.install, if_neg (by omega), Int.toNat_natCast]
    exact ⟨rfl, rfl⟩

/-- A descriptor that is handed out was nobody's. -/
theorem FdWorld.Inv.returnsFree (hw : w.Inv) {t : Fdtable} {fd : Int}
    (h : getFdFromTable w.fs.fdtable = some (t, fd)) (h0 : 0 ≤ fd) :
    fd < spdkMaxFileCnt ∧ w.opened fd.toNat = none := by
  rcases getFdFromTable_cases h with ⟨rfl, -⟩ | ⟨i, rfl, hi, hfree, -⟩
  · omega
  · refine ⟨by omega, ?_⟩
    rw [Int.toNat_natCast]
    cases ho : w.opened i with
    | none => rfl
    | some o =>
        rw [(hw.slot i o ho).2.1] at hfree
        cases hfree

/-- A new file object, with a descriptor if there is one. -/
theorem FdWorld.Inv.newFile (hw : w.Inv) {t : Fdtable} {fd : Int} {file : SpdkfsFile}
    (hfd : getFdFromTable w.fs.fdtable = some (t, fd)) (hpos : file.fPos = 0)
    (htable : s.fdtable = t.install fd w.fs.nextFile) (hnext : s.nextFile = w.fs.nextFile + 1)
    (hfiles : s.files = Function.update w.fs.files w.fs.nextFile (some file)) :
    FdWorld.Inv ⟨s, if 0 ≤ fd then
      Function.update w.opened fd.toNat (some ⟨w.fs.nextFile, 0⟩) else w.opened⟩ := by
  have hkeep : ∀ fd o, w.opened fd = some o →
      ∃ file, s.files o.object = some file ∧ file.fPos = o.pos := by
    intro fd o ho
    rw [hfiles, Function.update_of_ne (Nat.ne_of_lt (hw.old fd o ho))]
    exact hw.object fd o ho
  have hold : ∀ fd o, w.opened fd = some o → o.object < s.nextFile := by
    intro fd o ho
    rw [hnext]
    exact Nat.lt_succ_of_lt (hw.old fd o ho)
  rcases install_cases hfd w.fs.nextFile with ⟨rfl, hsame⟩ | ⟨i, rfl, hi, hfree, hused, hopen⟩
  · rw [hsame] at htable
    rw [if_neg (by decide)]
    refine ⟨⟨?_, hkeep, hw.distinct, ?_⟩, hold, hw.fits⟩
    · rw [htable]
      exact hw.slot
    · rw [htable]
      exact hw.free
  · rw [if_pos (Int.natCast_nonneg i), Int.toNat_natCast]
    -- the slot `i` is new, every other one is as it was
    refine ⟨⟨?_, ?_, ?_, ?_⟩, ?_, ?_⟩
    · intro fd o ho
      rw [htable, hused, hopen]
      rcases update_some_cases ho with ⟨rfl, rfl⟩ | ⟨hne, ho'⟩
      · exact ⟨hi, Function.update_self .., Function.update_self ..⟩
      · rw [Function.update_of_ne hne, Function.update_of_ne hne]
        exact hw.slot fd o ho'
    · intro fd o ho
      rcases update_some_cases ho with ⟨rfl, rfl⟩ | ⟨-, ho'⟩
      · rw [hfiles]
        exact ⟨file, Function.update_self .., hpos⟩
      · exact hkeep fd o ho'
    · intro fd fd' o o' ho ho' heq
      rcases update_some_cases ho with ⟨rfl, rfl⟩ | ⟨-, h1⟩ <;>
        rcases update_some_cases ho' with ⟨rfl, rfl⟩ | ⟨-, h2⟩
      · rfl
      · exact absurd heq.symm (Nat.ne_of_lt (hw.old fd' o' h2))
      · exact absurd heq (Nat.ne_of_lt (hw.old fd o h1))
      · exact hw.distinct fd fd' o o' h1 h2 heq
    · intro fd hlt hnone
      obtain ⟨hne, hnone'⟩ := update_some_eq_none hnone
      rw [htable, hused, Function.update_of_ne hne]
      exact hw.free fd hlt hnone'
    · intro fd o ho
      rcases update_some_cases ho with ⟨rfl, rfl⟩ | ⟨-, ho'⟩
      · rw [hnext]
        exact Nat.lt_succ_self _
      · exact hold fd o ho'
    · intro fd o ho
      rcases update_some_cases ho with ⟨rfl, rfl⟩ | ⟨-, ho'⟩
      · exact fitsOff_zero
      · exact hw.fits fd o ho'

/-- A descriptor is given back. -/
theorem FdWorld.Inv.close (hw : w.Inv) {fd : Nat}
    (htable : s.fdtable = returnFdToTable fd w.fs.fdtable)
    (hfiles : s.files = w.fs.files) (hnext : s.nextFile = w.fs.nextFile) :
    FdWorld.Inv ⟨s, Function.update w.opened fd none⟩ := by
  refine ⟨⟨?_, ?_, ?_, ?_⟩, ?_, ?_⟩
  · intro fd' o ho
    obtain ⟨hne, ho'⟩ := update_none_eq_some ho
    obtain ⟨hlt, hu, hslot⟩ := hw.slot fd' o ho'
    rw [htable]
    refine ⟨hlt, ?_, hslot⟩
    show Function.update w.fs.fdtable.used fd false fd' = true
    rwa [Function.update_of_ne hne]
  · intro fd' o ho
    rw [hfiles]
    exact hw.object fd' o (update_none_eq_some ho).2
  · intro fd' fd'' o o' ho ho' heq
    exact hw.distinct fd' fd'' o o' (update_none_eq_some ho).2 (update_none_eq_some ho').2 heq
  · intro fd' hlt hnone
    rw [htable]
    show Function.update w.fs.fdtable.used fd false fd' = false
    by_cases hne : fd' = fd
    · subst hne
      exact Function.update_self ..
    · have hnone' : w.opened fd' = none := (Function.update_of_ne hne ..).symm.trans hnone
      rw [Function.update_of_ne hne]
      exact hw.free fd' hlt hnone'
  · intro fd' o ho
    rw [hnext]
    exact hw.old fd' o (update_none_eq_some ho).2
  · intro fd' o ho
    exact hw.fits fd' o (update_none_eq_some ho).2

/-- The object of one descriptor moves. All others are other objects, and stay. -/
theorem FdWorld.Inv.move (hw : w.Inv) {fd : Int} (h0 : 0 ≤ fd)
    (hopen : (w.opened fd.toNat).isSome) {pos : Int → Int} (h : w.fs.Through s fd pos) :
    FdWorld.Inv ⟨s, moveTo w.opened fd pos⟩ := by
  obtain ⟨f, file, file', hf, hfile, hfiles, -, hpos⟩ := h.files
  obtain ⟨o, ho, rfl⟩ := hw.file_eq h0 hopen hf
  obtain ⟨file₀, hfile₀, hpos₀⟩ := hw.object _ o ho
  cases hfile.symm.trans hfile₀
  rw [hpos₀] at hpos
  obtain ⟨hpos, hfits⟩ := hpos (hw.fits _ o ho)
  rw [hpos] at hfits
  have htable := h.fdtable
  have hmove : moveTo w.opened fd pos =
      Function.update w.opened fd.toNat (some ⟨o.object, pos o.pos⟩) := by
    rw [moveTo, ho]
    rfl
  rw [hmove]
  -- every descriptor still stands for the object it stood for
  have hobj : ∀ fd' o', Function.update w.opened fd.toNat (some ⟨o.object, pos o.pos⟩) fd' =
      some o' → ∃ p, w.opened fd' = some p ∧ p.object = o'.object := by
    intro fd' o' ho'
    rcases update_some_cases ho' with ⟨rfl, rfl⟩ | ⟨-, h⟩
    · exact ⟨o, ho, rfl⟩
    · exact ⟨o', h, rfl⟩
  refine ⟨⟨?_, ?_, ?_, ?_⟩, ?_, ?_⟩
  · intro fd' o' ho'
    obtain ⟨p, hp, hpo⟩ := hobj fd' o' ho'
    rw [htable, ← hpo]
    exact hw.slot fd' p hp
  · intro fd' o' ho'
    rw [hfiles]
    rcases update_some_cases ho' with ⟨rfl, rfl⟩ | ⟨hne, h⟩
    · exact ⟨file', Function.update_self .., hpos⟩
    · have hother : o'.object ≠ o.object := fun heq => hne (hw.distinct fd' _ o' o h ho heq)
      rw [Function.update_of_ne hother]
      exact hw.object fd' o' h
  · intro fd' fd'' o' o'' ho' ho'' heq
    obtain ⟨p, hp, hpo⟩ := hobj fd' o' ho'
    obtain ⟨p', hp', hpo'⟩ := hobj fd'' o'' ho''
    exact hw.distinct fd' fd'' p p' hp hp' (hpo.trans (heq.trans hpo'.symm))
  · intro fd' hlt hnone
    rw [htable]
    exact hw.free fd' hlt (update_some_eq_none hnone).2
  · intro fd' o' ho'
    obtain ⟨p, hp, hpo⟩ := hobj fd' o' ho'
    rw [h.nextFile, ← hpo]
    exact hw.old fd' p hp
  · intro fd' o' ho'
    rcases update_some_cases ho' with ⟨rfl, rfl⟩ | ⟨-, h⟩
    · exact hfits
    · exact hw.fits fd' o' h

/-- A call that leaves table and objects alone. -/
theorem FdWorld.Inv.same (hw : w.Inv) (htable : s.fdtable = w.fs.fdtable)
    (hnext : s.nextFile = w.fs.nextFile) (hfiles : s.files = w.fs.files) :
    FdWorld.Inv ⟨s, w.opened⟩ where
  slot := by
    rw [htable]
    exact hw.slot
  object := by
    rw [hfiles]
    exact hw.object
  distinct := hw.distinct
  free := by
    rw [htable]
    exact hw.free
  old := by
    rw [hnext]
    exact hw.old
  fits := hw.fits

theorem fdStep_inv {findDir : FindDir} {w' : FdWorld g} {call : FsCall} (hw : w.Inv)
    (hcall : call.UsesOpen w.opened) (h : fdStep findDir w call = some w') : w'.Inv := by
  obtain ⟨⟨s, ret⟩, hrun, rfl⟩ := Option.map_eq_some_iff.mp h
  cases call with
  | create ans name =>
      rcases monopolyCreate_cases hrun with ⟨-, rfl, rfl⟩ | ⟨_, _, _, _, _, t, -, -, -, -, ht, rfl⟩
      · exact hw.same rfl rfl rfl
      · exact hw.newFile ht rfl rfl rfl rfl
  | openName openErrno name =>
      rcases monopolyOpen_cases hrun with
        ⟨-, rfl, rfl⟩ | ⟨i, -, b, t, -, -, -, -, ht, htable, hnext, -, hfiles⟩
      · exact hw.same rfl rfl rfl
      · exact hw.newFile ht rfl htable hnext hfiles
  | close closeErrno fd =>
      obtain ⟨f, file, -, -, -, hfiles, hnext, -, htable, -⟩ := monopolyClose_cases hrun
      exact hw.close htable hfiles hnext
  | lseek fd offset whence =>
      obtain ⟨h0, hopen, hoff⟩ := hcall
      exact hw.move h0 hopen (monopolyLseek_through hoff hrun)
  | read io fd buf nbytes registered =>
      obtain ⟨h0, hopen⟩ := hcall
      obtain ⟨⟨s', buf', ret'⟩, hread, heq⟩ := Option.map_eq_some_iff.mp hrun
      cases heq
      exact hw.move h0 hopen (monopolyRead_through hread)
  | write io fd buf nbytes registered =>
      obtain ⟨h0, hopen⟩ := hcall
      obtain ⟨⟨s', buf', ret'⟩, hwrite, heq⟩ := Option.map_eq_some_iff.mp hrun
      cases heq
      exact hw.move h0 hopen (monopolyWrite_through hwrite)
  | stat openErrno name =>
      obtain ⟨⟨s', st, ret'⟩, hstat, heq⟩ := Option.map_eq_some_iff.mp hrun
      cases heq
      obtain ⟨hfiles, hnext, htable, -⟩ := monopolyStat_cases hstat
      exact hw.same htable hnext hfiles
  | unlink deleteErrno undef name =>
      rcases monopolyUnlink_cases hrun with ⟨-, rfl, -⟩ | ⟨i, -, -, -, hfiles, hnext, htable⟩
      · exact hw.same rfl rfl rfl
      · exact hw.same htable hnext hfiles

theorem returnsFree_of_inv (hw : w.Inv) (call : FsCall) : call.ReturnsFree w := by
  cases call with
  | create ans name =>
      intro s fd h h0
      rcases monopolyCreate_cases h with ⟨-, -, rfl⟩ | ⟨_, _, _, _, _, t, -, -, -, -, ht, -⟩
      · omega
      · exact hw.returnsFree ht h0
  | openName openErrno name =>
      intro s fd h h0
      rcases monopolyOpen_cases h with ⟨-, -, rfl⟩ | ⟨i, -, b, t, -, -, -, -, ht, -⟩
      · omega
      · exact hw.returnsFree ht h0
  | _ => trivial

end Step

/-- A session starts with no descriptor open. -/
theorem loadRoot_inv {ans : LoadAnswer} {superBlob : BlobId} {bs : Blobstore g} {s : Fs g}
    (h : loadRoot ans superBlob bs = some s) : FdWorld.Inv (g := g) ⟨s, fun _ => none⟩ := by
  obtain ⟨-, htable, -, -⟩ := loadRoot_spec h
  refine ⟨⟨?_, ?_, ?_, fun _ _ _ => by rw [htable]; rfl⟩, ?_, ?_⟩
  · exact fun _ _ ho => nomatch ho
  · exact fun _ _ ho => nomatch ho
  · exact fun _ _ _ _ ho => nomatch ho
  · exact fun _ _ ho => nomatch ho
  · exact fun _ _ ho => nomatch ho

/-- **Descriptor ownership.** In every run of a session, whatever its calls are answered,
every descriptor returned is free when it is returned, and at every point the table holds for
each open descriptor the object made by the call that returned it, at the position its own
seeks, reads and writes have left it. -/
theorem descriptors_owned {findDir : FindDir} {ans : LoadAnswer} {superBlob : BlobId}
    {bs : Blobstore g} {s : Fs g} {calls : List FsCall} (hload : loadRoot ans superBlob bs = some s)
    (hopen : EachStep (fdStep findDir) (fun w call => call.UsesOpen w.opened)
      ⟨s, fun _ => none⟩ calls) :
    Always (fdStep findDir) FdWorld.Owned ⟨s, fun _ => none⟩ calls ∧
      EachStep (fdStep findDir) (fun w call => call.ReturnsFree w) ⟨s, fun _ => none⟩ calls := by
  have hkeep : ∀ (w : FdWorld g) call w', w.Inv → call.UsesOpen w.opened →
      fdStep findDir w call = some w' → w'.Inv :=
    fun _ _ _ hw hcall h => fdStep_inv hw hcall h
  exact ⟨(always_of_step hkeep (loadRoot_inv hload) hopen).mono fun w hw => hw.toOwned,
    eachStep_of_step hkeep (fun w call hw _ => returnsFree_of_inv hw call)
      (loadRoot_inv hload) hopen⟩

/-- Two files are created, which get the descriptors 0 and 1, and the first is opened again before
it is closed. -/
def createTwo : List FsCall :=
  [.create (.done 1) nameA, .create (.done 2) nameB, .lseek 0 4096 SEEK_SET,
    .write (fun _ => .done) 1 (fun _ => 65) 8192 false, .openName 0 nameA, .close 0 0,
    .read (fun _ => .done) 2 (fun _ => 0) 4096 false]

theorem descriptors_owned_createTwo :
    Always (fdStep fun _ _ => -1) FdWorld.Owned ⟨.empty .malloc4k, fun _ => none⟩ createTwo ∧
      EachStep (fdStep fun _ _ => -1) (fun w call => call.ReturnsFree w)
        ⟨.empty .malloc4k, fun _ => none⟩ createTwo := by
  refine descriptors_owned (loadRoot_formatted .done 0) ?_
  have hfits : FitsOff 4096 := ⟨by decide, by decide⟩
  refine EachStep.cons rfl trivial (EachStep.cons rfl trivial ?_)
  refine EachStep.cons rfl ⟨by decide, rfl, hfits⟩ ?_
  refine EachStep.cons rfl ⟨by decide, rfl⟩ (EachStep.cons rfl trivial ?_)
  refine EachStep.cons rfl ⟨by decide, rfl⟩ ⟨⟨by decide, rfl⟩, fun _ _ => trivial⟩

end BlobTopFs
