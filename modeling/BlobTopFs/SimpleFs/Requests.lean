import BlobTopFs.SimpleFs.TransferFrame
import BlobTopFs.SimpleFs.TransferSpec

/-!
# What is handed to the blobstore

The log tells which requests a call has made. A read request is inside the file if its io_units
are, and if they are as many bytes as its caller has room for. From an io_unit boundary
`simple_fs_read` makes no other, except that its end-of-file test compares a sum that may have
wrapped: a request of nearly `2 ^ 64` bytes passes it.
-/

namespace BlobTopFs

open Machine

variable {g : Geometry}

/-- The requests made between two states of the log are all of the kind `Q`. -/
def Asked (Q : Request → Prop) (l l' : List Event) : Prop :=
  ∃ es, l' = es ++ l ∧ ∀ e ∈ es, Q e.request

namespace Asked

variable {Q : Request → Prop} {l l' l'' : List Event}

theorem refl (Q : Request → Prop) (l : List Event) : Asked Q l l := ⟨[], rfl, nofun⟩

theorem trans (h : Asked Q l l') (h' : Asked Q l' l'') : Asked Q l l'' := by
  obtain ⟨es, rfl, hes⟩ := h
  obtain ⟨es', rfl, hes'⟩ := h'
  refine ⟨es' ++ es, (List.append_assoc ..).symm, fun e he => ?_⟩
  rcases List.mem_append.mp he with he | he
  · exact hes' e he
  · exact hes e he

theorem mono {Q' : Request → Prop} (hQ : ∀ r, Q r → Q' r) (h : Asked Q l l') : Asked Q' l l' := by
  obtain ⟨es, rfl, hes⟩ := h
  exact ⟨es, rfl, fun e he => hQ _ (hes e he)⟩

/-- One request. -/
theorem cons_iff {r : Request} {e : Int} : Asked Q l (⟨r, e⟩ :: l) ↔ Q r := by
  constructor
  · rintro ⟨es, heq, hes⟩
    obtain rfl : es = [⟨r, e⟩] := List.append_cancel_right heq.symm
    exact hes _ List.mem_cons_self
  · intro hr
    refine ⟨[⟨r, e⟩], rfl, fun e' he' => ?_⟩
    cases List.mem_singleton.mp he'
    exact hr

end Asked

/-- A read request stays below `fSize`, and is for the `size` bytes of its buffer. -/
def ReadInside (g : Geometry) (fSize : Nat) : Request → Prop
  | .ioRead _ offset length size =>
      (offset + length) * g.ioUnit ≤ fSize ∧ length * g.ioUnit = size
  | _ => True

/-! ## Reads -/

/-- The request that `simple_fs_read` makes, if the end-of-file test lets it. -/
theorem simpleFsRead_log {ans : IoAnswer} {v : OpenFile g} {size : Nat} {buffer : Mem}
    {t : Transfer g} (h : simpleFsRead ans v size buffer = some t) :
    v.persist.fSize < u64 (v.file.fPos + size) ∧ t.view.log = v.log ∨
      u64 (v.file.fPos + size) ≤ v.persist.fSize ∧ ∃ e, t.view.log =
        ⟨.ioRead v.file.blob (u64 v.file.fPos / g.ioUnit) (upperDiv size g.ioUnit) size, e⟩ ::
          v.log := by
  unfold simpleFsRead at h
  split at h
  · cases h
  · split at h
    · next hbehind =>
        cases h
        exact Or.inl ⟨hbehind, rfl⟩
    · next hinside =>
        right
        refine ⟨not_lt.mp hinside, ?_⟩
        dsimp only at h
        split at h
        · cases h
          exact ⟨_, rfl⟩
        · cases h
          exact ⟨_, rfl⟩

/-- It is inside the file exactly if the test is not passed by a sum that has wrapped. -/
theorem simpleFsRead_asked_iff {ans : IoAnswer} {v : OpenFile g} {p size : Nat} {buffer : Mem}
    {t : Transfer g} (hv : v.At p) (hs : g.ioUnit ∣ size) (hs0 : 0 < size)
    (hs' : size < 2 ^ 64) (h : simpleFsRead ans v size buffer = some t) :
    Asked (ReadInside g v.persist.fSize) v.log t.view.log ↔
      (u64 ((p : Int) + size) ≤ v.persist.fSize → p + size ≤ v.persist.fSize) := by
  have hp : p < 2 ^ 64 := by have := hv.lt; omega
  obtain ⟨h1, h2⟩ := ioUnits_bytes hv.dvd hp hs hs0 hs'
  have hlog := simpleFsRead_log h
  rw [hv.fPos] at hlog
  rcases hlog with ⟨hbehind, hlog⟩ | ⟨hinside, e, hlog⟩
  · rw [hlog]
    exact iff_of_true (Asked.refl _ _) fun hle => absurd hle (not_le.mpr hbehind)
  · rw [hlog, Asked.cons_iff, ReadInside, Nat.add_mul, h1, h2]
    exact ⟨fun h _ => h.1, fun h => ⟨h hinside, rfl⟩⟩

/-- No chunk is so long that the sum wraps. -/
theorem ChunkRun.asked {io : Nat → IoAnswer} {p total : Nat} (h0 : 0 < total)
    (hB : g.ioUnit ∣ bufSize) (ht : g.ioUnit ∣ total) {j : Nat} {s t : ChunkState g}
    (hrun : ChunkRun (readChunk io total) total 0 s t j) (hv : s.view.At p) :
    Asked (ReadInside g s.view.persist.fSize) s.view.log t.view.log := by
  -- what a chunk finds: the file is where the chunk starts, and all requests were inside
  let I : Nat → ChunkState g → Prop := fun i u =>
    u.view.At (p + min total (i * bufSize)) ∧ ReadFrame s.view u.view ∧
      Asked (ReadInside g s.view.persist.fSize) s.view.log u.view.log
  have hstart : I 0 s := ⟨by simpa using hv, ReadFrame.refl _, Asked.refl _ _⟩
  have chunk : ∀ i u t', i < chunkCount total → I i u → readChunk io total i u = some t' →
      ReadFrame s.view t'.view ∧
        Asked (ReadInside g s.view.persist.fSize) s.view.log t'.view.log ∧
        (t'.ret = chunkBytes total i → t'.view.At (p + min total ((i + 1) * bufSize))) := by
    rintro i u t' hi ⟨hAt, hframe, hasked⟩ ht'
    have hlt := chunk_start_lt h0 hi
    have hb0 := chunkBytes_pos hlt
    have hb1 : chunkBytes total i ≤ 65536 := chunkBytes_le
    have hbd : g.ioUnit ∣ chunkBytes total i := dvd_chunkBytes hB ht
    have hnext := chunkBytes_add hlt
    rw [Nat.min_eq_right (Nat.le_of_lt hlt)] at hAt
    have hpos := hAt.lt
    obtain ⟨hframe', -, hcase⟩ := simpleFsRead_spec hAt hbd hb0 (by omega) ht'
    have hchunk : Asked (ReadInside g u.view.persist.fSize) u.view.log t'.view.log := by
      refine (simpleFsRead_asked_iff hAt hbd hb0 (by omega) ht').mpr ?_
      rw [← Int.natCast_add, u64_natCast (by omega)]
      exact id
    rw [hframe.persist] at hchunk
    refine ⟨hframe.trans hframe', hasked.trans hchunk, fun hret => ?_⟩
    rcases hcase with ⟨-, hmoved, -, hcap, -⟩ | ⟨hret', -⟩
    · have hcaplt := u.view.blob.capacity_lt
      rw [← hnext, ← Nat.add_assoc]
      exact hAt.moved hmoved hbd (by omega)
    · omega
  have keep : ∀ i u u', i < chunkCount total → I i u →
      ChunkMoved (readChunk io total) total i u u' → I (i + 1) u' := by
    rintro i u u' hi hI ⟨t', ht', hret, rfl⟩
    obtain ⟨hframe, hasked, hAt⟩ := chunk i u t' hi hI ht'
    exact ⟨hAt hret, hframe, hasked⟩
  rcases hrun.rule keep hstart with ⟨-, -, -, hasked⟩ | ⟨hj, u, hI, t', ht', -, rfl⟩
  · exact hasked
  · exact (chunk j u t' hj hI ht').2.1

/-- **What a read asks for.** All requests of `monopoly_read` are inside the file, unless the
buffer is a registered one and its length takes the sum past `2 ^ 64`. -/
theorem monopolyReadFile_asked_iff {io : Nat → IoAnswer} {v : OpenFile g} {p nbytes total : Nat}
    {bounce buf : Mem} {registered : Bool} {r : MonopolyIo g} (hB : g.ioUnit ∣ bufSize)
    (hv : v.At p) (h64 : nbytes < 2 ^ 64) (htot : nbytes / g.ioUnit * g.ioUnit = total)
    (h : monopolyReadFile io v bounce buf nbytes registered = some r) :
    Asked (ReadInside g v.persist.fSize) v.log r.view.log ↔
      (registered = true → u64 ((p : Int) + total) ≤ v.persist.fSize →
        p + total ≤ v.persist.fSize) := by
  subst htot
  have hle := total_le (g := g) nbytes
  have hd := dvd_total (g := g) nbytes
  have hp := hv.lt
  by_cases hz : nbytes / g.ioUnit = 0
  · rw [monopolyReadFile_zero v bounce buf hz] at h
    cases h
    refine iff_of_true (Asked.refl _ _) fun _ => ?_
    rw [hz, Nat.zero_mul, ← Int.natCast_add, u64_natCast (by omega)]
    exact id
  · have h0 := total_pos hz
    cases registered with
    | false =>
        rw [monopolyReadFile_bounced v bounce buf h64 rfl h0] at h
        obtain ⟨j, hrun, -, -⟩ := (chunkLoop_start h0 fun _ _ _ => readChunk_ret).mp h
        exact iff_of_true (hrun.asked h0 hB hd hv) nofun
    | true =>
        rw [monopolyReadFile_direct v bounce buf rfl h0] at h
        obtain ⟨t, ht, rfl⟩ := Option.map_eq_some_iff.mp h
        rw [eq_self_iff_true, true_imp_iff]
        exact simpleFsRead_asked_iff hv hd h0 (by omega) ht

/-! ## Writes -/

theorem genericBlobResize_asked {ans : ResizeAnswer} {id : BlobId} {b : Blob g} {size : Nat}
    {d : ResizeDone g} (h : genericBlobResize ans id b size = some d) (fSize : Nat)
    (l : List Event) : Asked (ReadInside g fSize) l (d.events ++ l) := by
  refine ⟨d.events, rfl, fun e he => ?_⟩
  unfold genericBlobResize at h
  split at h
  · cases h
  · dsimp only at h
    split at h
    · cases h
      cases List.mem_singleton.mp he
      trivial
    · cases h
      simp only [List.mem_cons, List.not_mem_nil, or_false] at he
      rcases he with rfl | rfl
      · trivial
      · trivial

@[simp] theorem OpenFile.noteWrite_log (v : OpenFile g) : v.noteWrite.log = v.log := by
  unfold noteWrite setPersist
  dsimp only
  split <;> rfl

theorem OpenFile.grow_asked {ans : ResizeAnswer} {v u : OpenFile g} {size : Nat}
    (h : v.grow ans size = some u) (fSize : Nat) : Asked (ReadInside g fSize) v.log u.log := by
  unfold OpenFile.grow at h
  dsimp only at h
  split at h
  · obtain ⟨d, hd, rfl⟩ := Option.map_eq_some_iff.mp h
    exact genericBlobResize_asked hd fSize v.log
  · cases h
    exact Asked.refl _ _

/-- A write reads nothing. -/
theorem simpleFsWrite_asked {ans : WriteAnswer} {v : OpenFile g} {size : Nat} {buffer : Mem}
    {t : Transfer g} (h : simpleFsWrite ans v size buffer = some t) (fSize : Nat) :
    Asked (ReadInside g fSize) v.log t.view.log := by
  obtain ⟨u, hu, rfl⟩ := Option.map_eq_some_iff.mp h
  refine (OpenFile.grow_asked hu fSize).trans ?_
  rw [← OpenFile.noteWrite_log u]
  dsimp only
  split
  · exact Asked.cons_iff.mpr trivial
  · exact Asked.cons_iff.mpr trivial

theorem monopolyWriteFile_asked {io : Nat → WriteAnswer} {v : OpenFile g} {bounce buf : Mem}
    {nbytes : Nat} {registered : Bool} {r : MonopolyIo g}
    (h : monopolyWriteFile io v bounce buf nbytes registered = some r) (fSize : Nat) :
    Asked (ReadInside g fSize) v.log r.view.log := by
  have hR : Composes (g := g) fun v w _ => Asked (ReadInside g fSize) v.log w.log :=
    ⟨fun v => Asked.refl _ _, fun h h' => h.trans h'⟩
  obtain ⟨-, -, hasked⟩ := monopolyWriteFile_composes hR
    (fun _ _ _ _ _ ht => simpleFsWrite_asked ht fSize) h
  exact hasked

end BlobTopFs
