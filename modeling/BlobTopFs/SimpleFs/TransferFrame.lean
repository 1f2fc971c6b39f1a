import BlobTopFs.SimpleFs.ChunkRuns

/-!
# What every transfer keeps

The laws of `TransferSpec` are about positions that are whole io_units. What is here holds at
any position and for any answers: a relation between a file and what it has become that each
transfer respects, and that composes, is respected by a whole request.
-/

namespace BlobTopFs

open Machine

variable {g : Geometry}

/-! ## The rule -/

/-- A relation between a file, what it has become and the bytes moved in between, that holds
of no transfers and of one sequence of them after another. -/
structure Composes (R : OpenFile g → OpenFile g → Int → Prop) : Prop where
  refl : ∀ v, R v v 0
  trans : ∀ {u v w a b}, R u v a → R v w b → R u w (a + b)

theorem s64_u64_add (x y : Int) : s64 ((u64 x : Int) + y) = s64 (x + y) := by
  rw [← s64_s64_add, s64_u64, s64_s64_add]

section Rule

variable {R : OpenFile g → OpenFile g → Int → Prop}

/-- What each chunk keeps, a loop keeps. -/
theorem chunkLoop_composes (hR : Composes R) {op : ChunkOp g} {total : Nat}
    (hop : ∀ i s t, op i s = some t → t.ret = 0 ∨ t.ret = chunkBytes total i)
    (hstep : ∀ i s t, op i s = some t → R s.view t.view t.ret)
    {left i : Nat} {s : ChunkState g} {real : Nat} {r : MonopolyIo g}
    (h : chunkLoop op left i s real = some r) :
    ∃ k, r.ret = s64 (real + k) ∧ R s.view r.view k := by
  induction left generalizing i s real with
  | zero =>
      cases h
      exact ⟨0, by rw [Int.add_zero], hR.refl s.view⟩
  | succ left ih =>
      rw [chunkLoop] at h
      obtain ⟨t, ht, h⟩ := Option.bind_eq_some_iff.mp h
      have hkeep := hstep _ _ _ ht
      have hs32 : s32 t.ret = t.ret := by
        rcases hop _ _ _ ht with hret | hret
        · rw [hret]
          rfl
        · rw [hret, s32_chunkBytes]
      rw [hs32] at h
      split at h
      · split at h
        · obtain ⟨k, hret, hrest⟩ := ih h
          refine ⟨t.ret + k, ?_, hR.trans hkeep hrest⟩
          rw [hret, s64_u64_add, Int.add_assoc]
        · cases h
      · next hzero =>
          cases h
          rw [not_not.mp hzero] at hkeep
          exact ⟨0, by rw [Int.add_zero], hkeep⟩

/-- What each read of a buffer keeps, a whole read request keeps. -/
theorem monopolyReadFile_composes (hR : Composes R)
    (hstep : ∀ ans v size buffer t, simpleFsRead ans v size buffer = some t → R v t.view t.ret)
    {io : Nat → IoAnswer} {v : OpenFile g} {bounce buf : Mem} {nbytes : Nat}
    {registered : Bool} {r : MonopolyIo g}
    (h : monopolyReadFile io v bounce buf nbytes registered = some r) :
    ∃ k, r.ret = s64 k ∧ R v r.view k := by
  unfold monopolyReadFile at h
  dsimp only at h
  split at h
  · cases h
    exact ⟨0, rfl, hR.refl v⟩
  · split at h
    · rw [readChunks_eq] at h
      simpa using chunkLoop_composes hR (fun _ _ _ => readChunk_ret)
        (fun _ _ _ ht => hstep _ _ _ _ _ ht) h
    · obtain ⟨t, ht, rfl⟩ := Option.map_eq_some_iff.mp h
      exact ⟨t.ret, s64_u64 _, hstep _ _ _ _ _ ht⟩

/-- What each write of a buffer keeps, a whole write request keeps. -/
theorem monopolyWriteFile_composes (hR : Composes R)
    (hstep : ∀ ans v size buffer t, simpleFsWrite ans v size buffer = some t → R v t.view t.ret)
    {io : Nat → WriteAnswer} {v : OpenFile g} {bounce buf : Mem} {nbytes : Nat}
    {registered : Bool} {r : MonopolyIo g}
    (h : monopolyWriteFile io v bounce buf nbytes registered = some r) :
    ∃ k, r.ret = s64 k ∧ R v r.view k := by
  unfold monopolyWriteFile at h
  dsimp only at h
  split at h
  · cases h
    exact ⟨0, rfl, hR.refl v⟩
  · split at h
    · rw [writeChunks_eq] at h
      simpa using chunkLoop_composes hR (fun _ _ _ => writeChunk_ret)
        (fun _ _ _ ht => hstep _ _ _ _ _ ht) h
    · obtain ⟨t, ht, rfl⟩ := Option.map_eq_some_iff.mp h
      exact ⟨t.ret, s64_u64 _, hstep _ _ _ _ _ ht⟩

end Rule

/-! ## The position and the blob -/

/-- A value of type `loff_t` -/
def FitsOff (x : Int) : Prop := -2 ^ 63 ≤ x ∧ x < 2 ^ 63

theorem fitsOff_zero : FitsOff 0 := ⟨by decide, by decide⟩

/-- The file object still has its blob, and its position has moved by `k`, as a `loff_t`
does. -/
structure Advanced (v w : OpenFile g) (k : Int) : Prop where
  fileBlob : w.file.blob = v.file.blob
  openRef : w.blob.openRef = v.blob.openRef
  pos : s64 w.file.fPos = s64 (v.file.fPos + k)
  fits : FitsOff v.file.fPos → FitsOff w.file.fPos

theorem Advanced.composes : Composes (g := g) Advanced where
  refl := fun v => ⟨rfl, rfl, by rw [Int.add_zero], id⟩
  trans := by
    intro u v w a b h h'
    refine ⟨h'.fileBlob.trans h.fileBlob, h'.openRef.trans h.openRef, ?_, h'.fits ∘ h.fits⟩
    rw [h'.pos, ← s64_s64_add, h.pos, s64_s64_add, Int.add_assoc]

/-- Where the position fits its type, so does the value it takes. -/
theorem Advanced.fPos {v w : OpenFile g} {k ret : Int} (h : Advanced v w k)
    (hret : ret = s64 k) (hv : FitsOff v.file.fPos) : w.file.fPos = s64 (v.file.fPos + ret) := by
  have hw := h.fits hv
  rw [hret, s64_add_s64, ← h.pos, s64_of_fits hw.1 hw.2]

theorem simpleFsRead_advanced {ans : IoAnswer} {v : OpenFile g} {size : Nat} {buffer : Mem}
    {t : Transfer g} (h : simpleFsRead ans v size buffer = some t) : Advanced v t.view t.ret := by
  unfold simpleFsRead at h
  split at h
  · cases h
  · split at h
    · cases h
      exact Advanced.composes.refl v
    · dsimp only at h
      split at h
      · cases h
        refine ⟨rfl, rfl, ?_, fun _ => s64_fits _⟩
        show s64 (s64 (v.file.fPos + size)) = s64 (v.file.fPos + s64 size)
        rw [s64_add_s64, s64_of_fits (s64_fits _).1 (s64_fits _).2]
      · cases h
        exact ⟨rfl, rfl, by rw [Int.add_zero]; rfl, id⟩

theorem simpleFsWrite_advanced {ans : WriteAnswer} {v : OpenFile g} {size : Nat} {buffer : Mem}
    {t : Transfer g} (h : simpleFsWrite ans v size buffer = some t) :
    Advanced v t.view t.ret := by
  obtain ⟨u, hu, rfl⟩ := Option.map_eq_some_iff.mp h
  obtain ⟨hfile, hkept, -⟩ := OpenFile.grow_spec hu
  obtain ⟨-, href, -, -⟩ := ioBlob_write_frame ans.io u.noteWrite.file.blob u.noteWrite.blob
    size u.noteWrite.file.fPos buffer
  have hpos : u.noteWrite.file.fPos = v.file.fPos := by rw [OpenFile.noteWrite_fPos, hfile]
  have href' := href.trans ((OpenFile.noteWrite_openRef u).trans hkept.openRef)
  have hblob : u.noteWrite.file.blob = v.file.blob := by rw [OpenFile.noteWrite_fileBlob, hfile]
  dsimp only
  split
  · refine ⟨hblob, href', ?_, fun _ => s64_fits _⟩
    show s64 (s64 (u.noteWrite.file.fPos + size)) = s64 (v.file.fPos + s64 size)
    rw [hpos, s64_add_s64, s64_of_fits (s64_fits _).1 (s64_fits _).2]
  · refine ⟨hblob, href', ?_, fun hv => ?_⟩
    · show s64 u.noteWrite.file.fPos = s64 (v.file.fPos + 0)
      rw [hpos, Int.add_zero]
    · show FitsOff u.noteWrite.file.fPos
      rwa [hpos]

end BlobTopFs
