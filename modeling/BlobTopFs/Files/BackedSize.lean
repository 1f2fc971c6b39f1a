import BlobTopFs.Files.RoundTrip

/-!
# The recorded size against what was stored

A run of seeks, reads and writes on one descriptor, followed beside the largest end of a chunk
that was stored. `simple_fs_write` raises `f_size` to the position it starts from before it knows
whether anything is stored, so the size stays below that end exactly in the runs where no write
starts behind it and then stores nothing.
-/

namespace BlobTopFs

open Machine Run

variable {g : Geometry}

/-- The file system, the position, and the largest end of a chunk that was stored. -/
structure EndWorld (g : Geometry) where
  fs : Fs g
  pos : Nat
  ends : Nat

/-- One call. The last chunk that a write stores ends behind the bytes it returns. -/
def endStep (fd : Int) (w : EndWorld g) : FdCall → Option (EndWorld g)
  | .lseek offset whence =>
      (monopolyLseek fd offset whence w.fs).map fun r => { w with fs := r.1, pos := r.2.toNat }
  | .write io buf nbytes registered =>
      (monopolyWrite io fd buf nbytes registered w.fs).map fun r =>
        let k := r.2.2.toNat
        { fs := r.1
          pos := w.pos + k
          ends := if 0 < k then max w.ends (w.pos + k) else w.ends }
  | .read io buf nbytes registered =>
      (monopolyRead io fd buf nbytes registered w.fs).map fun r =>
        { w with fs := r.1, pos := w.pos + r.2.2.toNat }

namespace EndWorld

/-- Offsets and lengths are values of their types, and no seek goes below 0. -/
def Legal (fd : Int) (w : EndWorld g) (call : FdCall) : Prop :=
  call.Legal fd (IoWorld.start w.fs w.pos 0)

/-- The file's size is backed by what was stored, and that by the blob's clusters. -/
def Backed (fd : Int) (w : EndWorld g) : Prop :=
  ∀ f v, w.fs.Resolves fd f v → v.persist.fSize ≤ w.ends ∧ w.ends ≤ v.blob.capacity

/-- A write of any io_units at all starts at or below the largest end, or its first piece is
stored. -/
def StartsBacked (fd : Int) (w : EndWorld g) : FdCall → Prop
  | .write io _ nbytes registered =>
      let total := nbytes / g.ioUnit * g.ioUnit
      ∀ f v, w.fs.Resolves fd f v →
        total = 0 ∨ w.pos ≤ w.ends ∨
          v.Stores (io 0) w.pos (min total (chunkLen registered total))
  | .lseek .. | .read .. => True

/-- The descriptor is open at the position, and the size is backed. -/
def Inv (fd : Int) (w : EndWorld g) : Prop :=
  ∃ f v, w.fs.Resolves fd f v ∧ v.At w.pos ∧ v.persist.fSize ≤ w.ends ∧
    w.ends ≤ v.blob.capacity

theorem Inv.backed {fd : Int} {w : EndWorld g} (h : w.Inv fd) : w.Backed fd := by
  obtain ⟨f, v, hres, -, hsize, hends⟩ := h
  intro f' v' hres'
  obtain ⟨rfl, rfl⟩ := hres.unique hres'
  exact ⟨hsize, hends⟩

theorem Inv.step {fd : Int} (hB : g.ioUnit ∣ bufSize) {w w' : EndWorld g} {call : FdCall}
    (h : w.Inv fd) (hcall : w.Legal fd call) (hwell : w.StartsBacked fd call)
    (hstep : endStep fd w call = some w') : w'.Inv fd := by
  obtain ⟨f, v, hres, hpos, hsize, hends⟩ := h
  cases call with
  | lseek offset whence =>
      obtain ⟨h0, h1, hnonneg⟩ := hcall
      obtain ⟨s', hs', -, hres'⟩ := Fs.monopolyLseek_eq hres offset whence
      rw [endStep, hs'] at hstep
      cases hstep
      exact ⟨f, _, hres', hpos.lseek h0 h1 (hnonneg _ _ hs'),
        (congrArg _ (v.lseek_persist offset whence)).trans_le hsize, hends⟩
  | write io buf nbytes registered =>
      obtain ⟨⟨s', buf', ret⟩, hs', rfl⟩ := Option.map_eq_some_iff.mp hstep
      obtain ⟨k, r, hr, hk, rfl, hres', hwrote⟩ := Fs.monopolyWrite_spec hB hres hpos hcall hs'
      have hcap := hwrote.capacity
      have hstart := lastChunkStart_le registered (nbytes / g.ioUnit * g.ioUnit) k
      refine ⟨f, r.view, hres', hwrote.fPos, ?_, ?_⟩
      · simp only [hwrote.fSize, Int.toNat_natCast]
        rcases Nat.eq_zero_or_pos k with rfl | hk0
        · -- nothing is stored, and so the write does not start behind the largest end
          rw [if_neg (Nat.lt_irrefl 0)]
          split
          · next h0 =>
              rcases hwell f v hres with hz | hle | hstores
              · omega
              · omega
              · have := (monopolyWriteFile_pos_iff hB hpos hcall rfl h0 hr).mpr hstores
                omega
          · exact hsize
        -- the last piece tried starts inside what was stored
        · rw [if_pos hk0]
          split <;> omega
      · simp only [Int.toNat_natCast]
        split
        · next hk0 => exact max_le (hends.trans hcap) (hwrote.backed hk0)
        · exact hends.trans hcap
  | read io buf nbytes registered =>
      obtain ⟨⟨s', buf', ret⟩, hs', rfl⟩ := Option.map_eq_some_iff.mp hstep
      obtain ⟨k, r, -, -, rfl, hres', hread, -⟩ := Fs.monopolyRead_spec hB hres hpos hcall hs'
      refine ⟨f, r.view, hres', hread.fPos, ?_, ?_⟩
      · rw [hread.frame.persist]
        exact hsize
      · rw [OpenFile.capacity_congr hread.frame.clusters]
        exact hends

/-- A write that starts behind the largest end and stores nothing raises the size past it. -/
theorem Inv.startsBacked {fd : Int} (hB : g.ioUnit ∣ bufSize) {w : EndWorld g} {call : FdCall}
    (h : w.Inv fd) (hcall : w.Legal fd call)
    (hsafe : ∀ w', endStep fd w call = some w' → w'.Backed fd) : w.StartsBacked fd call := by
  obtain ⟨f, v, hres, hpos, hsize, hends⟩ := h
  cases call with
  | lseek offset whence => trivial
  | read io buf nbytes registered => trivial
  | write io buf nbytes registered =>
      intro f' v' hres'
      obtain ⟨rfl, rfl⟩ := hres.unique hres'
      by_contra hno
      rw [not_or, not_or] at hno
      obtain ⟨hz, hbehind, hnot⟩ := hno
      have h0 := Nat.pos_of_ne_zero hz
      obtain ⟨r, hr, hret⟩ :=
        monopolyWriteFile_of_not_stores w.fs.buffer buf hB hpos hcall rfl h0 hnot
      have hs' := (Fs.monopolyWrite_eq_some hres).mpr ⟨r, hr, rfl, rfl, rfl⟩
      obtain ⟨k, r', hr', hk, -, hres', hwrote⟩ := Fs.monopolyWrite_spec hB hres hpos hcall hs'
      cases hr.symm.trans hr'
      obtain rfl : k = 0 := Int.natCast_eq_zero.mp (hk.symm.trans hret)
      have hsize' := (hsafe _ (by rw [endStep, hs']; rfl) f r.view hres').1
      have hstart := Nat.le_zero.mp (lastChunkStart_le registered (nbytes / g.ioUnit * g.ioUnit) 0)
      simp only [hwrote.fSize, if_pos h0, hstart, hret, Int.toNat_zero, lt_irrefl,
        if_false] at hsize'
      exact hbehind (Nat.le_trans (Nat.le_max_right ..) hsize')

end EndWorld

/-- **The recorded size.** From a file whose size is backed, a run of seeks to non-negative
positions, reads and writes, with any pattern of failures, keeps it backed in every state it
reaches exactly when each of its writes starts at or below the largest end of a chunk stored so
far, or stores its first piece. -/
theorem sizeBacked_iff {fd : Int} (hB : g.ioUnit ∣ bufSize) {s : Fs g} {f : FileId}
    {v : OpenFile g} {pos ends : Nat} (hopen : s.Resolves fd f v) (hpos : v.At pos)
    (hsize : v.persist.fSize ≤ ends) (hends : ends ≤ v.blob.capacity) {calls : List FdCall}
    (hlegal : EachStep (endStep fd) (EndWorld.Legal fd) ⟨s, pos, ends⟩ calls) :
    Always (endStep fd) (EndWorld.Backed fd) ⟨s, pos, ends⟩ calls ↔
      EachStep (endStep fd) (EndWorld.StartsBacked fd) ⟨s, pos, ends⟩ calls := by
  have hstart : EndWorld.Inv fd ⟨s, pos, ends⟩ := ⟨f, v, hopen, hpos, hsize, hends⟩
  refine always_iff_eachStep (I := EndWorld.Inv fd) ?_ ?_ ?_ hstart hlegal
  · intro w h
    exact h.backed
  · intro w call w' h hcall hwell hstep
    exact h.step hB hcall hwell hstep
  · intro w call h hcall hsafe
    exact h.startsBacked hB hcall hsafe

/-- Three chunks written to the new file of `file_ut.c`, and a seek back to the second, where SPDK
fails a write. -/
def threeChunks : List FdCall :=
  [.write (fun _ => .done) (fun _ => 65) (3 * bufSize) false, .lseek bufSize SEEK_SET,
    .write (fun _ => ⟨⟨0, 0⟩, ⟨-5, none⟩⟩) (fun _ => 66) 4096 false]

/-- The size is 128 KiB then. -/
theorem sizeBacked_threeChunks :
    Always (endStep 0) (EndWorld.Backed 0) ⟨fileUtFs, 0, 0⟩ threeChunks ∧
      (exec (endStep 0) ⟨fileUtFs, 0, 0⟩ threeChunks).bind (fun w =>
        (w.fs.openFile 0).map fun v => v.persist.fSize) = some (2 * bufSize) := by
  have hlegal : EachStep (endStep 0) (EndWorld.Legal 0) ⟨fileUtFs, 0, 0⟩ threeChunks := by
    refine EachStep.cons rfl (show 3 * bufSize < 2 ^ 64 by decide) ?_
    refine EachStep.cons rfl ⟨by decide, by decide, fun s pos h => ?_⟩
      ⟨show 4096 < 2 ^ 64 by decide, fun _ _ => trivial⟩
    cases h
    decide
  refine ⟨(sizeBacked_iff (f := 0) (by decide) ⟨rfl, rfl⟩ (OpenFile.at_zero rfl) (by decide)
    (by decide) hlegal).mpr ?_, by decide +kernel⟩
  refine EachStep.cons rfl (fun _ _ _ => Or.inr (Or.inl (Nat.le_refl _))) ?_
  refine EachStep.cons rfl trivial ⟨fun _ _ _ => Or.inr (Or.inl ?_), fun _ _ => trivial⟩
  decide +kernel

/-- A seek two clusters past the end and a write there, which stores nothing: the size is 2 MiB
and no chunk was ever stored. -/
theorem not_sizeBacked_far :
    EachStep (endStep 0) (EndWorld.Legal 0) ⟨fileUtFs, 0, 0⟩
        [.lseek (2 * 0x100000) SEEK_SET, .write (fun _ => .done) (fun _ => 65) 4096 false] ∧
      ¬ Always (endStep 0) (EndWorld.Backed 0) ⟨fileUtFs, 0, 0⟩
        [.lseek (2 * 0x100000) SEEK_SET, .write (fun _ => .done) (fun _ => 65) 4096 false] := by
  constructor
  · refine EachStep.cons rfl ⟨by decide, by decide, ?_⟩
      ⟨show 4096 < 2 ^ 64 by decide, fun _ _ => trivial⟩
    intro s pos h
    cases h
    decide
  · intro h
    have hfar := ((h.2 _ rfl).2 _ rfl).head 0 _ ⟨rfl, rfl⟩
    exact absurd hfar.1 (by decide +kernel)

end BlobTopFs
