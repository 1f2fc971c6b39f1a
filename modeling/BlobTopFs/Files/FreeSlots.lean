import BlobTopFs.Files.Accounting
import BlobTopFs.Files.CreateAtomic

/-!
# Whether a free descriptor is found

`get_fd_from_table` begins its scan at `_file_count` and ends it at the slot before, which it does
not look at. That slot is the only free one when 255 descriptors are open and 254 is not among
them, which is how things are when a full table has had descriptor 254 closed: the table is then
reported full, until another descriptor is closed.
-/

namespace BlobTopFs

open Machine Run PartialMap

variable {g : Geometry}

/-! ## One table -/

namespace Fdtable

/-- The scan ends. It finds a free slot if there is one, and reports the table full only if all
slots are in use. -/
structure AllocComplete (t : Fdtable) : Prop where
  ends : (getFdFromTable t).isSome = true
  finds : ∀ t' fd, getFdFromTable t = some (t', fd) →
    (holders spdkMaxFileCnt t.used true).card < spdkMaxFileCnt →
      ∃ i < spdkMaxFileCnt, fd = (i : Int) ∧ t.used i = false
  full : ∀ t', getFdFromTable t = some (t', -1) → ∀ i < spdkMaxFileCnt, t.used i = true

/-- All slots but one are in use, and the one before the last is not. -/
def BlindSpot (t : Fdtable) : Prop :=
  t.fileCount = spdkMaxFileCnt - 1 ∧ t.used (spdkMaxFileCnt - 2) = false

theorem HasSlot.not_blindSpot {t : Fdtable} (h : t.HasSlot) : ¬ t.BlindSpot := by
  rintro ⟨hcount, hfree⟩
  rcases h with hless | ⟨-, hused⟩
  · exact absurd hcount (Nat.ne_of_lt hless)
  · rw [hfree] at hused
    cases hused

theorem hasSlot_of_not_blindSpot {t : Fdtable} (h : ¬ t.BlindSpot)
    (hlt : t.fileCount < spdkMaxFileCnt) : t.HasSlot := by
  rcases Nat.lt_or_ge t.fileCount (spdkMaxFileCnt - 1) with hless | hge
  · exact Or.inl hless
  · have heq : t.fileCount = spdkMaxFileCnt - 1 := Nat.le_antisymm (Nat.le_sub_one_of_lt hlt) hge
    refine Or.inr ⟨heq, ?_⟩
    by_contra hfree
    exact h ⟨heq, by simpa using hfree⟩

/-- Where the count is right, that slot is the only one that can be missed. -/
theorem Counted.allocComplete_iff {t : Fdtable} (hc : t.Counted) :
    t.AllocComplete ↔ ¬ t.BlindSpot := by
  constructor
  · intro h hblind
    obtain ⟨⟨t', fd⟩, hget⟩ := Option.isSome_iff_exists.mp h.ends
    have hless : (holders spdkMaxFileCnt t.used true).card < spdkMaxFileCnt := by
      rw [← show t.fileCount = _ from hc, hblind.1]
      decide
    obtain ⟨i, -, rfl, -⟩ := h.finds t' fd hget hless
    exact (HasSlot.of_getFd hc hget (by simp)).not_blindSpot hblind
  · intro h
    refine ⟨hc.getFd_isSome, fun t' fd hget hless => ?_, fun t' hget => ?_⟩
    · rw [← show t.fileCount = _ from hc] at hless
      obtain ⟨t₁, fd₁, hget₁, hne⟩ := (hasSlot_of_not_blindSpot h hless).getFd hc
      cases hget.symm.trans hget₁
      rcases getFdFromTable_cases hget with ⟨hneg, -⟩ | ⟨i, hfd, hi, hfree, -⟩
      · exact absurd hneg hne
      · exact ⟨i, hi, hfd, hfree⟩
    · apply hc.accounted.full
      by_contra hless
      obtain ⟨t₁, fd₁, hget₁, hne⟩ :=
        (hasSlot_of_not_blindSpot h (Nat.lt_of_not_le hless)).getFd hc
      cases hget.symm.trans hget₁
      exact hne rfl

/-- The slot the scan begins at is taken if it is free. -/
theorem getFd_first {t : Fdtable} (hlt : t.fileCount < spdkMaxFileCnt)
    (hfree : t.used t.fileCount = false) :
    ∃ t', getFdFromTable t = some (t', (t.fileCount : Int)) := by
  have hne : ∀ k, t.fileCount ≤ k → k ≤ t.fileCount → k ≠ u32 ((t.fileCount : Int) - 1) := by
    intro k hk hk'
    unfold u32
    have hmax : spdkMaxFileCnt = 256 := rfl
    omega
  have hscan := fdScan_up (Nat.le_refl t.fileCount) hlt
    (fun k hk hk' => absurd hk' (Nat.not_lt_of_le hk)) hfree hne
    (show t.fileCount - t.fileCount < fdScanFuel by rw [Nat.sub_self]; decide)
  rw [getFdFromTable, if_neg (Nat.not_le_of_lt hlt), hscan]
  exact ⟨_, rfl⟩

/-- So no allocation leaves the blind spot behind. -/
theorem not_blindSpot_getFd {t t' : Fdtable} {fd : Int} (h : ¬ t.BlindSpot)
    (hget : getFdFromTable t = some (t', fd)) : ¬ t'.BlindSpot := by
  rcases getFdFromTable_cases hget with ⟨-, rfl⟩ | ⟨i, rfl, hi, hfree, hlt, rfl⟩
  · exact h
  · rintro ⟨hcount, hlast⟩
    have hcount' : t.fileCount = spdkMaxFileCnt - 2 := Nat.succ.inj hcount
    have hlast' : Function.update t.used i true (spdkMaxFileCnt - 2) = false := hlast
    by_cases hi' : spdkMaxFileCnt - 2 = i
    · rw [hi', Function.update_self] at hlast'
      cases hlast'
    · rw [Function.update_of_ne hi', ← hcount'] at hlast'
      obtain ⟨t₁, hfirst⟩ := getFd_first hlt hlast'
      rw [hget] at hfirst
      simp only [Option.some.injEq, Prod.mk.injEq, Int.natCast_inj] at hfirst
      exact hi' (hcount'.symm.trans hfirst.2.symm)

/-- A descriptor that is given back leaves it behind exactly if the table was full and the
descriptor is that one. -/
theorem Counted.blindSpot_returnFd_iff {t : Fdtable} {fd : Nat} (hc : t.Counted)
    (hfd : fd < spdkMaxFileCnt) (hused : t.used fd = true) :
    (returnFdToTable fd t).BlindSpot ↔
      t.fileCount = spdkMaxFileCnt ∧ fd = spdkMaxFileCnt - 2 := by
  have hmax : spdkMaxFileCnt = 256 := rfl
  have hcard := card_holders_lose hfd hused Bool.false_ne_true
  have hle := card_holders_le spdkMaxFileCnt t.used true
  have hcount : (returnFdToTable fd t).fileCount = t.fileCount - 1 := by
    show u32 ((t.fileCount : Int) - 1) = _
    rw [Counted] at hc
    unfold u32
    omega
  have hlast : (returnFdToTable fd t).used (spdkMaxFileCnt - 2) =
      Function.update t.used fd false (spdkMaxFileCnt - 2) := rfl
  rw [BlindSpot, hcount, hlast]
  constructor
  · rintro ⟨hless, hfree⟩
    have hall : t.fileCount = spdkMaxFileCnt := by
      rw [Counted] at hc
      omega
    refine ⟨hall, ?_⟩
    by_contra hne
    rw [Function.update_of_ne (Ne.symm hne)] at hfree
    rw [hc.accounted.full (Nat.le_of_eq hall.symm) _ (by omega)] at hfree
    cases hfree
  · rintro ⟨hall, rfl⟩
    exact ⟨by rw [hall], Function.update_self ..⟩

end Fdtable

/-! ## Runs -/

/-- A create, an open, or a close of a descriptor that is open. -/
def FsCall.OnDescriptors (s : Fs g) : FsCall → Prop
  | .create .. | .openName .. => True
  | .close _ fd => 0 ≤ fd ∧ fd < spdkMaxFileCnt ∧ s.fdtable.used fd.toNat = true
  | _ => False

/-- All descriptors are open, and 254 is closed. -/
def FsCall.LeavesBlindSpot (s : Fs g) : FsCall → Prop
  | .close _ fd => s.fdtable.fileCount = spdkMaxFileCnt ∧ fd = 254
  | _ => False

/-- A slot in use refers to a file object. -/
def Fdtable.Filled (t : Fdtable) : Prop :=
  ∀ i < spdkMaxFileCnt, t.used i = true → (t.openFiles i).isSome = true

/-- What a run keeps: the count, the objects and that no free slot is missed. -/
structure Fs.SlotInv (s : Fs g) : Prop where
  count : s.CountInv
  filled : s.fdtable.Filled
  clear : ¬ s.fdtable.BlindSpot

section Step

variable {findDir : FindDir} {s s' : Fs g} {call : FsCall}

theorem FsCall.OnDescriptors.closesUsed (h : call.OnDescriptors s) : call.ClosesUsed s := by
  cases call with
  | close closeErrno fd => exact fun _ _ => h.2.2
  | _ => trivial

/-- A new object is put where it was allocated, and what a close leaves behind is not in use. -/
theorem fsStep_filled (hs : s.fdtable.Filled) (h : fsStep findDir s call = some s') :
    s'.fdtable.Filled := by
  obtain ⟨ret, hrun⟩ := fsStep_eq_some.mp h
  rcases FsCall.run_fdtable hrun with ⟨htable, -⟩ | ⟨t, file, ht, htable, -⟩ |
    ⟨_, fd, f, -, -, htable, -⟩
  · exact htable ▸ hs
  · rw [htable]
    rcases getFdFromTable_cases ht with ⟨rfl, rfl⟩ | ⟨i, rfl, hi, -, -, rfl⟩
    · rw [Fdtable.install, if_pos rfl]
      exact hs
    · rw [Fdtable.install, if_neg (by simp)]
      intro j hj hused
      by_cases hji : j = i
      · simp [hji]
      · have hused' : s.fdtable.used j = true := (Function.update_of_ne hji ..).symm.trans hused
        simpa [hji] using hs j hj hused'
  · rw [htable]
    intro j hj hused
    by_cases hji : j = fd.toNat
    · rw [hji] at hused
      cases (Function.update_self ..).symm.trans hused
    · exact hs j hj ((Function.update_of_ne hji ..).symm.trans hused)

theorem fsStep_slotInv (hs : s.SlotInv) (hcall : call.OnDescriptors s)
    (hblind : ¬ call.LeavesBlindSpot s) (h : fsStep findDir s call = some s') : s'.SlotInv := by
  refine ⟨fsStep_countInv hs.count hcall.closesUsed h, fsStep_filled hs.filled h, ?_⟩
  obtain ⟨ret, hrun⟩ := fsStep_eq_some.mp h
  rcases FsCall.run_fdtable hrun with ⟨htable, -⟩ | ⟨t, file, ht, htable, -⟩ |
    ⟨closeErrno, fd, f, rfl, -, htable, -⟩
  · exact htable ▸ hs.clear
  · rw [htable]
    have hclear := Fdtable.not_blindSpot_getFd hs.clear ht
    unfold Fdtable.install
    split
    · exact hclear
    · exact hclear
  · obtain ⟨h0, hlt, hused⟩ := hcall
    rw [htable, hs.count.1.blindSpot_returnFd_iff (by omega) hused]
    rintro ⟨hall, hfd⟩
    refine hblind ⟨hall, ?_⟩
    have hmax : spdkMaxFileCnt = 256 := rfl
    omega

/-- A close of descriptor 254 in a full table leaves a free slot that is missed. -/
theorem not_leavesBlindSpot (hs : s.SlotInv) (hcall : call.OnDescriptors s)
    (h : ∀ s', fsStep findDir s call = some s' → s'.fdtable.AllocComplete) :
    ¬ call.LeavesBlindSpot s := by
  cases call with
  | close closeErrno fd =>
      rintro ⟨hall, rfl⟩
      have hcloses := hcall.closesUsed
      obtain ⟨-, hlt, hused⟩ := hcall
      obtain ⟨f, hf⟩ := Option.isSome_iff_exists.mp (hs.filled 254 (by decide) hused)
      have hfile : s.fdtable.file 254 = some f := (if_pos ⟨by decide, hlt⟩).trans hf
      obtain ⟨s', hclose, htable⟩ := fsStep_close hs.count.2 closeErrno hfile
      have hcount := (fsStep_countInv hs.count hcloses hclose).1
      apply hcount.allocComplete_iff.mp (h s' hclose)
      rw [htable]
      exact (hs.count.1.blindSpot_returnFd_iff (by decide) hused).mpr ⟨hall, rfl⟩
  | _ => exact id

end Step

theorem loadRoot_slotInv {ans : LoadAnswer} {superBlob : BlobId} {bs : Blobstore g} {s : Fs g}
    (h : loadRoot ans superBlob bs = some s) : s.SlotInv := by
  obtain ⟨-, htable, -, -⟩ := loadRoot_spec h
  refine ⟨loadRoot_countInv h, ?_, ?_⟩
  · rw [htable]
    intro i hi hused
    cases hused
  · rw [htable]
    rintro ⟨hcount, -⟩
    cases hcount

/-- **Free descriptors.** In a run of creates, opens and closes of open descriptors the table is
at every point one in which a free slot is found, exactly when no call closes descriptor 254
while all descriptors are open. -/
theorem alloc_complete_iff {findDir : FindDir} {ans : LoadAnswer} {superBlob : BlobId}
    {bs : Blobstore g} {s : Fs g} {calls : List FsCall}
    (hload : loadRoot ans superBlob bs = some s)
    (hcalls : EachStep (fsStep findDir) (fun s call => call.OnDescriptors s) s calls) :
    Always (fsStep findDir) (fun s => s.fdtable.AllocComplete) s calls ↔
      EachStep (fsStep findDir) (fun s call => ¬ call.LeavesBlindSpot s) s calls :=
  always_iff_eachStep (I := Fs.SlotInv)
    (fun _ hs => hs.count.1.allocComplete_iff.mpr hs.clear)
    (fun _ _ _ hs hcall hblind h => fsStep_slotInv hs hcall hblind h)
    (fun _ _ hs hcall h => not_leavesBlindSpot hs hcall h) (loadRoot_slotInv hload) hcalls

/-- A file is created and closed. -/
theorem alloc_complete_closed :
    Always (fsStep fun _ _ => -1) (fun s => s.fdtable.AllocComplete) (.empty .malloc4k)
      [.create (.done 1) nameA, .close 0 0] := by
  refine (alloc_complete_iff (loadRoot_formatted .done 0) ?_).mpr ?_
  · refine EachStep.cons rfl trivial (EachStep.cons rfl ?_ trivial)
    exact ⟨by decide, by decide, rfl⟩
  · refine EachStep.cons rfl id (EachStep.cons rfl ?_ trivial)
    rintro ⟨-, hfd⟩
    cases hfd

/-- One file is opened until the table is full, and descriptor 254 is closed. The table is still
reported full. -/
theorem alloc_misses_254 :
    ∃ s s', exec (fsStep fun _ _ => -1) (.empty .malloc4k) fillTable = some s ∧
      (FsCall.close 0 254).OnDescriptors s ∧ fsStep (fun _ _ => -1) s (.close 0 254) = some s' ∧
      ¬ s'.fdtable.AllocComplete := by
  have hrun : ((exec (fsStep fun _ _ => -1) (.empty .malloc4k) fillTable).bind fun s =>
      (fsStep (fun _ _ => -1) s (.close 0 254)).bind fun s' =>
        (getFdFromTable s'.fdtable).map fun r =>
          (s.fdtable.used 254, s'.fdtable.used 254, r.2)) = some (true, false, -1) := by
    decide +kernel
  obtain ⟨s, hs, hrun⟩ := Option.bind_eq_some_iff.mp hrun
  obtain ⟨s', hclose, hrun⟩ := Option.bind_eq_some_iff.mp hrun
  obtain ⟨⟨t, fd⟩, hget, heq⟩ := Option.map_eq_some_iff.mp hrun
  simp only [Prod.mk.injEq] at heq
  obtain ⟨hused, hfree, rfl⟩ := heq
  refine ⟨s, s', hs, ⟨by decide, by decide, hused⟩, hclose, fun h => ?_⟩
  have hall := h.full t hget 254 (by decide)
  rw [hfree] at hall
  cases hall

end BlobTopFs
