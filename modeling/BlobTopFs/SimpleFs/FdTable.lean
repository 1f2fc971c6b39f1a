import Mathlib.Data.Nat.Find
import BlobTopFs.Lib.Holders
import BlobTopFs.SimpleFs.MonopolyOps

/-!
# The descriptor table

Whatever the table looks like, a slot `get_fd_from_table` hands out is inside the array and
was free. That it hands one out at all depends on `_file_count` being the number of used
slots: the scan leaves out the one slot just before where it begins, which is harmless as
long as a second one is free.
-/

namespace BlobTopFs

open Machine

/-! ## What the scan returns -/

theorem fdScan_spec {used : Nat → Bool} {last fuel i j : Nat} (hi : i ≤ spdkMaxFileCnt)
    (h : fdScan used last fuel i = some (some j)) : j < spdkMaxFileCnt ∧ used j = false := by
  induction fuel generalizing i with
  | zero => cases h
  | succ fuel ih =>
      simp only [fdScan] at h
      split at h
      · cases h
      · -- `k` is the slot the body looks at
        generalize hk : (if i = spdkMaxFileCnt then 0 else i) = k at h
        have hlt : k < spdkMaxFileCnt := by
          rw [← hk]
          split
          · decide
          · omega
        split at h
        · have hsmall : k + 1 < 2 ^ 32 := by
            unfold spdkMaxFileCnt at hlt
            omega
          rw [← Int.natCast_succ, u32_of_lt hsmall] at h
          exact ih hlt h
        · next hfree =>
            cases h
            exact ⟨hlt, by simpa using hfree⟩

/-- A descriptor that is handed out was free. -/
theorem getFdFromTable_cases {t t' : Fdtable} {fd : Int}
    (h : getFdFromTable t = some (t', fd)) :
    (fd = -1 ∧ t' = t) ∨
      ∃ i : Nat, fd = i ∧ i < spdkMaxFileCnt ∧ t.used i = false ∧ t.fileCount < spdkMaxFileCnt ∧
        t' = { t with used := Function.update t.used i true, fileCount := t.fileCount + 1 } := by
  unfold getFdFromTable at h
  split at h
  · cases h
    exact Or.inl ⟨rfl, rfl⟩
  · next hcount =>
      obtain ⟨r, hr, heq⟩ := Option.map_eq_some_iff.mp h
      cases r with
      | none =>
          cases heq
          exact Or.inl ⟨rfl, rfl⟩
      | some i =>
          cases heq
          have hsmall : t.fileCount + 1 < 2 ^ 32 := by
            unfold spdkMaxFileCnt at hcount
            omega
          obtain ⟨hi, hfree⟩ := fdScan_spec (by omega) hr
          refine Or.inr ⟨i, rfl, hi, hfree, by omega, ?_⟩
          rw [← Int.natCast_succ, u32_of_lt hsmall]

/-! ## When a slot is found -/

/-- Going up from `i`, the scan stops at the first free slot. -/
theorem fdScan_up {used : Nat → Bool} {last fuel i j : Nat} (hij : i ≤ j)
    (hj : j < spdkMaxFileCnt) (hused : ∀ k, i ≤ k → k < j → used k = true)
    (hfree : used j = false) (hlast : ∀ k, i ≤ k → k ≤ j → k ≠ last) (hfuel : j - i < fuel) :
    fdScan used last fuel i = some (some j) := by
  induction fuel generalizing i with
  | zero => omega
  | succ fuel ih =>
      have hne : i ≠ spdkMaxFileCnt := by omega
      have hsmall : i + 1 < 2 ^ 32 := by
        unfold spdkMaxFileCnt at hj
        omega
      simp only [fdScan, if_neg (hlast i (Nat.le_refl _) hij), if_neg hne]
      rcases Nat.eq_or_lt_of_le hij with rfl | hlt
      · rw [hfree]
        rfl
      · rw [hused i (Nat.le_refl _) hlt, if_pos rfl, ← Int.natCast_succ, u32_of_lt hsmall]
        exact ih hlt (fun k h => hused k (by omega)) (fun k h => hlast k (by omega)) (by omega)

/-- If all slots from `i` up are used, the scan goes round and looks at slot 0. -/
theorem fdScan_round {used : Nat → Bool} {last i : Nat} (fuel : Nat) (hi : i ≤ spdkMaxFileCnt)
    (hused : ∀ k, i ≤ k → k < spdkMaxFileCnt → used k = true) (hlast : last < i) :
    fdScan used last (spdkMaxFileCnt - i + (fuel + 1)) i =
      if used 0 then fdScan used last fuel 1 else some (some 0) := by
  generalize hd : spdkMaxFileCnt - i = d
  induction d generalizing i with
  | zero =>
      have hi' : i = spdkMaxFileCnt := by omega
      rw [Nat.zero_add]
      simp only [fdScan, if_neg (Nat.ne_of_gt hlast), if_pos hi']
      rfl
  | succ d ih =>
      have hne : i ≠ spdkMaxFileCnt := by omega
      have hsmall : i + 1 < 2 ^ 32 := by
        unfold spdkMaxFileCnt at hi
        omega
      rw [Nat.succ_add]
      simp only [fdScan, if_neg (Nat.ne_of_gt hlast), if_neg hne]
      rw [hused i (Nat.le_refl _) (by omega), if_pos rfl, ← Int.natCast_succ, u32_of_lt hsmall]
      exact ih (by omega) (fun k h => hused k (by omega)) (by omega) (by omega)

namespace Fdtable

/-- `_file_count` is the number of used slots. -/
def Counted (t : Fdtable) : Prop := t.fileCount = (holders spdkMaxFileCnt t.used true).card

theorem Counted.zero : Fdtable.zero.Counted := by
  simp [Counted, holders, Fdtable.zero]

/-- A slot the scan gets to is free: either two slots are free, or the one free slot is not
the one just before where the scan begins. -/
def HasSlot (t : Fdtable) : Prop :=
  t.fileCount < spdkMaxFileCnt - 1 ∨
    t.fileCount = spdkMaxFileCnt - 1 ∧ t.used (spdkMaxFileCnt - 2) = true

/-- So some slot other than that one is free. -/
theorem HasSlot.exists_free {t : Fdtable} (h : t.HasSlot) (hc : t.Counted) :
    t.fileCount < spdkMaxFileCnt ∧
      ∃ j < spdkMaxFileCnt, t.used j = false ∧ j + 1 ≠ t.fileCount := by
  have hmax : spdkMaxFileCnt = 256 := rfl
  rcases h with hlt | ⟨heq, hu⟩
  · refine ⟨by omega, ?_⟩
    by_contra hno
    have hall : ∀ i < spdkMaxFileCnt, i ≠ t.fileCount - 1 → t.used i = true := by
      intro i hi hne
      by_contra hf
      exact hno ⟨i, hi, by simpa using hf, by omega⟩
    have := le_card_holders hall
    rw [Counted] at hc
    omega
  · refine ⟨by omega, ?_⟩
    by_contra hno
    have hall : ∀ i < spdkMaxFileCnt, t.used i = true := by
      intro i hi
      by_contra hf
      refine hno ⟨i, hi, by simpa using hf, ?_⟩
      rintro hi'
      have : i = spdkMaxFileCnt - 2 := by omega
      subst this
      exact hf hu
    have := card_holders_of_forall hall
    rw [Counted] at hc
    omega

/-- The least free slot from `i` up. -/
theorem exists_least_free {used : Nat → Bool} {i n : Nat}
    (h : ∃ j, i ≤ j ∧ j < n ∧ used j = false) :
    ∃ j, i ≤ j ∧ j < n ∧ used j = false ∧ ∀ k, i ≤ k → k < j → used k = true := by
  classical
  obtain ⟨h1, h2, h3⟩ := Nat.find_spec h
  refine ⟨Nat.find h, h1, h2, h3, ?_⟩
  intro k hik hkj
  by_contra hk
  exact Nat.find_min h hkj ⟨hik, by omega, by simpa using hk⟩

/-- Some slot is free that the scan gets to: one other than that just before where it begins, or
slot 0, where it begins again. -/
def Offers (t : Fdtable) : Prop :=
  t.fileCount < spdkMaxFileCnt ∧
    ∃ j < spdkMaxFileCnt, t.used j = false ∧ (j + 1 = t.fileCount → j = 0)

theorem HasSlot.offers {t : Fdtable} (h : t.HasSlot) (hc : t.Counted) : t.Offers := by
  obtain ⟨hlt, j, hj, hfree, hne⟩ := h.exists_free hc
  exact ⟨hlt, j, hj, hfree, fun heq => absurd heq hne⟩

/-- A slot is found if there is one to be found. -/
theorem Offers.getFd {t : Fdtable} (h : t.Offers) :
    ∃ t' fd, getFdFromTable t = some (t', fd) ∧ fd ≠ -1 := by
  obtain ⟨hlt, j, hj, hfree, hne⟩ := h
  have hmax : spdkMaxFileCnt = 256 := rfl
  obtain ⟨i, hi⟩ : ∃ i, fdScan t.used (u32 (t.fileCount - 1)) fdScanFuel t.fileCount =
      some (some i) := by
    by_cases hup : ∃ j, t.fileCount ≤ j ∧ j < spdkMaxFileCnt ∧ t.used j = false
    · obtain ⟨i, h1, h2, h3, h4⟩ := exists_least_free hup
      refine ⟨i, fdScan_up h1 h2 h4 h3 ?_ ?_⟩
      · intro k hk1 hk2
        unfold u32
        omega
      · show i - t.fileCount < 2 * spdkMaxFileCnt
        omega
    · -- all slots from the count up are used, and the scan goes on below it
      have hcount : 0 < t.fileCount := by
        rcases Nat.eq_zero_or_pos t.fileCount with h0 | h0
        · exact absurd ⟨j, by omega, hj, hfree⟩ hup
        · exact h0
      have hlast : u32 ((t.fileCount : Int) - 1) = t.fileCount - 1 := by
        unfold u32
        omega
      have hused : ∀ k, t.fileCount ≤ k → k < spdkMaxFileCnt → t.used k = true := by
        intro k h1 h2
        by_contra hk
        exact hup ⟨k, h1, h2, by simpa using hk⟩
      have hround := fdScan_round (spdkMaxFileCnt + t.fileCount - 1) (Nat.le_of_lt hlt) hused
        (show t.fileCount - 1 < t.fileCount by omega)
      rw [hlast, show fdScanFuel = spdkMaxFileCnt - t.fileCount +
        (spdkMaxFileCnt + t.fileCount - 1 + 1) by unfold fdScanFuel; omega, hround]
      cases h0 : t.used 0 with
      | false => exact ⟨0, rfl⟩
      | true =>
          have hj0 : j ≠ 0 := by
            rintro rfl
            rw [h0] at hfree
            cases hfree
          have hjlt : j + 1 < t.fileCount := by
            have hle : j < t.fileCount := by
              by_contra hge
              exact hup ⟨j, by omega, hj, hfree⟩
            exact Nat.lt_of_le_of_ne hle fun heq => hj0 (hne heq)
          obtain ⟨i, h1, h2, h3, h4⟩ :=
            exists_least_free ⟨j, Nat.one_le_iff_ne_zero.mpr hj0, Nat.lt_succ_self j, hfree⟩
          rw [if_pos rfl]
          exact ⟨i, fdScan_up h1 (by omega) h4 h3 (fun k _ _ => by omega) (by omega)⟩
  refine ⟨_, i, by rw [getFdFromTable, if_neg (by omega), hi]; rfl, by omega⟩

theorem HasSlot.getFd {t : Fdtable} (h : t.HasSlot) (hc : t.Counted) :
    ∃ t' fd, getFdFromTable t = some (t', fd) ∧ fd ≠ -1 := (h.offers hc).getFd

/-- The slot just before where the scan begins is returned only if that is slot 0. -/
theorem fdScan_ne_last {used : Nat → Bool} {last fuel i j : Nat} (hlast : last ≠ 0)
    (h : fdScan used last fuel i = some (some j)) : j ≠ last := by
  induction fuel generalizing i with
  | zero => cases h
  | succ fuel ih =>
      simp only [fdScan] at h
      split at h
      · cases h
      · next hi =>
          generalize hk : (if i = spdkMaxFileCnt then 0 else i) = k at h
          split at h
          · exact ih h
          · cases h
            rw [← hk]
            split
            · exact hlast.symm
            · exact hi

/-- And only then. -/
theorem Offers.of_getFd {t t' : Fdtable} {fd : Int} (h : getFdFromTable t = some (t', fd))
    (hne : fd ≠ -1) : t.Offers := by
  have hmax : spdkMaxFileCnt = 256 := rfl
  rcases getFdFromTable_cases h with ⟨hneg, -⟩ | ⟨i, rfl, hi, hfree, hlt, -⟩
  · exact absurd hneg hne
  · refine ⟨hlt, i, hi, hfree, fun heq => ?_⟩
    by_contra hi0
    unfold getFdFromTable at h
    rw [if_neg (by omega)] at h
    obtain ⟨r, hr, hret⟩ := Option.map_eq_some_iff.mp h
    have hlast : u32 ((t.fileCount : Int) - 1) = i := by
      unfold u32
      omega
    rw [hlast] at hr
    cases r with
    | none => cases hret
    | some k =>
        have hk := fdScan_ne_last hi0 hr
        simp only [Prod.mk.injEq] at hret
        omega

theorem HasSlot.of_getFd {t t' : Fdtable} {fd : Int} (hc : t.Counted)
    (h : getFdFromTable t = some (t', fd)) (hne : fd ≠ -1) : t.HasSlot := by
  have hmax : spdkMaxFileCnt = 256 := rfl
  obtain ⟨hlt, i, hi, hfree, hlast⟩ := Offers.of_getFd h hne
  rcases Nat.lt_or_ge t.fileCount (spdkMaxFileCnt - 1) with hless | hge
  · exact Or.inl hless
  · have heq : t.fileCount = spdkMaxFileCnt - 1 := by omega
    refine Or.inr ⟨heq, ?_⟩
    by_contra hused
    have htwo := card_holders_add_two_le (m := t.used) (y := true) hi
      (show spdkMaxFileCnt - 2 < spdkMaxFileCnt by omega) (by omega) (by simp [hfree])
      (by simpa using hused)
    rw [Counted] at hc
    omega

/-! ## The scan ends -/

/-- Going up from `i`, the scan gets to its end test, or stops before. -/
theorem fdScan_below {used : Nat → Bool} {last fuel i : Nat} (hi : i ≤ last)
    (hlast : last < spdkMaxFileCnt) (hfuel : last - i < fuel) :
    (fdScan used last fuel i).isSome := by
  induction fuel generalizing i with
  | zero => omega
  | succ fuel ih =>
      have hmax : spdkMaxFileCnt = 256 := rfl
      simp only [fdScan]
      split
      · rfl
      · next hne =>
          rw [if_neg (show i ≠ spdkMaxFileCnt by omega)]
          split
          · rw [← Int.natCast_succ, u32_of_lt (by omega)]
            exact ih (by omega) (by omega)
          · rfl

/-- With every slot used it ends only at its test, which it does not get to if that is before
slot 1. -/
theorem fdScan_stuck {used : Nat → Bool} {last fuel i : Nat}
    (hused : ∀ k < spdkMaxFileCnt, used k = true)
    (hlast : ∀ k, 0 < k → k ≤ spdkMaxFileCnt → k ≠ last) (hi : i ≤ spdkMaxFileCnt)
    (hne : i ≠ last) : fdScan used last fuel i = none := by
  have hmax : spdkMaxFileCnt = 256 := rfl
  induction fuel generalizing i with
  | zero => rfl
  | succ fuel ih =>
      simp only [fdScan, if_neg hne]
      generalize hk : (if i = spdkMaxFileCnt then 0 else i) = k
      have hlt : k < spdkMaxFileCnt := by
        rw [← hk]
        split
        · decide
        · omega
      rw [hused k hlt, if_pos rfl, ← Int.natCast_succ, u32_of_lt (by omega)]
      exact ih (by omega) (hlast (k + 1) (Nat.succ_pos k) (by omega))

/-- So the scan ends where it has a slot to find, and where its end test is at slot 1 or
above. -/
theorem getFd_isSome_iff {t : Fdtable} :
    (getFdFromTable t).isSome = true ↔ t.Offers ∨ 2 ≤ t.fileCount := by
  have hmax : spdkMaxFileCnt = 256 := rfl
  by_cases hoff : t.Offers
  · obtain ⟨t', fd, h, -⟩ := hoff.getFd
    rw [h]
    exact iff_of_true rfl (Or.inl hoff)
  unfold getFdFromTable
  split
  · exact iff_of_true rfl (Or.inr (by omega))
  · next hcount =>
      rw [Option.isSome_map, or_iff_right hoff]
      -- no slot is free but, at most, the one the end test is at
      have hused : ∀ j < spdkMaxFileCnt, (j + 1 = t.fileCount → j = 0) → t.used j = true := by
        intro j hj hlast
        by_contra hfree
        exact hoff ⟨by omega, j, hj, by simpa using hfree, hlast⟩
      constructor
      · intro hsome
        by_contra hlt
        rw [fdScan_stuck (fun k hk => hused k hk (by omega)) ?_ (by omega) ?_] at hsome
        · cases hsome
        · intro k hk hk'
          unfold u32
          omega
        · unfold u32
          omega
      · intro hge
        have hlast : u32 ((t.fileCount : Int) - 1) = t.fileCount - 1 := by
          unfold u32
          omega
        have hround := fdScan_round (spdkMaxFileCnt + t.fileCount - 1)
          (show t.fileCount ≤ spdkMaxFileCnt by omega)
          (fun k hk hk' => hused k hk' (by omega)) (show t.fileCount - 1 < t.fileCount by omega)
        rw [hlast, show fdScanFuel = spdkMaxFileCnt - t.fileCount +
          (spdkMaxFileCnt + t.fileCount - 1 + 1) by unfold fdScanFuel; omega, hround,
          hused 0 (by omega) (fun _ => rfl), if_pos rfl]
        exact fdScan_below (by omega) (by omega) (by omega)

/-- Where the count is right, the scan ends. -/
theorem Counted.getFd_isSome {t : Fdtable} (hc : t.Counted) : (getFdFromTable t).isSome := by
  have hmax : spdkMaxFileCnt = 256 := rfl
  rw [getFd_isSome_iff]
  by_contra hno
  obtain ⟨hoff, hlt⟩ := not_or.mp hno
  refine hoff (HasSlot.offers (Or.inl ?_) hc)
  omega

/-! ## Keeping count -/

theorem Counted.getFd {t t' : Fdtable} {fd : Int} (hc : t.Counted)
    (h : getFdFromTable t = some (t', fd)) : t'.Counted := by
  rcases getFdFromTable_cases h with ⟨-, rfl⟩ | ⟨i, -, hi, hfree, -, rfl⟩
  · exact hc
  · exact (congrArg (· + 1) hc).trans (card_holders_gain hi (by simp [hfree])).symm

theorem Counted.returnFd {t : Fdtable} {fd : Nat} (hc : t.Counted) (hfd : fd < spdkMaxFileCnt)
    (hused : t.used fd = true) : (returnFdToTable fd t).Counted := by
  have hcard := card_holders_lose hfd hused Bool.false_ne_true
  have hle := card_holders_le spdkMaxFileCnt t.used true
  have hmax : spdkMaxFileCnt = 256 := rfl
  rw [Counted] at hc
  show u32 ((t.fileCount : Int) - 1) = _
  unfold u32
  have hused' : (returnFdToTable fd t).used = Function.update t.used fd false := rfl
  rw [hused']
  omega

/-- Giving back a slot that is free already spoils the count. -/
theorem Counted.returnFd_free {t : Fdtable} {fd : Nat} (hc : t.Counted)
    (hfree : t.used fd = false) :
    ¬ (returnFdToTable fd t).Counted := by
  have hle := card_holders_le spdkMaxFileCnt t.used true
  have hmax : spdkMaxFileCnt = 256 := rfl
  have hsame : (returnFdToTable fd t).used = t.used :=
    (congrArg (Function.update t.used fd) hfree.symm).trans (Function.update_eq_self ..)
  intro h
  rw [Counted] at hc
  rw [Counted, hsame, ← hc] at h
  change u32 ((t.fileCount : Int) - 1) = t.fileCount at h
  unfold u32 at h
  omega

end Fdtable

end BlobTopFs
