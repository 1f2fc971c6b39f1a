import Mathlib.Data.Finset.Card
import Mathlib.Data.Finset.Range

/-!
# Holders of a value

A table of `n` slots is a function from indices to what the slots hold. How many slots hold a
given value changes by one when a slot gets it or gives it up, and not at all when a slot
changes between two other values.
-/

namespace BlobTopFs

variable {β : Type*} [DecidableEq β]

/-- The slots that hold `y`. -/
def holders (n : Nat) (m : Nat → β) (y : β) : Finset Nat :=
  (Finset.range n).filter fun i => m i = y

variable {n i : Nat} {m : Nat → β} {x y : β}

theorem mem_holders : i ∈ holders n m y ↔ i < n ∧ m i = y := by
  rw [holders, Finset.mem_filter, Finset.mem_range]

theorem card_holders_le (n : Nat) (m : Nat → β) (y : β) : (holders n m y).card ≤ n := by
  have h := Finset.card_filter_le (Finset.range n) fun i => m i = y
  rwa [Finset.card_range] at h

theorem holders_update_self (hi : i < n) :
    holders n (Function.update m i y) y = insert i (holders n m y) := by
  ext k
  rw [mem_holders, Finset.mem_insert, mem_holders]
  by_cases hk : k = i
  · subst hk
    simp [hi]
  · simp [hk]

theorem holders_update_of_ne (h : x ≠ y) :
    holders n (Function.update m i x) y = (holders n m y).erase i := by
  ext k
  rw [mem_holders, Finset.mem_erase, mem_holders]
  by_cases hk : k = i
  · subst hk
    simp [h]
  · simp [hk]

/-- A slot gets the value. -/
theorem card_holders_gain (hi : i < n) (h : m i ≠ y) :
    (holders n (Function.update m i y) y).card = (holders n m y).card + 1 := by
  rw [holders_update_self hi, Finset.card_insert_of_notMem]
  exact fun hmem => h (mem_holders.mp hmem).2

/-- A slot does not hold it. -/
theorem card_holders_lt (hi : i < n) (h : m i ≠ y) : (holders n m y).card < n := by
  have hgain := card_holders_gain hi h
  have hle := card_holders_le n (Function.update m i y) y
  omega

/-- A slot gives it up. -/
theorem card_holders_lose (hi : i < n) (h : m i = y) (hx : x ≠ y) :
    (holders n (Function.update m i x) y).card + 1 = (holders n m y).card := by
  rw [holders_update_of_ne hx]
  exact Finset.card_erase_add_one (mem_holders.mpr ⟨hi, h⟩)

/-- A slot changes between two others. -/
theorem card_holders_other (h : m i ≠ y) (hx : x ≠ y) :
    (holders n (Function.update m i x) y).card = (holders n m y).card := by
  rw [holders_update_of_ne hx, Finset.erase_eq_of_notMem]
  exact fun hmem => h (mem_holders.mp hmem).2

/-- All slots but perhaps one hold it. -/
theorem le_card_holders {j : Nat} (h : ∀ i < n, i ≠ j → m i = y) :
    n - 1 ≤ (holders n m y).card := by
  have hsub : (Finset.range n).erase j ⊆ holders n m y := by
    intro i hi
    obtain ⟨hne, hlt⟩ := Finset.mem_erase.mp hi
    exact mem_holders.mpr ⟨Finset.mem_range.mp hlt, h i (Finset.mem_range.mp hlt) hne⟩
  have hcard := Finset.card_le_card hsub
  have herase := Finset.pred_card_le_card_erase (s := Finset.range n) (a := j)
  rw [Finset.card_range] at herase
  exact Nat.le_trans herase hcard

theorem card_holders_of_forall (h : ∀ i < n, m i = y) : (holders n m y).card = n := by
  rw [holders, Finset.filter_true_of_mem, Finset.card_range]
  intro i hi
  exact h i (Finset.mem_range.mp hi)

/-- Two slots do not. -/
theorem card_holders_add_two_le {j : Nat} (hi : i < n) (hj : j < n) (hne : i ≠ j) (hmi : m i ≠ y)
    (hmj : m j ≠ y) : (holders n m y).card + 2 ≤ n := by
  have hsub : holders n m y ⊆ ((Finset.range n).erase i).erase j := by
    intro k hk
    obtain ⟨hlt, hy⟩ := mem_holders.mp hk
    refine Finset.mem_erase.mpr ⟨?_, Finset.mem_erase.mpr ⟨?_, Finset.mem_range.mpr hlt⟩⟩
    · rintro rfl
      exact hmj hy
    · rintro rfl
      exact hmi hy
  have hcard := Finset.card_le_card hsub
  have hi' : i ∈ Finset.range n := Finset.mem_range.mpr hi
  have hj' : j ∈ (Finset.range n).erase i :=
    Finset.mem_erase.mpr ⟨hne.symm, Finset.mem_range.mpr hj⟩
  have h1 := Finset.card_erase_add_one hi'
  have h2 := Finset.card_erase_add_one hj'
  rw [Finset.card_range] at h1
  omega

/-- For flags, the holders are the flags that are set. -/
theorem card_holders_true (n : Nat) (f : Nat → Bool) :
    (holders n f true).card = ((List.range n).filter f).length := by
  have hfilter : ((List.range n).filter f) = (List.range n).filter fun i => f i = true := by
    simp only [Bool.decide_eq_true]
  rw [hfilter]
  rfl

end BlobTopFs
