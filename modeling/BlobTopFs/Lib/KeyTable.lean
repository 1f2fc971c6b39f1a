import Mathlib.Logic.Function.Basic

/-!
# Tables of keyed entries

A finite map kept as an array: entry `i` of a table of `n` is spelled by the keys `k` with
`is k i` and holds the value `val i`. How an entry spells a key is left open, as it may take
reading memory. The map changes by an append, which adds a key, and by a removal, which
closes the gap it leaves: entry `j` of the new table is entry `skip idx j` of the old one.
-/

namespace BlobTopFs.KeyTable

/-! ## Closing a gap -/

/-- Where entry `j` was before entry `idx` was removed. -/
def skip (idx j : Nat) : Nat := if j < idx then j else j + 1

theorem skip_ne (idx j : Nat) : skip idx j ≠ idx := by
  unfold skip
  split <;> omega

theorem skip_lt {idx j n : Nat} (h : j < n) : skip idx j < n + 1 := by
  unfold skip
  split <;> omega

theorem skip_injective {idx i j : Nat} (h : skip idx i = skip idx j) : i = j := by
  unfold skip at h
  split at h <;> split at h <;> omega

/-- Every other entry is still there. -/
theorem exists_skip {idx i n : Nat} (hne : i ≠ idx) (hi : i < n + 1) (hidx : idx < n + 1) :
    ∃ j < n, skip idx j = i := by
  by_cases h : i < idx
  · exact ⟨i, by omega, if_pos h⟩
  · refine ⟨i - 1, by omega, ?_⟩
    unfold skip
    rw [if_neg (by omega)]
    omega

/-! ## Tables and maps -/

variable {K V : Type*}

/-- The table represents the map `m`: each entry is spelled by one key, which has its value,
and each key spells one entry. -/
structure Represents (n : Nat) (is : K → Nat → Prop) (val : Nat → V) (m : K → Option V) :
    Prop where
  sound : ∀ i < n, ∃ k, is k i ∧ m k = some (val i)
  complete : ∀ k v, m k = some v → ∃ i < n, is k i ∧ val i = v
  single : ∀ k l i, i < n → is k i → is l i → k = l
  unique : ∀ k i j, i < n → j < n → is k i → is k j → i = j

namespace Represents

variable {n : Nat} {is is' : K → Nat → Prop} {val val' : Nat → V} {m : K → Option V}

theorem empty (is : K → Nat → Prop) (val : Nat → V) : Represents 0 is val fun _ => none where
  sound := fun i hi => absurd hi (Nat.not_lt_zero i)
  complete := fun _ _ h => nomatch h
  single := fun _ _ i hi => absurd hi (Nat.not_lt_zero i)
  unique := fun _ i _ hi => absurd hi (Nat.not_lt_zero i)

/-- A key that spells no entry is not in the map, and conversely. -/
theorem eq_none_iff (h : Represents n is val m) {k : K} : m k = none ↔ ∀ i < n, ¬ is k i := by
  constructor
  · intro hk i hi his
    obtain ⟨l, hl, hml⟩ := h.sound i hi
    rw [h.single k l i hi his hl, hml] at hk
    cases hk
  · intro hno
    cases hk : m k with
    | none => rfl
    | some v =>
        obtain ⟨i, hi, his, -⟩ := h.complete k v hk
        exact absurd his (hno i hi)

variable [DecidableEq K]

/-- A new entry at the end, for a key that had none. -/
theorem append (h : Represents n is val m) {k : K} (hkeep : ∀ i < n, ∀ l, is' l i ↔ is l i)
    (hval : ∀ i < n, val' i = val i) (hnew : is' k n) (honly : ∀ l, is' l n → l = k)
    (habsent : ∀ i < n, ¬ is k i) :
    Represents (n + 1) is' val' (Function.update m k (some (val' n))) where
  sound := by
    intro i hi
    rcases Nat.lt_succ_iff_lt_or_eq.mp hi with hlt | rfl
    · obtain ⟨l, hl, hml⟩ := h.sound i hlt
      have hne : l ≠ k := by
        rintro rfl
        exact habsent i hlt hl
      refine ⟨l, (hkeep i hlt l).mpr hl, ?_⟩
      rw [Function.update_of_ne hne, hml, hval i hlt]
    · exact ⟨k, hnew, Function.update_self ..⟩
  complete := by
    intro l v hv
    by_cases hl : l = k
    · subst hl
      rw [Function.update_self] at hv
      exact ⟨n, Nat.lt_succ_self n, hnew, Option.some.inj hv⟩
    · rw [Function.update_of_ne hl] at hv
      obtain ⟨i, hi, his, hvi⟩ := h.complete l v hv
      exact ⟨i, Nat.lt_succ_of_lt hi, (hkeep i hi l).mpr his, (hval i hi).trans hvi⟩
  single := by
    intro a b i hi ha hb
    rcases Nat.lt_succ_iff_lt_or_eq.mp hi with hlt | rfl
    · exact h.single a b i hlt ((hkeep i hlt a).mp ha) ((hkeep i hlt b).mp hb)
    · rw [honly a ha, honly b hb]
  unique := by
    intro a i j hi hj hai haj
    rcases Nat.lt_succ_iff_lt_or_eq.mp hi with hi' | rfl <;>
      rcases Nat.lt_succ_iff_lt_or_eq.mp hj with hj' | rfl
    · exact h.unique a i j hi' hj' ((hkeep i hi' a).mp hai) ((hkeep j hj' a).mp haj)
    -- the new entry's key was at no other index
    · exact absurd (honly a haj ▸ (hkeep i hi' a).mp hai) (habsent i hi')
    · exact absurd (honly a hai ▸ (hkeep j hj' a).mp haj) (habsent j hj')
    · rfl

/-- The entry a key spells is removed. -/
theorem remove (h : Represents (n + 1) is val m) {k : K} {idx : Nat} (hidx : idx < n + 1)
    (hk : is k idx) (hkeep : ∀ j < n, ∀ l, is' l j ↔ is l (skip idx j))
    (hval : ∀ j < n, val' j = val (skip idx j)) :
    Represents n is' val' (Function.update m k none) where
  sound := by
    intro j hj
    obtain ⟨l, hl, hml⟩ := h.sound _ (@skip_lt idx j n hj)
    have hne : l ≠ k := by
      rintro rfl
      exact skip_ne idx j (h.unique l _ _ (skip_lt hj) hidx hl hk)
    refine ⟨l, (hkeep j hj l).mpr hl, ?_⟩
    rw [Function.update_of_ne hne, hml, hval j hj]
  complete := by
    intro l v hv
    have hne : l ≠ k := by
      rintro rfl
      rw [Function.update_self] at hv
      cases hv
    rw [Function.update_of_ne hne] at hv
    obtain ⟨i, hi, his, hvi⟩ := h.complete l v hv
    have hi' : i ≠ idx := by
      rintro rfl
      exact hne (h.single l k i hi his hk)
    -- every other entry has moved to one index
    obtain ⟨j, hj, rfl⟩ := exists_skip hi' hi hidx
    exact ⟨j, hj, (hkeep j hj l).mpr his, (hval j hj).trans hvi⟩
  single := by
    intro a b j hj ha hb
    exact h.single a b _ (skip_lt hj) ((hkeep j hj a).mp ha) ((hkeep j hj b).mp hb)
  unique := by
    intro a i j hi hj hai haj
    exact skip_injective (h.unique a _ _ (skip_lt hi) (skip_lt hj) ((hkeep i hi a).mp hai)
      ((hkeep j hj a).mp haj))

end Represents

end BlobTopFs.KeyTable
