import Mathlib.Logic.Function.Basic

/-!
# Partial maps under update

What is known of `f j` when something is known of the map `f` with one entry set or removed:
`j` is that entry, or it is as before.
-/

namespace BlobTopFs.PartialMap

variable {α β : Type*} [DecidableEq α] {f : α → Option β} {i j : α} {x y : β}

theorem update_some_cases (h : Function.update f i (some x) j = some y) :
    (j = i ∧ y = x) ∨ (j ≠ i ∧ f j = some y) := by
  by_cases hj : j = i
  · subst hj
    rw [Function.update_self] at h
    exact Or.inl ⟨rfl, (Option.some.inj h).symm⟩
  · rw [Function.update_of_ne hj] at h
    exact Or.inr ⟨hj, h⟩

theorem update_some_eq_none (h : Function.update f i (some x) j = none) : j ≠ i ∧ f j = none := by
  by_cases hj : j = i
  · subst hj
    rw [Function.update_self] at h
    cases h
  · exact ⟨hj, by rwa [Function.update_of_ne hj] at h⟩

theorem update_none_eq_some (h : Function.update f i none j = some y) : j ≠ i ∧ f j = some y := by
  by_cases hj : j = i
  · subst hj
    rw [Function.update_self] at h
    cases h
  · exact ⟨hj, by rwa [Function.update_of_ne hj] at h⟩

/-- Setting an entry that is there changes no domain. -/
theorem isSome_update (h : (f i).isSome) :
    (Function.update f i (some x) j).isSome = (f j).isSome := by
  by_cases hj : j = i
  · subst hj
    rw [Function.update_self, h, Option.isSome_some]
  · rw [Function.update_of_ne hj]

/-- Setting one that is not there adds it. -/
theorem isSome_update_some_iff :
    (Function.update f i (some x) j).isSome = true ↔ j = i ∨ (f j).isSome = true := by
  by_cases hj : j = i
  · subst hj
    simp
  · simp [hj]

/-- Removing one takes it away. -/
theorem isSome_update_none_iff :
    (Function.update f i none j).isSome = true ↔ j ≠ i ∧ (f j).isSome = true := by
  by_cases hj : j = i
  · subst hj
    simp
  · simp [hj]

end BlobTopFs.PartialMap
