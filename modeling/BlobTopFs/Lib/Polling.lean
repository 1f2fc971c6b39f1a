import Mathlib.Algebra.BigOperators.Group.Finset.Basic
import Mathlib.Algebra.Order.BigOperators.Group.Finset
import Mathlib.Logic.Function.Iterate

/-!
# Polling

A system that goes on by events, one after the other, and a loop that lets some of them happen in
each of its rounds and looks at the system in between. A schedule says how many events there are
in which round.
-/

namespace BlobTopFs.Polling

variable {σ : Type*} (event : σ → σ) (done : σ → Bool) (sched : Nat → Nat)

/-- The loop, from round `count` on and with `left` rounds to go: it ends when `done` holds. -/
def pollUntil : (left count : Nat) → σ → σ
  | 0, _, s => s
  | left + 1, count, s =>
      let s := event^[sched count] s
      if done s then s else pollUntil left (count + 1) s

/-- What has happened when the loop ends: all events up to the first round behind which `done`
held, or those of all rounds. -/
theorem pollUntil_spec (left count : Nat) (s : σ) :
    ∃ k ≤ left, pollUntil event done sched left count s =
        event^[∑ i ∈ Finset.range k, sched (count + i)] s ∧
      (k = left ∨ done (pollUntil event done sched left count s) = true) := by
  induction left generalizing count s with
  | zero => exact ⟨0, Nat.le_refl _, rfl, Or.inl rfl⟩
  | succ left ih =>
      simp only [pollUntil]
      split
      · next hdone => exact ⟨1, by omega, by simp, Or.inr hdone⟩
      · obtain ⟨k, hk, hrun, hend⟩ := ih (count + 1) (event^[sched count] s)
        refine ⟨k + 1, Nat.succ_le_succ hk, ?_, hend.imp (congrArg Nat.succ) id⟩
        rw [hrun, Finset.sum_range_succ', ← Function.iterate_add_apply]
        simp only [Nat.add_zero, Nat.add_assoc, Nat.add_comm 1]

/-- There are no more than all of them. -/
theorem pollUntil_le (left : Nat) (s : σ) :
    ∃ n ≤ ∑ i ∈ Finset.range left, sched i,
      pollUntil event done sched left 0 s = event^[n] s ∧
        (n = ∑ i ∈ Finset.range left, sched i ∨
          done (pollUntil event done sched left 0 s) = true) := by
  obtain ⟨k, hk, hrun, hend⟩ := pollUntil_spec event done sched left 0 s
  simp only [Nat.zero_add] at hrun
  refine ⟨_, ?_, hrun, hend.imp (fun h => by rw [h]) id⟩
  exact Finset.sum_le_sum_of_subset (Finset.range_subset_range.mpr hk)

end BlobTopFs.Polling
