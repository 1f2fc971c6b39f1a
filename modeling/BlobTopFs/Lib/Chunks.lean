import Mathlib.Logic.Basic

/-!
# Loops that give up

A loop over the rounds `0, …, n - 1` of which each either takes the state one further, and the
next round follows, or ends the loop. `Chunked n move stop i s t j` says that, begun at round `i`
in state `s`, it leaves the state `t` and gets to round `j`: to `n`, or to the round that ended
it.

What such a loop does follows from what a round does, by one of two rules: `Chunked.rule` for
what a round keeps, and `exists_chunked` for the loop to end at all.
-/

namespace BlobTopFs

/-- The loop, begun at round `i`. -/
inductive Chunked {σ : Type*} (n : Nat) (move stop : Nat → σ → σ → Prop) :
    Nat → σ → σ → Nat → Prop where
  | done (s : σ) : Chunked n move stop n s s n
  | stop {i : Nat} {s t : σ} : i < n → stop i s t → Chunked n move stop i s t i
  | move {i j : Nat} {s u t : σ} :
      i < n → move i s u → Chunked n move stop (i + 1) u t j → Chunked n move stop i s t j

variable {σ : Type*} {n : Nat} {move stop : Nat → σ → σ → Prop}

namespace Chunked

theorem le {i j : Nat} {s t : σ} (h : Chunked n move stop i s t j) : i ≤ j ∧ j ≤ n := by
  induction h with
  | done => exact ⟨Nat.le_refl _, Nat.le_refl _⟩
  | stop hi => exact ⟨Nat.le_refl _, Nat.le_of_lt hi⟩
  | move _ _ _ ih => exact ⟨Nat.le_of_succ_le ih.1, ih.2⟩

/-- The loop is over, is ended by its first round, or gets past it. -/
theorem first {i j : Nat} {s t : σ} (h : Chunked n move stop i s t j) :
    (i = n ∧ j = n ∧ t = s) ∨ (i < n ∧ j = i ∧ stop i s t) ∨
      (i < n ∧ ∃ u, move i s u ∧ Chunked n move stop (i + 1) u t j) := by
  cases h with
  | done => exact Or.inl ⟨rfl, rfl, rfl⟩
  | stop hi hs => exact Or.inr (Or.inl ⟨hi, rfl, hs⟩)
  | move hi hm hrest => exact Or.inr (Or.inr ⟨hi, _, hm, hrest⟩)

/-- What holds before the loop and is kept by every round that goes on holds at its end, or where
the round begins that ends it. -/
theorem rule {I : Nat → σ → Prop} (keep : ∀ i s u, i < n → I i s → move i s u → I (i + 1) u)
    {i j : Nat} {s t : σ} (h : Chunked n move stop i s t j) (hI : I i s) :
    (j = n ∧ I n t) ∨ (j < n ∧ ∃ u, I j u ∧ stop j u t) := by
  induction h with
  | done => exact Or.inl ⟨rfl, hI⟩
  | stop hi hs => exact Or.inr ⟨hi, _, hI, hs⟩
  | move hi hm _ ih => exact ih (keep _ _ _ hi hI hm)

/-- Where a round can go only one way, so can the loop. -/
theorem unique (hmove : ∀ i s u v, move i s u → move i s v → u = v)
    (hstop : ∀ i s u v, stop i s u → stop i s v → u = v)
    (hnot : ∀ i s u v, i < n → move i s u → ¬ stop i s v)
    {i j k : Nat} {s t u : σ} (h : Chunked n move stop i s t j)
    (h' : Chunked n move stop i s u k) : t = u ∧ j = k := by
  induction h generalizing u k with
  | done =>
      cases h' with
      | done => exact ⟨rfl, rfl⟩
      | stop hi => exact absurd hi (Nat.lt_irrefl _)
      | move hi => exact absurd hi (Nat.lt_irrefl _)
  | stop hi hs =>
      cases h' with
      | done => exact absurd hi (Nat.lt_irrefl _)
      | stop _ hs' => exact ⟨hstop _ _ _ _ hs hs', rfl⟩
      | move _ hm => exact absurd hs (hnot _ _ _ _ hi hm)
  | move hi hm _ ih =>
      cases h' with
      | done => exact absurd hi (Nat.lt_irrefl _)
      | stop _ hs => exact absurd hs (hnot _ _ _ _ hi hm)
      | move _ hm' hrest =>
          cases hmove _ _ _ _ hm hm'
          exact ih hrest

end Chunked

/-- Where every round can go on or stop, the loop ends. -/
theorem exists_chunked {I : Nat → σ → Prop}
    (keep : ∀ i s u, i < n → I i s → move i s u → I (i + 1) u)
    (round : ∀ i s, i < n → I i s → (∃ u, move i s u) ∨ ∃ t, stop i s t)
    {i : Nat} {s : σ} (hi : i ≤ n) (hI : I i s) : ∃ t j, Chunked n move stop i s t j := by
  -- by induction on the rounds to go
  obtain ⟨left, hleft⟩ := Nat.le.dest hi
  induction left generalizing i s with
  | zero =>
      cases hleft
      exact ⟨s, _, .done s⟩
  | succ left ih =>
      have hlt : i < n := by omega
      rcases round i s hlt hI with ⟨u, hm⟩ | ⟨t, hs⟩
      · obtain ⟨t, j, h⟩ := ih hlt (keep i s u hlt hI hm) (by omega)
        exact ⟨t, j, .move hlt hm h⟩
      · exact ⟨t, i, .stop hlt hs⟩

end BlobTopFs
