import BlobTopFs.Lib.Run

/-!
# Simulation

Two systems that take the same inputs. A relation between their states is a simulation if from
related states either both have no next state or the next states are related again. Then the two
have the same runs. `L` is what the inputs may be assumed to respect.
-/

namespace BlobTopFs.Run

variable {σ τ ι : Type*}

/-- Both systems come back or neither does, and the states stay related. -/
def Simulates (step : σ → ι → Option σ) (step' : τ → ι → Option τ) (R : σ → τ → Prop)
    (L : σ → ι → Prop) : Prop :=
  ∀ s t i, R s t → L s i → Option.Rel R (step s i) (step' t i)

variable {step : σ → ι → Option σ} {step' : τ → ι → Option τ} {R : σ → τ → Prop}
  {L : σ → ι → Prop} {s s' : σ} {t t' : τ} {i : ι} {is : List ι}

namespace Simulates

/-! ## One step -/

theorem forward (h : Simulates step step' R L) (hR : R s t) (hL : L s i)
    (hs : step s i = some s') : ∃ t', step' t i = some t' ∧ R s' t' := by
  have hrel := h s t i hR hL
  rw [hs] at hrel
  generalize step' t i = o at hrel
  cases hrel with
  | some hR' => exact ⟨_, rfl, hR'⟩

/-! ## Runs -/

theorem exec (h : Simulates step step' R L) (hR : R s t) (hL : EachStep step L s is) :
    Option.Rel R (exec step s is) (Run.exec step' t is) := by
  induction is generalizing s t with
  | nil => exact .some hR
  | cons i is ih =>
      rw [exec_cons, exec_cons]
      have hrel := h s t i hR hL.1
      generalize hs : step s i = o, step' t i = o' at hrel
      cases hrel with
      | none => exact .none
      | some hR' => exact ih hR' (hL.2 _ hs)

end Simulates

/-! ## Leaving out inputs -/

/-- Where the inputs that are not `own` keep the relation without a step of the other system, a
run comes out as the run of that system on its own inputs does. -/
theorem exec_filter {own : ι → Bool}
    (hown : ∀ s t i, R s t → L s i → own i = true → Option.Rel R (step s i) (step' t i))
    (hother : ∀ s t i s', R s t → L s i → own i = false → step s i = some s' → R s' t)
    (hR : R s t) (hL : EachStep step L s is) (h : Run.exec step s is = some s') :
    ∃ t', Run.exec step' t (is.filter own) = some t' ∧ R s' t' := by
  induction is generalizing s t with
  | nil =>
      cases h
      exact ⟨t, rfl, hR⟩
  | cons i is ih =>
      obtain ⟨u, hu, hus⟩ := exec_cons_eq_some.mp h
      by_cases hi : own i = true
      · have hrel := hown s t i hR hL.1 hi
        rw [hu] at hrel
        generalize ht : step' t i = o at hrel
        cases hrel with
        | some hR' =>
            obtain ⟨t', ht', hR''⟩ := ih hR' (hL.2 u hu) hus
            rw [List.filter_cons_of_pos hi]
            exact ⟨t', exec_cons_eq_some.mpr ⟨_, ht, ht'⟩, hR''⟩
      · rw [List.filter_cons_of_neg hi]
        exact ih (hother s t i u hR hL.1 (by simpa using hi) hu) (hL.2 u hu) hus

/-! ## Inputs that stand for several -/

variable {κ : Type*} {step₂ : τ → κ → Option τ} {L₂ : τ → κ → Prop}

/-- The inputs of the other system that a run comes to, `tr` saying for each input which. -/
def expand (step : σ → ι → Option σ) (tr : σ → ι → List κ) : σ → List ι → List κ
  | _, [] => []
  | s, i :: is => tr s i ++ match step s i with
      | none => []
      | some t => expand step tr t is

/-- Where each input is as good as some run of the other system, so is a run. -/
theorem exec_expand {tr : σ → ι → List κ}
    (hsim : ∀ s t i s', R s t → L s i → step s i = some s' →
      ∃ t', Run.exec step₂ t (tr s i) = some t' ∧ EachStep step₂ L₂ t (tr s i) ∧ R s' t')
    (hR : R s t) (hL : EachStep step L s is) (h : Run.exec step s is = some s') :
    ∃ t', Run.exec step₂ t (expand step tr s is) = some t' ∧
      EachStep step₂ L₂ t (expand step tr s is) ∧ R s' t' := by
  induction is generalizing s t with
  | nil =>
      cases h
      exact ⟨t, rfl, trivial, hR⟩
  | cons i is ih =>
      obtain ⟨u, hu, hus⟩ := exec_cons_eq_some.mp h
      obtain ⟨t₁, ht₁, heach, hR₁⟩ := hsim s t i u hR hL.1 hu
      obtain ⟨t', ht', heach', hR'⟩ := ih hR₁ (hL.2 u hu) hus
      rw [expand, hu, exec_append, ht₁]
      exact ⟨t', ht', heach.append ht₁ heach', hR'⟩

end BlobTopFs.Run
