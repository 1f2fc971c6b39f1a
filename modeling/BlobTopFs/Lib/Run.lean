import Mathlib.Logic.Basic
import Mathlib.Order.Basic
import Mathlib.Data.Option.Basic

/-!
# Runs of a partial step function

A system is a step function `step : σ → ι → Option σ`: given a state and an input it
yields the next state, or `none` when the step has no result. A run is a list of
inputs. Three predicates follow a run from its first state:

* `Always step P s is` — `P` holds in every state the run visits;
* `EachStep step C s is` — `C` holds of every state and input the run steps through;
* `SomeStep step C s is` — `C` holds of one of them.

Every safety theorem is then two small goals about one step (`always_of_step`), and a
theorem that says exactly which runs are safe is three (`always_iff_eachStep`), or four if it
is about the steps as well (`always_and_eachStep_iff`).
-/

namespace BlobTopFs.Run

variable {σ ι : Type*} (step : σ → ι → Option σ)

/-- The state after a list of inputs, if every step has a result. -/
def exec : σ → List ι → Option σ
  | s, [] => some s
  | s, i :: is => (step s i).bind fun t => exec t is

/-- `P` holds in every state the run visits, the first one included. -/
def Always (P : σ → Prop) : σ → List ι → Prop
  | s, [] => P s
  | s, i :: is => P s ∧ ∀ t, step s i = some t → Always P t is

/-- `C` holds of every step the run takes. -/
def EachStep (C : σ → ι → Prop) : σ → List ι → Prop
  | _, [] => True
  | s, i :: is => C s i ∧ ∀ t, step s i = some t → EachStep C t is

/-- `C` holds of some step the run takes. -/
def SomeStep (C : σ → ι → Prop) : σ → List ι → Prop
  | _, [] => False
  | s, i :: is => C s i ∨ ∃ t, step s i = some t ∧ SomeStep C t is

variable {step}

/-! ## Unfolding -/

@[simp] theorem exec_cons (s : σ) (i : ι) (is : List ι) :
    exec step s (i :: is) = (step s i).bind fun t => exec step t is := rfl

theorem exec_cons_eq_some {s u : σ} {i : ι} {is : List ι} :
    exec step s (i :: is) = some u ↔ ∃ t, step s i = some t ∧ exec step t is = some u := by
  rw [exec_cons, Option.bind_eq_some_iff]

theorem exec_append (s : σ) (is js : List ι) :
    exec step s (is ++ js) = (exec step s is).bind fun t => exec step t js := by
  induction is generalizing s with
  | nil => rfl
  | cons i is ih =>
      rw [List.cons_append, exec_cons, exec_cons, Option.bind_assoc]
      exact congrArg _ (funext ih)

theorem Always.head {P : σ → Prop} {s : σ} {is : List ι} (h : Always step P s is) : P s := by
  cases is with
  | nil => exact h
  | cons i is => exact h.1

/-- What holds in every state visited holds in the last one. -/
theorem Always.last {P : σ → Prop} {s t : σ} {is : List ι} (h : Always step P s is)
    (hrun : exec step s is = some t) : P t := by
  induction is generalizing s with
  | nil =>
      cases hrun
      exact h
  | cons i is ih =>
      obtain ⟨u, hu, hut⟩ := exec_cons_eq_some.mp hrun
      exact ih (h.2 u hu) hut

theorem Always.mono {P Q : σ → Prop} (hPQ : ∀ s, P s → Q s) {s : σ} {is : List ι}
    (h : Always step P s is) : Always step Q s is := by
  induction is generalizing s with
  | nil => exact hPQ s h
  | cons i is ih => exact ⟨hPQ s h.1, fun t ht => ih (h.2 t ht)⟩

/-- One step in front of a run. -/
theorem EachStep.cons {C : σ → ι → Prop} {s t : σ} {i : ι} {is : List ι}
    (hst : step s i = some t) (hC : C s i) (h : EachStep step C t is) :
    EachStep step C s (i :: is) := by
  refine ⟨hC, fun u hu => ?_⟩
  cases hst.symm.trans hu
  exact h

/-- What holds of each step of a run holds of those behind one of its states. -/
theorem EachStep.drop {C : σ → ι → Prop} {s t : σ} {is js : List ι}
    (h : EachStep step C s (is ++ js)) (hrun : exec step s is = some t) : EachStep step C t js := by
  induction is generalizing s with
  | nil =>
      cases hrun
      exact h
  | cons i is ih =>
      obtain ⟨u, hu, hut⟩ := exec_cons_eq_some.mp hrun
      exact ih (h.2 u hu) hut

/-- One run behind another. -/
theorem EachStep.append {C : σ → ι → Prop} {s t : σ} {is js : List ι} (h : EachStep step C s is)
    (hrun : exec step s is = some t) (hjs : EachStep step C t js) :
    EachStep step C s (is ++ js) := by
  induction is generalizing s with
  | nil =>
      cases hrun
      exact hjs
  | cons i is ih =>
      obtain ⟨u, hu, hut⟩ := exec_cons_eq_some.mp hrun
      exact EachStep.cons hu h.1 (ih (h.2 u hu) hut)

theorem EachStep.mono {C D : σ → ι → Prop} (hCD : ∀ s i, C s i → D s i) {s : σ}
    {is : List ι} (h : EachStep step C s is) : EachStep step D s is := by
  induction is generalizing s with
  | nil => trivial
  | cons i is ih => exact ⟨hCD s i h.1, fun t ht => ih (h.2 t ht)⟩

/-- A condition on the inputs alone. -/
theorem eachStep_of_forall {C : ι → Prop} {s : σ} {is : List ι} (h : ∀ i ∈ is, C i) :
    EachStep step (fun _ i => C i) s is := by
  induction is generalizing s with
  | nil => trivial
  | cons i is ih =>
      exact ⟨h i List.mem_cons_self, fun _ _ => ih fun j hj => h j (List.mem_cons_of_mem _ hj)⟩

theorem EachStep.and {C D : σ → ι → Prop} {s : σ} {is : List ι}
    (hC : EachStep step C s is) (hD : EachStep step D s is) :
    EachStep step (fun s i => C s i ∧ D s i) s is := by
  induction is generalizing s with
  | nil => trivial
  | cons i is ih => exact ⟨⟨hC.1, hD.1⟩, fun t ht => ih (hC.2 t ht) (hD.2 t ht)⟩

theorem not_someStep {C : σ → ι → Prop} {s : σ} {is : List ι} :
    ¬ SomeStep step C s is ↔ EachStep step (fun s i => ¬ C s i) s is := by
  induction is generalizing s with
  | nil => exact iff_of_true id trivial
  | cons i is ih =>
      rw [SomeStep, not_or, EachStep]
      refine and_congr_right fun _ => ?_
      constructor
      · intro h t ht
        exact ih.mp fun hsome => h ⟨t, ht, hsome⟩
      · rintro h ⟨t, ht, hsome⟩
        exact ih.mpr (h t ht) hsome

/-! ## The invariant rules -/

/-- The invariant rule: what one step keeps, a run keeps. -/
theorem always_of_step {I : σ → Prop} {C : σ → ι → Prop}
    (keep : ∀ s i t, I s → C s i → step s i = some t → I t)
    {s : σ} {is : List ι} (hI : I s) (hC : EachStep step C s is) : Always step I s is := by
  induction is generalizing s with
  | nil => exact hI
  | cons i is ih =>
      exact ⟨hI, fun t ht => ih (keep s i t hI hC.1 ht) (hC.2 t ht)⟩

/-- The invariant rule for properties of the steps themselves. -/
theorem eachStep_of_step {I : σ → Prop} {C D : σ → ι → Prop}
    (keep : ∀ s i t, I s → C s i → step s i = some t → I t)
    (good : ∀ s i, I s → C s i → D s i)
    {s : σ} {is : List ι} (hI : I s) (hC : EachStep step C s is) : EachStep step D s is := by
  induction is generalizing s with
  | nil => trivial
  | cons i is ih =>
      exact ⟨good s i hI hC.1, fun t ht => ih (keep s i t hI hC.1 ht) (hC.2 t ht)⟩

/-- The invariant rule, read off at the end of the run. -/
theorem exec_inv {I : σ → Prop} {C : σ → ι → Prop}
    (keep : ∀ s i t, I s → C s i → step s i = some t → I t)
    {s t : σ} {is : List ι} (hI : I s) (hC : EachStep step C s is)
    (hrun : exec step s is = some t) : I t :=
  (always_of_step keep hI hC).last hrun

/-- What one step of a kind brings about, and all others keep, holds at the end of a run with
such a step. -/
theorem SomeStep.last {I Q : σ → Prop} {L C : σ → ι → Prop}
    (hold : ∀ s i t, I s → L s i → step s i = some t → I t)
    (make : ∀ s i t, I s → L s i → C s i → step s i = some t → Q t)
    (keep : ∀ s i t, Q s → L s i → step s i = some t → Q t)
    {s t : σ} {is : List ι} (hI : I s) (hL : EachStep step L s is) (h : SomeStep step C s is)
    (hrun : exec step s is = some t) : Q t := by
  induction is generalizing s with
  | nil => exact h.elim
  | cons i is ih =>
      obtain ⟨u, hu, hut⟩ := exec_cons_eq_some.mp hrun
      rcases h with hC | ⟨u', hu', hsome⟩
      · exact exec_inv keep (make s i u hI hL.1 hC hu) (hL.2 u hu) hut
      · cases hu.symm.trans hu'
        exact ih (hold s i u hI hL.1 hu) (hL.2 u hu) hsome hut

/-- A measure that no step of a run lowers is not lowered by the run. -/
theorem exec_le {α : Type*} [Preorder α] {f : σ → α} {C : σ → ι → Prop}
    (hle : ∀ s i t, C s i → step s i = some t → f s ≤ f t)
    {s t : σ} {is : List ι} (hC : EachStep step C s is) (hrun : exec step s is = some t) :
    f s ≤ f t :=
  exec_inv (I := fun u => f s ≤ f u) (fun u i v hu hi huv => hu.trans (hle u i v hi huv)) le_rfl
    hC hrun

/-- Two properties of steps that agree wherever an invariant holds, which either one keeps,
hold of the same runs. -/
theorem eachStep_congr {I : σ → Prop} {L C D : σ → ι → Prop}
    (keep : ∀ s i t, I s → L s i ∧ C s i → step s i = some t → I t)
    (agree : ∀ s i, I s → L s i → (C s i ↔ D s i))
    {s : σ} {is : List ι} (hI : I s) (hL : EachStep step L s is) :
    EachStep step C s is ↔ EachStep step D s is := by
  have keep' : ∀ s i t, I s → L s i ∧ D s i → step s i = some t → I t :=
    fun s i t hI h ht => keep s i t hI ⟨h.1, (agree s i hI h.1).mpr h.2⟩ ht
  constructor
  · intro hC
    exact eachStep_of_step keep (fun s i hI h => (agree s i hI h.1).mp h.2) hI (hL.and hC)
  · intro hD
    exact eachStep_of_step keep' (fun s i hI h => (agree s i hI h.1).mpr h.2) hI (hL.and hD)

/-- Exactly the runs whose steps all satisfy `C` are safe and take none but steps of the kind
`R`, when `C` keeps an invariant that implies `P`, allows only steps of that kind, and a step
outside `C` is of another kind or leads out of `P`. `L` is what all runs may be assumed to
respect. -/
theorem always_and_eachStep_iff {I P : σ → Prop} {L C R : σ → ι → Prop}
    (safe : ∀ s, I s → P s)
    (keep : ∀ s i t, I s → L s i → C s i → step s i = some t → I t)
    (good : ∀ s i, I s → L s i → C s i → R s i)
    (lose : ∀ s i, I s → L s i → (∀ t, step s i = some t → P t) → R s i → C s i)
    {s : σ} {is : List ι} (hI : I s) (hL : EachStep step L s is) :
    Always step P s is ∧ EachStep step R s is ↔ EachStep step C s is := by
  induction is generalizing s with
  | nil => exact iff_of_true ⟨safe s hI, trivial⟩ trivial
  | cons i is ih =>
      constructor
      · rintro ⟨hP, hR⟩
        have hC : C s i := lose s i hI hL.1 (fun t ht => (hP.2 t ht).head) hR.1
        exact ⟨hC, fun t ht =>
          (ih (keep s i t hI hL.1 hC ht) (hL.2 t ht)).mp ⟨hP.2 t ht, hR.2 t ht⟩⟩
      · intro h
        have hrest : ∀ t, step s i = some t → Always step P t is ∧ EachStep step R t is :=
          fun t ht => (ih (keep s i t hI hL.1 h.1 ht) (hL.2 t ht)).mpr (h.2 t ht)
        exact ⟨⟨safe s hI, fun t ht => (hrest t ht).1⟩,
          good s i hI hL.1 h.1, fun t ht => (hrest t ht).2⟩

/-- The same for safety alone. -/
theorem always_iff_eachStep {I P : σ → Prop} {L C : σ → ι → Prop}
    (safe : ∀ s, I s → P s)
    (keep : ∀ s i t, I s → L s i → C s i → step s i = some t → I t)
    (lose : ∀ s i, I s → L s i → (∀ t, step s i = some t → P t) → C s i)
    {s : σ} {is : List ι} (hI : I s) (hL : EachStep step L s is) :
    Always step P s is ↔ EachStep step C s is := by
  have hall : EachStep step (fun _ _ => True) s is := eachStep_of_forall fun _ _ => trivial
  rw [← always_and_eachStep_iff safe keep (fun _ _ _ _ _ => trivial)
    (fun s i hI hL hP _ => lose s i hI hL hP) hI hL]
  exact ⟨fun h => ⟨h, hall⟩, And.left⟩

end BlobTopFs.Run
