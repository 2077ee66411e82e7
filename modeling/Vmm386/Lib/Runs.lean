import Mathlib.Tactic.Basic

/-!
# Runs of a partial step function

A system is a partial function `step` from states and labels to states; a label carries
every choice the step leaves open. A run is a list of labels. Conditions on the steps of a
run, and properties of them, are both predicates on a state and the label taken in it.
-/

namespace Runs

variable {σ ℓ : Type*}

/-- The state a run ends in, if all its labels can be taken. -/
def run (step : σ → ℓ → Option σ) : σ → List ℓ → Option σ
  | s, [] => some s
  | s, l :: ls => (step s l).bind fun s' => run step s' ls

/-- Every step of the run satisfies `p`. -/
def Along (step : σ → ℓ → Option σ) (p : σ → ℓ → Prop) : σ → List ℓ → Prop
  | _, [] => True
  | s, l :: ls => p s l ∧ ∀ s', step s l = some s' → Along step p s' ls

/-- A step that satisfies `ok` keeps `I`. -/
def Preserves (step : σ → ℓ → Option σ) (ok : σ → ℓ → Prop) (I : σ → Prop) : Prop :=
  ∀ ⦃s l s'⦄, I s → ok s l → step s l = some s' → I s'

variable {step : σ → ℓ → Option σ} {ok p : σ → ℓ → Prop} {I : σ → Prop}

@[simp] theorem run_nil (s : σ) : run step s [] = some s := rfl

theorem run_cons_eq_some {s s'' : σ} {l : ℓ} {ls : List ℓ} :
    run step s (l :: ls) = some s'' ↔ ∃ s', step s l = some s' ∧ run step s' ls = some s'' :=
  Option.bind_eq_some_iff

theorem run_append {s : σ} {ls ls' : List ℓ} :
    run step s (ls ++ ls') = (run step s ls).bind fun s' => run step s' ls' := by
  induction ls generalizing s with
  | nil => rfl
  | cons l ls ih =>
    rw [List.cons_append, run, run, Option.bind_assoc]
    exact congrArg (Option.bind (step s l)) (funext fun s' => ih)

instance decidableAlong [∀ s l, Decidable (p s l)] :
    ∀ (s : σ) (ls : List ℓ), Decidable (Along step p s ls)
  | _, [] => isTrue trivial
  | s, l :: ls =>
    match h : step s l with
    | none => decidable_of_iff (p s l) (by simp [Along, h])
    | some s' =>
      let _ := decidableAlong s' ls
      decidable_of_iff (p s l ∧ Along step p s' ls) (by simp [Along, h])

/-- Every run is one whose steps satisfy nothing in particular. -/
theorem along_true (s : σ) (ls : List ℓ) : Along step (fun _ _ => True) s ls := by
  induction ls generalizing s with
  | nil => trivial
  | cons l ls ih => exact ⟨trivial, fun s' _ => ih s'⟩

theorem Along.append {s : σ} {ls ls' : List ℓ} (h : Along step p s ls)
    (h' : ∀ s', run step s ls = some s' → Along step p s' ls') : Along step p s (ls ++ ls') := by
  induction ls generalizing s with
  | nil => exact h' s rfl
  | cons l ls ih =>
    refine ⟨h.1, fun s₁ h₁ => ih (h.2 s₁ h₁) fun s' hs' => h' s' ?_⟩
    exact run_cons_eq_some.mpr ⟨s₁, h₁, hs'⟩

/-- **Invariants.** A run whose steps satisfy `ok` ends in `I` if it starts there. -/
theorem Preserves.run (h : Preserves step ok I) {ls : List ℓ} :
    ∀ {s s' : σ}, I s → Along step ok s ls → run step s ls = some s' → I s' := by
  induction ls with
  | nil => intro s s' hs _ hrun; cases hrun; exact hs
  | cons l ls ih =>
    intro s s'' hs hok hrun
    obtain ⟨s', hstep, hrest⟩ := run_cons_eq_some.mp hrun
    exact ih (h hs hok.1 hstep) (hok.2 s' hstep) hrest

/-- What `ok` steps satisfy in the states of an invariant, they satisfy along every run. -/
theorem Preserves.along (h : Preserves step ok I) (hp : ∀ ⦃s l⦄, I s → ok s l → p s l)
    {ls : List ℓ} : ∀ {s : σ}, I s → Along step ok s ls → Along step p s ls := by
  induction ls with
  | nil => intro s _ _; trivial
  | cons l ls ih =>
    intro s hs hok
    exact ⟨hp hs hok.1, fun s' hstep => ih (h hs hok.1 hstep) (hok.2 s' hstep)⟩

/-- Two conditions on steps that agree in the states of an invariant, which the second one
keeps, agree along every run. -/
theorem along_iff {q : σ → ℓ → Prop}
    (hiff : ∀ ⦃s l s'⦄, I s → step s l = some s' → (p s l ↔ q s l))
    (hkept : Preserves step q I) {ls : List ℓ} :
    ∀ {s s' : σ}, I s → run step s ls = some s' →
      (Along step p s ls ↔ Along step q s ls) := by
  induction ls with
  | nil => intro s s' _ _; exact Iff.rfl
  | cons l ls ih =>
    intro s s'' hs hrun
    obtain ⟨s', hstep, hrest⟩ := run_cons_eq_some.mp hrun
    rw [Along, Along, hiff hs hstep]
    refine and_congr_right fun hq => ?_
    constructor
    · intro h t ht
      cases hstep.symm.trans ht
      exact (ih (hkept hs hq hstep) hrest).mp (h s' hstep)
    · intro h t ht
      cases hstep.symm.trans ht
      exact (ih (hkept hs hq hstep) hrest).mpr (h s' hstep)

/-- Two conditions that agree in the states of an invariant agree along every run, also along one
that comes to a step that cannot be taken. -/
theorem Preserves.along_congr {q : σ → ℓ → Prop} (h : Preserves step (fun _ _ => True) I)
    (hiff : ∀ ⦃s l⦄, I s → (p s l ↔ q s l)) {ls : List ℓ} :
    ∀ {s : σ}, I s → (Along step p s ls ↔ Along step q s ls) := by
  induction ls with
  | nil => intro s _; exact Iff.rfl
  | cons l ls ih =>
    intro s hs
    rw [Along, Along, hiff hs]
    exact and_congr_right fun _ => forall₂_congr fun s' hstep => ih (h hs trivial hstep)

end Runs
