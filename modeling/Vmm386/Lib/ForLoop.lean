import Mathlib.Data.Nat.Notation
import Mathlib.Tactic.SplitIfs

/-!
# Counting loops

A loop with a counter that is changed by `next` as long as `cond` is true of it. An invariant
speaks of the counter and the state; a rank that goes down shows that there is an end.
-/

namespace ForLoop

variable {ι σ : Type*}

/-- The state after the loop, with at most `fuel` tests of the condition. -/
def run (cond : ι → Bool) (next : ι → ι) (body : ι → σ → σ) : ℕ → ι → σ → Option σ
  | 0, _, _ => none
  | fuel + 1, i, s => if cond i then run cond next body fuel (next i) (body i s) else some s

variable {cond : ι → Bool} {next : ι → ι} {body : ι → σ → σ}
  {i : ι} {s s' : σ} {fuel : ℕ}

theorem run_succ (h : run cond next body fuel i s = some s') :
    run cond next body (fuel + 1) i s = some s' := by
  induction fuel generalizing i s with
  | zero => cases h
  | succ fuel ih =>
    unfold run at h ⊢
    split_ifs at h ⊢
    · exact ih h
    · exact h

theorem run_mono {fuel' : ℕ} (hle : fuel ≤ fuel') (h : run cond next body fuel i s = some s') :
    run cond next body fuel' i s = some s' := by
  induction hle with
  | refl => exact h
  | step _ ih => exact run_succ ih

/-- Where the loop ends, the invariant is true and the condition is false. -/
theorem run_inv (I : ι → σ → Prop) (step : ∀ i s, cond i = true → I i s → I (next i) (body i s)) (h : I i s)
    (hrun : run cond next body fuel i s = some s') : ∃ j, cond j = false ∧ I j s' := by
  induction fuel generalizing i s with
  | zero => cases hrun
  | succ fuel ih =>
    unfold run at hrun
    split_ifs at hrun with hcond
    · exact ih (step i s hcond h) hrun
    · cases hrun
      exact ⟨i, eq_false_of_ne_true hcond, h⟩

/-- The loop ends if the rank goes down under the invariant. -/
theorem run_total (I : ι → σ → Prop) (rank : ι → ℕ)
    (step : ∀ i s, cond i = true → I i s → I (next i) (body i s))
    (hrank : ∀ i s, cond i = true → I i s → rank (next i) < rank i) (h : I i s)
    (hfuel : rank i < fuel) :
    ∃ j s', run cond next body fuel i s = some s' ∧ cond j = false ∧ I j s' := by
  induction fuel generalizing i s with
  | zero => exact absurd hfuel (Nat.not_lt_zero _)
  | succ fuel ih =>
    unfold run
    split_ifs with hcond
    · have hlt := hrank i s hcond h
      exact ih (step i s hcond h) (by omega)
    · exact ⟨i, s, rfl, eq_false_of_ne_true hcond, h⟩

/-- A condition that is always true. -/
theorem run_eq_none (hcond : ∀ i, cond i = true) : run cond next body fuel i s = none := by
  induction fuel generalizing i s with
  | zero => rfl
  | succ fuel ih =>
    rw [run, if_pos (hcond i)]
    exact ih

end ForLoop
