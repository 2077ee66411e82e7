import Mathlib.Tactic.ByContra

/-!
# Histories

A history is the list of the events so far, the last one first. A condition on an event may
speak of the events before it.
-/

namespace History

variable {ε : Type*}

/-- `R` holds of every event of a history and of the events before it. -/
def Always (R : ε → List ε → Prop) : List ε → Prop
  | [] => True
  | e :: earlier => R e earlier ∧ Always R earlier

theorem always_iff {R : ε → List ε → Prop} {h : List ε} :
    Always R h ↔ ∀ later e earlier, h = later ++ e :: earlier → R e earlier := by
  induction h with
  | nil => simp [Always]
  | cons x h ih =>
    unfold Always
    rw [ih]
    constructor
    · intro ⟨hx, hall⟩ later e earlier heq
      cases later with
      | nil =>
        cases heq
        exact hx
      | cons y later =>
        cases heq
        exact hall later e earlier rfl
    · intro hall
      refine ⟨hall [] x h rfl, ?_⟩
      intro later e earlier heq
      exact hall (x :: later) e earlier (by rw [heq, List.cons_append])

/-- An event `start` has come, and no `stop` since. -/
def Pending (start stop : ε → Prop) : List ε → Prop
  | [] => False
  | e :: earlier => start e ∨ (¬stop e ∧ Pending start stop earlier)

/-- Between two events `start` there is always a `stop`. -/
def Alternates (start stop : ε → Prop) : List ε → Prop :=
  Always fun e earlier => start e → ¬Pending start stop earlier

variable {start stop : ε → Prop}

end History
