import Mathlib.Data.Nat.Notation
import Mathlib.Tactic.Basic
import Mathlib.Order.Defs.Unbundled

/-!
# Programs over a state

A program takes a state to a result and a state, or comes to no end. What it does is said of its
runs, one at a time: `Halts` that there is an end, `Holds` what is true at the end, if there is
one. `Keeps` is `Holds` for a relation between the states before and after, `Sure` is both, and
`Below` compares two programs of which one may come to fewer ends.
-/

namespace Programs

abbrev Prog (σ α : Type) := StateT σ Option α

variable {σ α β : Type}

/-- The run from `s` comes to an end. -/
def Halts (m : Prog σ α) (s : σ) : Prop := ∃ p, m s = some p

/-- If the run from `s` comes to an end, `Q` is true there. -/
def Holds (m : Prog σ α) (Q : α → σ → Prop) (s : σ) : Prop :=
  ∀ a s', m s = some (a, s') → Q a s'

/-- Every run relates the state at its end to that at its start. -/
def Keeps (R : σ → σ → Prop) (m : Prog σ α) : Prop := ∀ s, Holds m (fun _ s' => R s s') s

/-- Every run comes to an end, and `R` relates the state there to that at its start. -/
def Sure (R : σ → σ → Prop) (m : Prog σ α) : Prop := ∀ s, ∃ a s', m s = some (a, s') ∧ R s s'

/-- Where `m` comes to an end, `m'` comes to the same. -/
def Below (m m' : Prog σ α) : Prop := ∀ s p, m s = some p → m' s = some p

theorem bind_eq_some {m : Prog σ α} {f : α → Prog σ β} {s : σ} {p : β × σ} :
    (m >>= f) s = some p ↔ ∃ a s', m s = some (a, s') ∧ f a s' = some p := by
  constructor
  · intro h
    have ⟨⟨a, s'⟩, ha, hf⟩ := Option.bind_eq_some_iff.mp h
    exact ⟨a, s', ha, hf⟩
  · intro ⟨a, s', ha, hf⟩
    exact Option.bind_eq_some_iff.mpr ⟨(a, s'), ha, hf⟩

theorem bind_eq {m : Prog σ α} {f : α → Prog σ β} {s s' : σ} {a : α} (h : m s = some (a, s')) :
    (m >>= f) s = f a s' := by
  change (m s).bind (fun p => f p.1 p.2) = f a s'
  rw [h]
  rfl

@[simp] theorem pure_eq (a : α) (s : σ) : (pure a : Prog σ α) s = some (a, s) := rfl

@[simp] theorem get_eq (s : σ) : (get : Prog σ σ) s = some (s, s) := rfl

@[simp] theorem modify_eq (f : σ → σ) (s : σ) : (modify f : Prog σ Unit) s = some ((), f s) := rfl

/-! ## What holds at the end -/

section Holds

variable {m : Prog σ α} {f : α → Prog σ β} {Q Q' : α → σ → Prop} {P : β → σ → Prop} {s : σ}

theorem Holds.bind (h : Holds m (fun a s' => Holds (f a) P s') s) : Holds (m >>= f) P s := by
  intro b s'' hrun
  have ⟨a, s', hm, hf⟩ := bind_eq_some.mp hrun
  exact h a s' hm b s'' hf

theorem Holds.pure {a : α} (h : Q a s) : Holds (Pure.pure a) Q s := by
  intro b s' hrun
  cases hrun
  exact h

theorem Holds.get {Q : σ → σ → Prop} (h : Q s s) : Holds MonadState.get Q s := by
  intro b s' hrun
  cases hrun
  exact h

theorem Holds.modify {g : σ → σ} {Q : Unit → σ → Prop} (h : Q () (g s)) :
    Holds (modify g) Q s := by
  intro b s' hrun
  cases hrun
  exact h

theorem Holds.failure : Holds (failure : Prog σ α) Q s := by
  intro b s' hrun
  cases hrun

theorem Holds.mono (h : Holds m Q s) (hQ : ∀ a s', Q a s' → Q' a s') : Holds m Q' s :=
  fun a s' hrun => hQ a s' (h a s' hrun)

theorem Holds.and (h : Holds m Q s) (h' : Holds m Q' s) :
    Holds m (fun a s' => Q a s' ∧ Q' a s') s :=
  fun a s' hrun => ⟨h a s' hrun, h' a s' hrun⟩

end Holds

/-! ## What every run keeps -/

section Keeps

variable {R : σ → σ → Prop} {m : Prog σ α} {f : α → Prog σ β}

theorem Keeps.bind [IsTrans σ R] (hm : Keeps R m) (hf : ∀ a, Keeps R (f a)) :
    Keeps R (m >>= f) := by
  intro s
  apply Holds.bind
  intro a s' hrun b s'' hrun'
  exact IsTrans.trans s s' s'' (hm s a s' hrun) (hf a s' b s'' hrun')

theorem Keeps.pure [Std.Refl R] (a : α) : Keeps R (Pure.pure a) :=
  fun s => Holds.pure (Std.Refl.refl s)

theorem Keeps.get_bind [Std.Refl R] {f : σ → Prog σ β}
    (h : ∀ s, Holds (f s) (fun _ s' => R s s') s) : Keeps R (MonadState.get >>= f) :=
  fun s => Holds.bind (Holds.get (h s))

theorem Keeps.modify {g : σ → σ} (h : ∀ s, R s (g s)) : Keeps R (modify g) :=
  fun s => Holds.modify (h s)

theorem Keeps.ite {c : Prop} [Decidable c] {m' : Prog σ α} (hm : Keeps R m) (hm' : Keeps R m') :
    Keeps R (if c then m else m') := by
  split
  · exact hm
  · exact hm'

theorem Keeps.failure : Keeps R (failure : Prog σ α) := fun _ => Holds.failure

theorem Keeps.mono {R' : σ → σ → Prop} (h : Keeps R m) (hR : ∀ s s', R s s' → R' s s') :
    Keeps R' m :=
  fun s => (h s).mono fun _ s' => hR s s'

end Keeps

/-! ## Ends -/

section Halts

variable {m : Prog σ α} {f : α → Prog σ β} {s : σ}

theorem Halts.bind (hm : Halts m s) (hf : Holds m (fun a s' => Halts (f a) s') s) :
    Halts (m >>= f) s := by
  obtain ⟨⟨a, s'⟩, hrun⟩ := hm
  obtain ⟨p, hrun'⟩ := hf a s' hrun
  exact ⟨p, bind_eq_some.mpr ⟨a, s', hrun, hrun'⟩⟩

theorem Halts.pure (a : α) : Halts (Pure.pure a) s := ⟨(a, s), rfl⟩

theorem Halts.get_bind {f : σ → Prog σ β} (h : Halts (f s) s) :
    Halts (MonadState.get >>= f) s := h

theorem Halts.modify (g : σ → σ) : Halts (modify g) s := ⟨((), g s), rfl⟩

end Halts

/-! ## What every run keeps, to its end -/

section Sure

variable {R : σ → σ → Prop} {m : Prog σ α} {f : α → Prog σ β}

theorem Sure.keeps (h : Sure R m) : Keeps R m := by
  intro s a s' hrun
  obtain ⟨a', s'', hrun', hR⟩ := h s
  rw [hrun] at hrun'
  cases hrun'
  exact hR

theorem Sure.halts (h : Sure R m) (s : σ) : Halts m s := by
  obtain ⟨a, s', hrun, _⟩ := h s
  exact ⟨(a, s'), hrun⟩

theorem Sure.bind [IsTrans σ R] (hm : Sure R m) (hf : ∀ a, Sure R (f a)) : Sure R (m >>= f) := by
  intro s
  obtain ⟨a, s', hrun, hR⟩ := hm s
  obtain ⟨b, s'', hrun', hR'⟩ := hf a s'
  exact ⟨b, s'', (bind_eq hrun).trans hrun', IsTrans.trans s s' s'' hR hR'⟩

theorem Sure.pure [Std.Refl R] (a : α) : Sure R (Pure.pure a) :=
  fun s => ⟨a, s, rfl, Std.Refl.refl s⟩

theorem Sure.modify {g : σ → σ} (h : ∀ s, R s (g s)) : Sure R (modify g) :=
  fun s => ⟨(), g s, rfl, h s⟩

theorem Sure.get_bind {f : σ → Prog σ β} (h : ∀ s, ∃ a s', f s s = some (a, s') ∧ R s s') :
    Sure R (MonadState.get >>= f) := h

theorem Sure.ite {c : Prop} [Decidable c] {m' : Prog σ α} (hm : Sure R m) (hm' : Sure R m') :
    Sure R (if c then m else m') := by
  split
  · exact hm
  · exact hm'

theorem Sure.mono {R' : σ → σ → Prop} (h : Sure R m) (hR : ∀ s s', R s s' → R' s s') :
    Sure R' m := by
  intro s
  obtain ⟨a, s', hrun, hR'⟩ := h s
  exact ⟨a, s', hrun, hR s s' hR'⟩

end Sure

/-! ## Fewer ends -/

section Below

variable {m m' : Prog σ α} {f f' : α → Prog σ β}

theorem Below.refl (m : Prog σ α) : Below m m := fun _ _ h => h

theorem Below.trans {m'' : Prog σ α} (h : Below m m') (h' : Below m' m'') : Below m m'' :=
  fun s p hrun => h' s p (h s p hrun)

theorem Below.failure (m : Prog σ α) : Below failure m := by
  intro s p h
  cases h

theorem Below.ite {c : Prop} [Decidable c] {m₂ m₂' : Prog σ α} (h : Below m m')
    (h₂ : Below m₂ m₂') : Below (if c then m else m₂) (if c then m' else m₂') := by
  split
  · exact h
  · exact h₂

theorem Below.bind (hm : Below m m') (hf : ∀ a, Below (f a) (f' a)) :
    Below (m >>= f) (m' >>= f') := by
  intro s p hrun
  have ⟨a, s', h, h'⟩ := bind_eq_some.mp hrun
  exact bind_eq_some.mpr ⟨a, s', hm s _ h, hf a s' p h'⟩

end Below

end Programs
