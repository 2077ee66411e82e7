import Mathlib.Logic.Function.Basic
import Mathlib.Tactic

/-!
# Forests of pointers

Roots and nodes hold addresses, and 0 is the null address. A path goes down from a root
through the nodes; `walk` follows it and gives the address it ends at. How far the nodes
reach below a root is the height of the root: a node at that depth is a leaf, which holds no
addresses.

The one change considered here is that of a single pointer, from or to the null address
(`Links`). It changes what a single path walks to, so a forest in which every node is
reached by one path stays one.
-/

/-- Which address each root holds, and each node at each index. -/
structure Forest (R I A : Type*) where
  root : R → A
  child : A → I → A

namespace Forest

variable {R I A : Type*} [Zero A] [DecidableEq A] {height : R → ℕ}

/-! ## Paths -/

/-- A way down from a root. -/
inductive Path (R I : Type*) where
  | root (r : R)
  | sub (P : Path R I) (i : I)
deriving DecidableEq

namespace Path

/-- The root a path starts from. -/
def base : Path R I → R
  | root r => r
  | sub P _ => P.base

/-- The number of nodes on the way. -/
def depth : Path R I → ℕ
  | root _ => 0
  | sub P _ => P.depth + 1

/-- The path does not go below a leaf. -/
def Valid (height : R → ℕ) (P : Path R I) : Prop := P.depth ≤ height P.base

/-- The path ends at a node that holds addresses. -/
def Inner (height : R → ℕ) (P : Path R I) : Prop := P.depth < height P.base

instance (P : Path R I) : Decidable (P.Inner height) := inferInstanceAs (Decidable (_ < _))

@[simp] theorem valid_root (r : R) : (root r : Path R I).Valid height := Nat.zero_le _

@[simp] theorem valid_sub {P : Path R I} {i : I} : (P.sub i).Valid height ↔ P.Inner height :=
  Iff.rfl

theorem Inner.valid {P : Path R I} (h : P.Inner height) : P.Valid height := Nat.le_of_lt h

theorem sub_ne_self (P : Path R I) (i : I) : P.sub i ≠ P := by
  intro h
  have hdepth : (P.sub i).depth = P.depth := by rw [h]
  simp only [depth] at hdepth
  omega

/-- `P` is `Q`, or goes on below it. -/
def Passes : Path R I → Path R I → Prop
  | root r, Q => root r = Q
  | sub P i, Q => sub P i = Q ∨ P.Passes Q

@[simp] theorem passes_root {r : R} {Q : Path R I} : (root r).Passes Q ↔ root r = Q := Iff.rfl

@[simp] theorem passes_sub {P Q : Path R I} {i : I} :
    (P.sub i).Passes Q ↔ P.sub i = Q ∨ P.Passes Q := Iff.rfl

@[simp] theorem passes_self (P : Path R I) : P.Passes P := by
  cases P <;> simp

theorem Passes.base_eq {P Q : Path R I} (h : P.Passes Q) : P.base = Q.base := by
  induction P with
  | root r => rw [← passes_root.mp h]
  | sub P i ih =>
    rcases h with rfl | h
    · rfl
    · exact ih h

theorem passes_base (P : Path R I) : P.Passes (root P.base) := by
  induction P with
  | root r => exact passes_self _
  | sub P i ih => exact .inr ih

theorem Passes.depth_le {P Q : Path R I} (h : P.Passes Q) : Q.depth ≤ P.depth := by
  induction P with
  | root r => rw [← passes_root.mp h]
  | sub P i ih =>
    rcases h with rfl | h
    · exact Nat.le_refl _
    · exact Nat.le_succ_of_le (ih h)

theorem Passes.trans {P Q S : Path R I} (h : P.Passes Q) (h' : Q.Passes S) : P.Passes S := by
  induction P with
  | root r => exact passes_root.mp h ▸ h'
  | sub P i ih =>
    rcases h with rfl | h
    · exact h'
    · exact .inr (ih h)

/-- Of two paths that a third one passes, one passes the other. -/
theorem Passes.total {P Q S : Path R I} (h : P.Passes Q) (h' : P.Passes S) :
    Q.Passes S ∨ S.Passes Q := by
  induction P with
  | root r => exact .inl (passes_root.mp h ▸ h')
  | sub P i ih =>
    rcases h with rfl | h
    · exact .inl h'
    · rcases h' with rfl | h'
      · exact .inr (.inr h)
      · exact ih h h'

/-- What a path passes on the way holds addresses. -/
theorem Passes.inner {P Q : Path R I} (h : P.Passes Q) (hP : P.Valid height) (hne : Q ≠ P) :
    Q.Inner height := by
  cases P with
  | root r => exact absurd h.symm hne
  | sub P i =>
    rcases h with rfl | h
    · exact absurd rfl hne
    · have hdepth := h.depth_le
      rw [valid_sub, Inner, h.base_eq] at hP
      exact Nat.lt_of_le_of_lt hdepth hP

/-- To go on below a path is to pass one of the next ones. -/
theorem passes_and_ne_iff {P Q : Path R I} : Q.Passes P ∧ Q ≠ P ↔ ∃ i, Q.Passes (P.sub i) := by
  constructor
  · rintro ⟨h, hne⟩
    induction Q with
    | root r => exact absurd (passes_root.mp h) hne
    | sub Q j ih =>
      rcases h with rfl | h
      · exact absurd rfl hne
      · by_cases hQ : Q = P
        · exact ⟨j, hQ ▸ passes_self _⟩
        · obtain ⟨i, hi⟩ := ih h hQ
          exact ⟨i, .inr hi⟩
  · rintro ⟨i, h⟩
    refine ⟨h.trans (.inr (passes_self P)), ?_⟩
    rintro rfl
    have hdepth := h.depth_le
    simp only [depth] at hdepth
    omega

end Path

/-! ## Walking down -/

/-- The address a path ends at, or 0 if it meets a null pointer on the way. -/
def walk (F : Forest R I A) : Path R I → A
  | .root r => F.root r
  | .sub P i => if F.walk P = 0 then 0 else F.child (F.walk P) i

@[simp] theorem walk_root (F : Forest R I A) (r : R) : F.walk (.root r) = F.root r := rfl

theorem walk_sub_of_ne {F : Forest R I A} {P : Path R I} (i : I) (h : F.walk P ≠ 0) :
    F.walk (P.sub i) = F.child (F.walk P) i := if_neg h

theorem walk_sub_of_eq {F : Forest R I A} {P : Path R I} (i : I) (h : F.walk P = 0) :
    F.walk (P.sub i) = 0 := if_pos h

theorem walk_ne_zero_of_sub {F : Forest R I A} {P : Path R I} {i : I}
    (h : F.walk (P.sub i) ≠ 0) : F.walk P ≠ 0 :=
  fun h0 => h (walk_sub_of_eq i h0)

/-- Every node is reached by one path. -/
def Exclusive (height : R → ℕ) (F : Forest R I A) : Prop :=
  ∀ ⦃P Q : Path R I⦄, P.Valid height → Q.Valid height → F.walk P ≠ 0 → F.walk P = F.walk Q →
    P = Q

/-- No path ends at `a`. -/
def Unreached (height : R → ℕ) (F : Forest R I A) (a : A) : Prop :=
  ∀ ⦃P : Path R I⦄, P.Valid height → F.walk P ≠ a

/-- Below a null pointer there is nothing. -/
theorem walk_eq_zero_of_passes {F : Forest R I A} {P Q : Path R I} (h : Q.Passes P)
    (h0 : F.walk P = 0) : F.walk Q = 0 := by
  induction Q with
  | root r => exact Path.passes_root.mp h ▸ h0
  | sub Q i ih =>
    rcases h with rfl | h
    · exact h0
    · exact walk_sub_of_eq i (ih h)

/-- Only what the roots and the nodes reached from them hold matters. -/
theorem walk_congr {F F' : Forest R I A} (hroot : ∀ r, F'.root r = F.root r)
    (hchild : ∀ ⦃Q : Path R I⦄, Q.Inner height → F.walk Q ≠ 0 → ∀ i,
      F'.child (F.walk Q) i = F.child (F.walk Q) i) :
    ∀ Q : Path R I, Q.Valid height → F'.walk Q = F.walk Q
  | .root r, _ => hroot r
  | .sub Q i, hQ => by
    have ih := walk_congr hroot hchild Q (Path.Inner.valid hQ)
    by_cases h0 : F.walk Q = 0
    · rw [walk_sub_of_eq i h0, walk_sub_of_eq i (ih.trans h0)]
    · rw [walk_sub_of_ne i h0, walk_sub_of_ne i (by rw [ih]; exact h0), ih]
      exact hchild hQ h0 i

/-! ## Changing one pointer -/

variable [DecidableEq R] [DecidableEq I]

/-- `F'` is `F` with the pointer at the end of `P` changed to `b`: it hung nothing below
`P`, and hangs nothing below `b`. -/
structure Links (height : R → ℕ) (F F' : Forest R I A) (P : Path R I) (b : A) : Prop where
  root : ∀ r, F'.root r = if .root r = P then b else F.root r
  child : ∀ ⦃Q : Path R I⦄, Q.Inner height → F.walk Q ≠ 0 → ∀ i,
    F'.child (F.walk Q) i = if Q.sub i = P then b else F.child (F.walk Q) i
  parent : ∀ ⦃Q i⦄, P = Q.sub i → F.walk Q ≠ 0
  below : P.Inner height → ∀ i, F.walk (P.sub i) = 0
  fresh : P.Inner height → b ≠ 0 → ∀ i, F'.child b i = 0

namespace Links

variable {F F' : Forest R I A} {P : Path R I} {b : A}

/-- Only the changed path walks elsewhere. -/
theorem walk_eq (h : Links height F F' P b) :
    ∀ Q : Path R I, Q.Valid height → F'.walk Q = if Q = P then b else F.walk Q
  | .root r, _ => h.root r
  | .sub Q i, hQ => by
    have ih := h.walk_eq Q (Path.Inner.valid hQ)
    by_cases hP : Q = P
    · -- below the changed pointer there was nothing, and there is nothing
      subst hP
      rw [if_pos rfl] at ih
      rw [if_neg (Path.sub_ne_self Q i), h.below hQ i]
      by_cases hb : b = 0
      · exact walk_sub_of_eq i (ih.trans hb)
      · rw [walk_sub_of_ne i (by rw [ih]; exact hb), ih]
        exact h.fresh hQ hb i
    · rw [if_neg hP] at ih
      by_cases h0 : F.walk Q = 0
      · have hne : Q.sub i ≠ P := fun he => h.parent he.symm h0
        rw [if_neg hne, walk_sub_of_eq i h0, walk_sub_of_eq i (ih.trans h0)]
      · rw [walk_sub_of_ne i (by rw [ih]; exact h0), walk_sub_of_ne i h0, ih]
        exact h.child hQ h0 i

theorem walk_self (h : Links height F F' P b) (hP : P.Valid height) : F'.walk P = b := by
  rw [h.walk_eq P hP, if_pos rfl]

theorem walk_of_ne (h : Links height F F' P b) {Q : Path R I} (hQ : Q.Valid height)
    (hne : Q ≠ P) : F'.walk Q = F.walk Q := by
  rw [h.walk_eq Q hQ, if_neg hne]

/-- A pointer changed to a node no path ends at, or to none, keeps the forest exclusive. -/
theorem exclusive (h : Links height F F' P b) (hF : Exclusive height F)
    (hb : b ≠ 0 → Unreached height F b) : Exclusive height F' := by
  intro Q Q' hQ hQ' hne heq
  rw [h.walk_eq Q hQ] at hne heq
  rw [h.walk_eq Q' hQ'] at heq
  by_cases hQP : Q = P
  · rw [if_pos hQP] at hne heq
    by_cases hQP' : Q' = P
    · rw [hQP, hQP']
    · rw [if_neg hQP'] at heq
      exact absurd heq.symm (hb hne hQ')
  · rw [if_neg hQP] at hne heq
    by_cases hQP' : Q' = P
    · rw [if_pos hQP'] at heq
      exact absurd heq (hb (heq ▸ hne) hQ)
    · rw [if_neg hQP'] at heq
      exact hF hQ hQ' hne heq

/-- What holds of every node, and of the new one, holds of every node afterwards. -/
theorem forall_walk (h : Links height F F' P b) {p : A → Prop}
    (hp : ∀ Q : Path R I, Q.Valid height → Q ≠ P → F.walk Q ≠ 0 → p (F.walk Q))
    (hb : b ≠ 0 → p b) :
    ∀ Q : Path R I, Q.Valid height → F'.walk Q ≠ 0 → p (F'.walk Q) := by
  intro Q hQ hne
  rw [h.walk_eq Q hQ] at hne ⊢
  by_cases hQP : Q = P
  · rw [if_pos hQP] at hne ⊢
    exact hb hne
  · rw [if_neg hQP] at hne ⊢
    exact hp Q hQ hQP hne

end Links

end Forest
