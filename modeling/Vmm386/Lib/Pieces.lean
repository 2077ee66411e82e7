import Mathlib.Data.List.Basic

/-!
# Pieces side by side

A list of pieces, each with a size, that lie side by side from a place on.
-/

namespace Pieces

variable {α : Type*} (size : α → ℕ)

/-- The size of all pieces. -/
def total : List α → ℕ
  | [] => 0
  | a :: l => size a + total l

/-- Every piece with its place. -/
def placed (b : ℕ) : List α → List (ℕ × α)
  | [] => []
  | a :: l => (b, a) :: placed (b + size a) l

@[simp] theorem total_nil : total size [] = 0 := rfl

@[simp] theorem total_cons (a : α) (l : List α) : total size (a :: l) = size a + total size l := rfl

@[simp] theorem total_append (l r : List α) :
    total size (l ++ r) = total size l + total size r := by
  induction l with
  | nil => exact (Nat.zero_add _).symm
  | cons a l ih =>
    rw [List.cons_append, total_cons, total_cons, ih]
    omega

@[simp] theorem placed_nil (b : ℕ) : placed size b [] = [] := rfl

@[simp] theorem placed_cons (b : ℕ) (a : α) (l : List α) :
    placed size b (a :: l) = (b, a) :: placed size (b + size a) l := rfl

@[simp] theorem placed_append (b : ℕ) (l r : List α) :
    placed size b (l ++ r) = placed size b l ++ placed size (b + total size l) r := by
  induction l generalizing b with
  | nil => rfl
  | cons a l ih => rw [List.cons_append, placed_cons, placed_cons, List.cons_append, ih,
      total_cons, Nat.add_assoc]

variable {size} {b c : ℕ} {a : α} {l : List α}

/-- A piece is between what is before it and what is behind it. -/
theorem split_of_mem (h : (c, a) ∈ placed size b l) :
    ∃ l₁ l₂, l = l₁ ++ a :: l₂ ∧ c = b + total size l₁ := by
  induction l generalizing b with
  | nil => cases h
  | cons x l ih =>
    rw [placed_cons] at h
    rcases List.mem_cons.mp h with heq | h
    · cases heq
      exact ⟨[], l, rfl, rfl⟩
    · obtain ⟨l₁, l₂, rfl, rfl⟩ := ih h
      refine ⟨x :: l₁, l₂, rfl, ?_⟩
      rw [total_cons, Nat.add_assoc]

theorem mem_placed (b : ℕ) (l : List α) (a : α) (r : List α) :
    (b + total size l, a) ∈ placed size b (l ++ a :: r) := by
  rw [placed_append]
  exact List.mem_append_right _ List.mem_cons_self

/-- A piece is in the range of the whole list. -/
theorem bounds_of_mem (h : (c, a) ∈ placed size b l) :
    b ≤ c ∧ c + size a ≤ b + total size l := by
  obtain ⟨l₁, l₂, rfl, rfl⟩ := split_of_mem h
  rw [total_append, total_cons]
  omega

/-- The pieces follow each other. -/
theorem pairwise_placed (b : ℕ) (l : List α) :
    (placed size b l).Pairwise fun x y => x.1 + size x.2 ≤ y.1 := by
  induction l generalizing b with
  | nil => exact .nil
  | cons a l ih => exact .cons (fun y hy => (bounds_of_mem hy).1) (ih _)

/-- Two pieces are the same one, or apart. -/
theorem eq_or_apart {x y : ℕ × α} (hx : x ∈ placed size b l) (hy : y ∈ placed size b l) :
    x = y ∨ x.1 + size x.2 ≤ y.1 ∨ y.1 + size y.2 ≤ x.1 :=
  List.Pairwise.forall_of_forall_of_flip
    (R := fun x y => x = y ∨ x.1 + size x.2 ≤ y.1 ∨ y.1 + size y.2 ≤ x.1) (fun _ _ => .inl rfl)
    ((pairwise_placed b l).imp fun h => .inr (.inl h))
    ((pairwise_placed b l).imp fun h => .inr (.inr h)) hx hy

end Pieces
