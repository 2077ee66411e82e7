import Mathlib.Data.List.Range
import Mathlib.Data.Nat.ModEq
import Mathlib.Logic.Function.Basic
import Mathlib.Tactic.Basic

/-!
# Ring buffers

A buffer of `n` places with an index `i` where the next element goes in and an index `o` where
the next one comes out. The buffer is empty when the two are equal, so that one place is never
used.
-/

namespace Ring

variable {α : Type*} {n i o : ℕ} {f : ℕ → α} {a : α}

/-- How many elements are in the buffer. -/
def count (n i o : ℕ) : ℕ := (i + n - o) % n

/-- The elements in the buffer, the oldest first. -/
def contents (n : ℕ) (f : ℕ → α) (i o : ℕ) : List α :=
  (List.range (count n i o)).map fun k => f ((o + k) % n)

theorem count_eq (hi : i < n) (ho : o < n) :
    count n i o = if o ≤ i then i - o else i + n - o := by
  rw [count]
  split
  · have hsub : i + n - o = (i - o) + n := by omega
    rw [hsub, Nat.add_mod_right, Nat.mod_eq_of_lt (by omega)]
  · exact Nat.mod_eq_of_lt (by omega)

theorem succ_mod (hi : i < n) : (i + 1) % n = if i + 1 = n then 0 else i + 1 := by
  split
  · rename_i h
    rw [h, Nat.mod_self]
  · exact Nat.mod_eq_of_lt (by omega)

theorem length_contents : (contents n f i o).length = count n i o := by
  rw [contents, List.length_map, List.length_range]

theorem contents_eq_nil (hi : i < n) (ho : o < n) : contents n f i o = [] ↔ i = o := by
  rw [← List.length_eq_zero_iff, length_contents, count_eq hi ho]
  split
  · omega
  · omega

/-- An element goes in. -/
theorem contents_push (hi : i < n) (ho : o < n) (hroom : (i + 1) % n ≠ o) :
    contents n (Function.update f i a) ((i + 1) % n) o = contents n f i o ++ [a] := by
  have hlt : (i + 1) % n < n := Nat.mod_lt _ (by omega)
  have hcount : count n ((i + 1) % n) o = count n i o + 1 := by
    rw [count_eq hlt ho, count_eq hi ho]
    rw [succ_mod hi] at hroom ⊢
    split at hroom
    · rename_i hwrap
      rw [if_pos hwrap]
      split <;> split <;> omega
    · rename_i hwrap
      rw [if_neg hwrap]
      split <;> split <;> omega
  have hlast : (o + count n i o) % n = i := by
    rw [count_eq hi ho]
    split
    · have hsum : o + (i - o) = i := by omega
      rw [hsum, Nat.mod_eq_of_lt hi]
    · have hsum : o + (i + n - o) = i + n := by omega
      rw [hsum, Nat.add_mod_right, Nat.mod_eq_of_lt hi]
  rw [contents, hcount, List.range_succ, List.map_append, List.map_singleton, hlast,
    Function.update_self]
  congr 1
  apply List.map_congr_left
  intro k hk
  rw [List.mem_range] at hk
  -- the places in use are others
  apply Function.update_of_ne
  intro heq
  have hk' : k < n := Nat.lt_trans hk (Nat.mod_lt _ (by omega))
  rw [count_eq hi ho] at hk
  by_cases hwrap : o + k < n
  · rw [Nat.mod_eq_of_lt hwrap] at heq
    split at hk <;> omega
  · have hsum : o + k = (o + k - n) + n := by omega
    rw [hsum, Nat.add_mod_right, Nat.mod_eq_of_lt (by omega)] at heq
    split at hk <;> omega

/-- The oldest element comes out. -/
theorem contents_pop (hi : i < n) (ho : o < n) (hne : i ≠ o) :
    contents n f i o = f o :: contents n f i ((o + 1) % n) := by
  have hlt : (o + 1) % n < n := Nat.mod_lt _ (by omega)
  have hcount : count n i o = count n i ((o + 1) % n) + 1 := by
    rw [count_eq hi hlt, count_eq hi ho, succ_mod ho]
    split <;> split <;> split <;> omega
  rw [contents, hcount, List.range_succ_eq_map, List.map_cons, Nat.add_zero, Nat.mod_eq_of_lt ho,
    List.map_map]
  congr 1
  apply List.map_congr_left
  intro k _
  show f ((o + (k + 1)) % n) = f (((o + 1) % n + k) % n)
  rw [Nat.mod_add_mod, Nat.add_right_comm, Nat.add_assoc]

/-- A buffer with one element left out is as full as it gets. -/
theorem count_lt (hn : 0 < n) : count n i o < n := Nat.mod_lt _ hn

/-- Where there is no room. -/
theorem count_eq_iff (hi : i < n) (ho : o < n) : count n i o + 1 = n ↔ (i + 1) % n = o := by
  rw [count_eq hi ho, succ_mod hi]
  split <;> split <;> omega

/-- Only the places of the buffer matter. -/
theorem contents_congr {g : ℕ → α} (hn : 0 < n) (h : ∀ k < n, f k = g k) :
    contents n f i o = contents n g i o :=
  List.map_congr_left fun _ _ => h _ (Nat.mod_lt _ hn)

end Ring
