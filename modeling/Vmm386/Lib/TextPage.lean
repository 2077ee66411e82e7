import Mathlib.Data.Nat.Notation
import Mathlib.Data.Nat.Basic
import Mathlib.Tactic.SplitIfs

/-!
# Text pages

A page of text in a memory of bytes: rows of cells of two bytes each, the character and its
attribute.
-/

namespace TextPage

abbrev Mem := ℕ → BitVec 8

/-- The two bytes at `a`. -/
def word (m : Mem) (a : ℕ) : BitVec 16 := m (a + 1) ++ m a

/-- `count` copies of a word. -/
def fill (w : BitVec 16) (start count : ℕ) (m : Mem) : Mem := fun a =>
  if start ≤ a ∧ a < start + 2 * count then
    if (a - start) % 2 = 0 then w.truncate 8 else (w >>> 8).truncate 8
  else m a

/-- A copy of `len` bytes, upwards. The source is not below the destination, or does not overlap
it. -/
def copy (dst src len : ℕ) (m : Mem) : Mem := fun a =>
  if dst ≤ a ∧ a < dst + len then m (src + (a - dst)) else m a

/-- The address of a cell. -/
def cellAddr (base cols row col : ℕ) : ℕ := base + 2 * (row * cols + col)

variable {m : Mem} {w : BitVec 16} {start count dst src len a : ℕ}
  {base cols rows row row' col col' lo : ℕ}

theorem word_append (w : BitVec 16) : (w >>> 8).truncate 8 ++ w.truncate 8 = w := by
  ext i hi
  rw [BitVec.getElem_append]
  split
  · simp [BitVec.getLsbD_eq_getElem hi]
  · have hsum : 8 + (i - 8) = i := by omega
    simp [hsum, BitVec.getLsbD_eq_getElem hi]

theorem fill_of_not_mem (h : ¬(start ≤ a ∧ a < start + 2 * count)) : fill w start count m a = m a :=
  if_neg h

theorem word_fill (k : ℕ) (hk : k < count) : word (fill w start count m) (start + 2 * k) = w := by
  have hlow : fill w start count m (start + 2 * k) = w.truncate 8 := by
    rw [fill, if_pos (by omega), if_pos (by omega)]
  have hhigh : fill w start count m (start + 2 * k + 1) = (w >>> 8).truncate 8 := by
    rw [fill, if_pos (by omega), if_neg (by omega)]
  rw [word, hlow, hhigh, word_append]

theorem word_congr {m' : Mem} (hlow : m' a = m a) (hhigh : m' (a + 1) = m (a + 1)) :
    word m' a = word m a := by
  rw [word, word, hlow, hhigh]

/-- Cells of a row are in it. -/
theorem row_eq (hcol : col < cols) (hlo : row' * cols ≤ row * cols + col)
    (hhi : row * cols + col < row' * cols + cols) : row = row' := by
  have hpos : 0 < cols := Nat.zero_lt_of_lt hcol
  have hle : row' ≤ row := by
    by_contra h
    have hmul : (row + 1) * cols ≤ row' * cols := Nat.mul_le_mul_right _ (by omega)
    rw [Nat.succ_mul] at hmul
    omega
  have hge : row ≤ row' := by
    by_contra h
    have hmul : (row' + 1) * cols ≤ row * cols := Nat.mul_le_mul_right _ (by omega)
    rw [Nat.succ_mul] at hmul
    omega
  exact Nat.le_antisymm hge hle

theorem cellAddr_inj (hcol : col < cols) (hcol' : col' < cols)
    (h : cellAddr base cols row col = cellAddr base cols row' col') : row = row' ∧ col = col' := by
  have hsum : row * cols + col = row' * cols + col' := by
    rw [cellAddr, cellAddr] at h
    omega
  have hrow : row = row' := row_eq hcol (by omega) (by omega)
  rw [hrow] at hsum
  exact ⟨hrow, by omega⟩

/-- The cells of a page. -/
theorem cell_lt (hrow : row < rows) (hcol : col < cols) : row * cols + col < rows * cols := by
  have hmul : (row + 1) * cols ≤ rows * cols := Nat.mul_le_mul_right _ hrow
  rw [Nat.succ_mul] at hmul
  omega

/-- A part of one row has no cell of another one. -/
theorem not_mem_row (hrow : row ≠ row') (hcol : col < cols) (hfit : lo + count ≤ cols) (b : ℕ)
    (hb : b < 2) :
    ¬(cellAddr base cols row' lo ≤ cellAddr base cols row col + b ∧
      cellAddr base cols row col + b < cellAddr base cols row' lo + 2 * count) := by
  rintro ⟨hge, hlt⟩
  rw [cellAddr, cellAddr] at hge hlt
  exact hrow (row_eq hcol (by omega) (by omega))

/-- A part of a row is filled. -/
theorem word_fill_row (hcol : col < cols) (hlo : lo ≤ col) (hhi : col < lo + count)
    (hfit : lo + count ≤ cols) :
    word (fill w (cellAddr base cols row' lo) count m) (cellAddr base cols row col) =
      if row = row' then w else word m (cellAddr base cols row col) := by
  split_ifs with hrow
  · subst hrow
    have haddr : cellAddr base cols row col = cellAddr base cols row lo + 2 * (col - lo) := by
      rw [cellAddr, cellAddr]
      omega
    rw [haddr]
    exact word_fill _ (by omega)
  · exact word_congr (fill_of_not_mem (not_mem_row hrow hcol hfit 0 (by decide)))
      (fill_of_not_mem (not_mem_row hrow hcol hfit 1 (by decide)))

theorem word_copy_row (hrow : row ≠ row') (hcol : col < cols) (hfit : lo + count ≤ cols) :
    word (copy (cellAddr base cols row' lo) src (2 * count) m) (cellAddr base cols row col) =
      word m (cellAddr base cols row col) :=
  word_congr (if_neg (not_mem_row hrow hcol hfit 0 (by decide)))
    (if_neg (not_mem_row hrow hcol hfit 1 (by decide)))

/-- What is filled are cells of the row. -/
theorem fill_row_of_ne
    (h : ∀ col, lo ≤ col → col < lo + count → a ≠ cellAddr base cols row col ∧
      a ≠ cellAddr base cols row col + 1) :
    fill w (cellAddr base cols row lo) count m a = m a := by
  refine fill_of_not_mem ?_
  rintro ⟨hge, hlt⟩
  have hcell := h (lo + (a - cellAddr base cols row lo) / 2) (by omega) (by omega)
  rw [cellAddr] at hge hlt
  rw [cellAddr, cellAddr] at hcell
  omega

end TextPage
