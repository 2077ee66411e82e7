import Vmm386.Lib.TextPage
import Vmm386.Types

/-!
# The display of a tty

The fields of `struct mode_info` and `struct tty` that decide where a character is shown.
-/

namespace Vmm386.TtyModule

/-- `struct mode_info`. The screen is in the address space, also on the last page. -/
structure ModeInfo where
  cols : ℕ
  rows : ℕ
  buffer : ℕ
  pageSize : ℕ
  pages : ℕ
  hcols : 0 < cols ∧ cols < 0x8000
  hrows : 0 < rows ∧ rows < 0x8000
  hpages : pages < 0x100
  htop : buffer + pages * pageSize + 2 * (rows * cols) ≤ 2 ^ 32

/-! Text mode 3 has 80 columns, 25 rows and 4 pages. -/

theorem mode3_cols : 0 < 80 ∧ 80 < 0x8000 := by decide

theorem mode3_rows : 0 < 25 ∧ 25 < 0x8000 := by decide

theorem mode3_pages : 4 < 0x100 := by decide

theorem mode3_top : 0xb8000 + 4 * 4096 + 2 * (25 * 80) ≤ 2 ^ 32 := by decide

/-- `TTY_BUF(tty) + page * TTY_PAGE_SIZE(tty)`. -/
def ModeInfo.page (mi : ModeInfo) (page : ℕ) : ℕ := mi.buffer + page * mi.pageSize

/-- A cell of a page. -/
def ModeInfo.cell (mi : ModeInfo) (page : ℕ) (m : TextPage.Mem) (row col : ℕ) : UShort :=
  TextPage.word m (TextPage.cellAddr (mi.page page) mi.cols row col)

/-- The addresses of a page do not wrap around. -/
theorem ModeInfo.page_le (mi : ModeInfo) {page : ℕ} (h : page < mi.pages) :
    mi.page page + 2 * (mi.rows * mi.cols) ≤ 2 ^ 32 := by
  have hmul : page * mi.pageSize ≤ mi.pages * mi.pageSize := Nat.mul_le_mul_right _ h.le
  have htop := mi.htop
  rw [ModeInfo.page]
  omega

end Vmm386.TtyModule
