import Vmm386.Tty.Tty

/-!
# Writing to a tty

The functions of `drivers/physical/tty/tty.c` that write to the memory of the current page. The writes
are recorded, with offsets in bytes from the start of the page. The hardware cursor and the bell are not
modelled.
-/

namespace Vmm386.TtyModule

/-! ## Integers -/

/-- Conversion to `short`. -/
def short (v : ℤ) : ℤ := v.bmod (2 ^ 16)

/-- Conversion to `long` or `int`. -/
def long (v : ℤ) : ℤ := v.bmod (2 ^ 32)

/-- Conversion to `size_t` or `u_long`. -/
def ulong (v : ℤ) : ℕ := (v % 2 ^ 32).toNat

/-- A mode for text. The screen is in the page. A tab stop behind the last column is a `short`. -/
structure TextMode extends ModeInfo where
  hscreen : 2 * (rows * cols) ≤ pageSize
  htab : cols + 8 < 0x8000
  hpage : pageSize < 2 ^ 31

/-- `mode3_info`, of `drivers/virtual/video/vga.c`. -/
def mode3Info : TextMode where
  cols := 80
  rows := 25
  buffer := 0xb8000
  pageSize := 4096
  pages := 4
  hcols := mode3_cols
  hrows := mode3_rows
  hpages := mode3_pages
  htop := mode3_top
  hscreen := by decide
  htab := by decide
  hpage := by decide

/-- A write to the page. -/
inductive Write where
  /-- `memsetw`, and what sets one cell. -/
  | words (offset : ℤ) (w : UShort) (count : ℕ)
  /-- `memcpy`. -/
  | copy (offset src : ℤ) (len : ℕ)
deriving DecidableEq

/-- The cursor of a tty, and what was written to its page. -/
structure Screen where
  x : ℤ
  y : ℤ
  writes : List Write

namespace Screen

variable (mi : TextMode) (s : Screen)

def write (w : Write) : Screen := { s with writes := s.writes ++ [w] }

/-- The offset of the cell at the cursor. -/
def offset : ℤ := s.y * mi.cols * 2 + s.x * 2

/-- `tty_scroll_up`. -/
def scrollUp : Screen :=
  (s.write (.copy 0 (mi.cols * 2) (mi.cols * 2 * (mi.rows - 1)))).write
    (.words (mi.cols * 2 * (mi.rows - 1)) 0x0720 mi.cols)

/-- `tty_set_cursor`. -/
def setCursor (x y : ℤ) : Screen :=
  if short x > mi.cols ∨ short y > mi.rows then s else { s with x := short x, y := short y }

/-- `tty_clear_chars`. -/
def clearChars (length : ℕ) : Screen :=
  let offset := long (s.offset mi)
  let length :=
    if ulong (offset + length) ≥ mi.pageSize then ulong (mi.pageSize - offset) else length
  s.write (.words offset 0x0720 length)

/-- The cursor goes to the start of the next row. -/
def newline : Screen :=
  let s : Screen := { s with x := 0, y := short (s.y + 1) }
  if s.y = mi.rows then
    let s := s.scrollUp mi
    { s with y := short (s.y - 1) }
  else s

/-- A character in the cell that `cursor_char` points to. -/
def putCell (cursorChar : ℤ) (c : UChar) : Screen :=
  let s := s.write (.words cursorChar ((0x07 : UChar) ++ c) 1)
  { s with x := short (s.x + 1) }

/-- The loop of `tty_printn`. -/
def printLoop (s : Screen) (cursorChar : ℤ) : List UChar → Screen
  | [] => s
  | c :: text =>
    if c = 0x0a ∨ s.x ≥ mi.cols then
      let s := s.newline mi
      let cursorChar := s.offset mi
      if c = 0x0a then printLoop s cursorChar text
      else printLoop (s.putCell cursorChar c) (cursorChar + 2) text
    else if c = 0x09 then
      let newX := (s.x + 8) / 8 * 8
      let s := s.write (.words cursorChar 0x0720 (ulong (newX - s.x)))
      let s := { s with x := short newX }
      printLoop s (s.offset mi) text
    else if c = 0x07 then printLoop s cursorChar text
    else printLoop (s.putCell cursorChar c) (cursorChar + 2) text

/-- `tty_printn`. -/
def printn (text : List UChar) : Screen :=
  let s := s.printLoop mi (s.offset mi) text
  s.setCursor mi s.x s.y

end Screen

end Vmm386.TtyModule
