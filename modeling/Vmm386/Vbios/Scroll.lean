import Vmm386.Lib.ForLoop
import Vmm386.Tty.Tty

/-!
# Scrolling by the BIOS

`bios_scroll_up` and `bios_scroll_down` of `drivers/virtual/vbios/video.c`, on the current page of
a tty.
-/

namespace Vmm386.Vbios

open ForLoop TextPage TtyModule

/-- A tty with its current page. -/
structure VmTty where
  mi : ModeInfo
  currentPage : ℕ
  hpage : currentPage < mi.pages

/-- `TTY_VMEM`. -/
def VmTty.vmem (t : VmTty) : ULong := BitVec.ofNat 32 (t.mi.page t.currentPage)

/-- `TTY_VMEM + (left_col * 2) + (i * TTY_COLS(vmtty) * 2)`. -/
def VmTty.rowAddr (t : VmTty) (leftCol i : ULong) : ULong :=
  t.vmem + leftCol * 2 + i * BitVec.ofNat 32 t.mi.cols * 2

/-- `attr << 8`. -/
def blank (attr : UChar) : UShort := attr.zeroExtend 16 <<< 8

/-- `memsetw_user` of a row. -/
def blankRow (t : VmTty) (attr : UChar) (leftCol rightCol i : ULong) : Mem → Mem :=
  fill (blank attr) (t.rowAddr leftCol i).toNat (rightCol - leftCol + 1).toNat

/-- `memcpy_user` of a row. -/
def copyRow (t : VmTty) (leftCol rightCol dst src : ULong) : Mem → Mem :=
  copy (t.rowAddr leftCol dst).toNat (t.rowAddr leftCol src).toNat
    ((rightCol - leftCol + 1) * 2).toNat

section Args

variable (t : VmTty) (numLines : ULong) (attr : UChar) (leftCol leftRow rightCol rightRow : ULong)

/-- `bios_scroll_up`, with at most `fuel` iterations of a loop. -/
def biosScrollUp (fuel : ℕ) (m : Mem) : Option Mem :=
  if rightCol ≤ leftCol ∨ rightRow ≤ leftRow then some m
  else if rightRow - leftRow < numLines ∨ numLines = 0 then
    run (fun i => decide (i ≤ rightRow)) (· + 1) (blankRow t attr leftCol rightCol) fuel leftRow m
  else
    (run (fun i => decide (i ≤ rightRow)) (· + 1)
      (fun i => copyRow t leftCol rightCol i (i - numLines)) fuel (leftRow + numLines) m).bind
      fun m =>
        run (fun i => decide (i ≤ rightRow)) (· + 1) (blankRow t attr leftCol rightCol) fuel
          (rightRow - numLines) m

/-- `bios_scroll_down`, with at most `fuel` iterations of a loop. -/
def biosScrollDown (fuel : ℕ) (m : Mem) : Option Mem :=
  if rightCol ≤ leftCol ∨ rightRow ≤ leftRow then some m
  else if rightRow - leftRow < numLines ∨ numLines = 0 then
    run (fun i => decide (i ≤ rightRow)) (· + 1) (blankRow t attr leftCol rightCol) fuel leftRow m
  else
    (run (fun i => decide (leftRow ≤ i)) (· - 1)
      (fun i => copyRow t leftCol rightCol i (i - numLines)) fuel (rightRow - numLines) m).bind
      fun m =>
        run (fun i => decide (i < leftRow + numLines)) (· + 1) (blankRow t attr leftCol rightCol)
          fuel leftRow m

end Args

/-! ## What scrolling is for -/

/-- A window inside the screen. -/
structure Window (t : VmTty) where
  leftCol : ULong
  leftRow : ULong
  rightCol : ULong
  rightRow : ULong
  hcol : leftCol < rightCol
  hrow : leftRow < rightRow
  hcols : rightCol.toNat < t.mi.cols
  hrows : rightRow.toNat < t.mi.rows

inductive Direction where
  | up
  | down

variable {t : VmTty}

/-- The cell is in the window. -/
def Window.Holds (w : Window t) (row col : ℕ) : Prop :=
  w.leftRow.toNat ≤ row ∧ row ≤ w.rightRow.toNat ∧ w.leftCol.toNat ≤ col ∧ col ≤ w.rightCol.toNat

def Window.scroll (w : Window t) : Direction → ULong → UChar → ℕ → Mem → Option Mem
  | .up, n, attr => biosScrollUp t n attr w.leftCol w.leftRow w.rightCol w.rightRow
  | .down, n, attr => biosScrollDown t n attr w.leftCol w.leftRow w.rightCol w.rightRow

/-- A cell of the window, `n` rows further up or down, or blank. -/
def Window.scrolledCell (w : Window t) (n : ULong) (attr : UChar) (m : Mem) (row col : ℕ) :
    Direction → UShort
  | .up =>
    if n ≠ 0 ∧ row + n.toNat ≤ w.rightRow.toNat then
      t.mi.cell t.currentPage m (row + n.toNat) col
    else blank attr
  | .down =>
    if n ≠ 0 ∧ w.leftRow.toNat + n.toNat ≤ row then
      t.mi.cell t.currentPage m (row - n.toNat) col
    else blank attr

/-- Scrolling ends, and does to the memory what it is for. -/
def Window.Scrolls (w : Window t) (d : Direction) (n : ULong) (attr : UChar) : Prop :=
  ∀ m : Mem, ∃ fuel m', w.scroll d n attr fuel m = some m' ∧
    (∀ row col, w.Holds row col →
      t.mi.cell t.currentPage m' row col = w.scrolledCell n attr m row col d) ∧
    ∀ a, (∀ row col, w.Holds row col →
      a ≠ cellAddr (t.mi.page t.currentPage) t.mi.cols row col ∧
        a ≠ cellAddr (t.mi.page t.currentPage) t.mi.cols row col + 1) → m' a = m a

end Vmm386.Vbios
