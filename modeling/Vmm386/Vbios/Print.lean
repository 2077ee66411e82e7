import Vmm386.Tty.Tty

/-!
# Printing by the BIOS

`bios_print` of `drivers/virtual/vbios/video.c`, as the list of what it does to the memory and to
the cursor. The position is kept twice: as a row and a column, and as the pointer `point`.
-/

namespace Vmm386.Vbios

open TextPage TtyModule

/-- What is done to the memory and to the cursor. -/
inductive PrintOp where
  | putUserByte (addr : ℤ) (value : UChar)
  | memcpyUser (dst src : ℤ) (len : ℕ)
  | memsetwUser (dst : ℤ) (value : UShort) (count : ℕ)
  | setCursor (col row : ℤ)
  /-- `cursor_pos[page]` of the BIOS data. -/
  | putCursorPos (page : ℕ) (value : UShort)
deriving DecidableEq

/-- The memory after it. -/
def PrintOp.apply : PrintOp → Mem → Mem
  | .putUserByte addr value, m => Function.update m addr.toNat value
  | .memcpyUser dst src len, m => copy dst.toNat src.toNat len m
  | .memsetwUser dst value count, m => fill value dst.toNat count m
  | .setCursor _ _, m => m
  | .putCursorPos _ _, m => m

/-- The arguments of `bios_print`, without the position, and the bytes that are read from the
string one after the other. -/
structure PrintArgs where
  mi : ModeInfo
  currentPage : ℕ
  page : ℕ
  type : UChar
  defAttr : UChar
  str : ℕ → UChar
  hpage : page < mi.pages

/-- The variables. `str` is the number of bytes that were read. -/
structure PrintState where
  col : ℤ
  row : ℤ
  point : ℤ
  str : ℕ

namespace PrintArgs

variable (a : PrintArgs)

/-- `TTY_BUF(vmtty) + page * TTY_PAGE_SIZE(vmtty)`. -/
def base : ℕ := a.mi.page a.page

/-- `UPDATE_POINT`. -/
def updatePoint (s : PrintState) : PrintState :=
  { s with point := a.base + (s.row * a.mi.cols + s.col) * 2 }

/-- `bios_scroll_up_one`. -/
def scrollUpOne : List PrintOp :=
  [
    .memcpyUser a.base (a.base + a.mi.cols * 2) (a.mi.cols * 2 * (a.mi.rows - 1)),
    .memsetwUser (a.base + a.mi.cols * 2 * (a.mi.rows - 1)) 0x0720 a.mi.cols
  ]

/-- `++row`, with the scrolling at the bottom, and `col = 0`. -/
def nextRow (s : PrintState) : List PrintOp × PrintState :=
  let s := { s with row := s.row + 1, col := 0 }
  if (a.mi.rows : ℤ) ≤ s.row then (a.scrollUpOne, { s with row := s.row - 1 }) else ([], s)

/-- An iteration of the loop. -/
def printChar (s : PrintState) : List PrintOp × PrintState :=
  let c := a.str s.str
  let s := { s with str := s.str + 1 }
  if c = 0x08 then
    let s := { s with col := s.col - 1 }
    if s.col < 0 then
      let s := { s with row := s.row - 1 }
      ([], a.updatePoint (if s.row < 0 then { s with row := 0, col := 0 }
        else { s with col := a.mi.cols - 1 }))
    else ([], a.updatePoint s)
  else if c = 0x0d then ([], a.updatePoint { s with col := 0 })
  else if c = 0x0a then ((a.nextRow s).1, a.updatePoint (a.nextRow s).2)
  else if c = 0x07 then ([], s)
  else
    let s := { s with col := s.col + 1 }
    let r := if (a.mi.cols : ℤ) ≤ s.col then ((a.nextRow s).1, a.updatePoint (a.nextRow s).2)
      else ([], s)
    let s := r.2
    if a.type &&& 2 ≠ 0 then
      (r.1 ++ [.putUserByte s.point c, .putUserByte (s.point + 1) (a.str s.str)],
        { s with point := s.point + 2, str := s.str + 1 })
    else
      (r.1 ++ [.putUserByte s.point c, .putUserByte (s.point + 1) a.defAttr],
        { s with point := s.point + 2 })

/-- `col | (row << 8)`. -/
def cursorWord (col row : ℤ) : UShort := BitVec.ofInt 16 col ||| (BitVec.ofInt 16 row <<< 8)

/-- What follows the loop. -/
def report (col row : ℤ) : List PrintOp :=
  if a.type &&& 1 ≠ 0 then
    (if a.currentPage = a.page then [.setCursor col row] else []) ++
      if a.page < 8 then [.putCursorPos a.page (cursorWord col row)] else []
  else []

/-- The loop, and what follows it. -/
def printLoop : ℕ → PrintState → List PrintOp
  | 0, s => a.report s.col s.row
  | length + 1, s => (a.printChar s).1 ++ printLoop length (a.printChar s).2

end PrintArgs

/-- `bios_print`. -/
def biosPrint (a : PrintArgs) (length : ℕ) (col row : ℤ) : List PrintOp :=
  a.printLoop length (a.updatePoint ⟨col, row, 0, 0⟩)

/-! ## What printing is for -/

/-- A position on the screen. -/
structure Pos (mi : ModeInfo) where
  row : ℕ
  col : ℕ
  hrow : row < mi.rows
  hcol : col < mi.cols

namespace PrintArgs

variable (a : PrintArgs)

/-- The first cell of the next row, after the page was scrolled if there is none. -/
def below (p : Pos a.mi) : List PrintOp × Pos a.mi :=
  if h : p.row + 1 < a.mi.rows then ([], ⟨p.row + 1, 0, h, a.mi.hcols.1⟩)
  else (a.scrollUpOne, ⟨p.row, 0, p.hrow, a.mi.hcols.1⟩)

/-- The next cell. -/
def next (p : Pos a.mi) : List PrintOp × Pos a.mi :=
  if h : p.col + 1 < a.mi.cols then ([], ⟨p.row, p.col + 1, p.hrow, h⟩) else a.below p

/-- The cell before, if there is one. -/
def before (p : Pos a.mi) : Pos a.mi :=
  if 0 < p.col then ⟨p.row, p.col - 1, p.hrow, Nat.lt_of_le_of_lt (Nat.sub_le ..) p.hcol⟩
  else if 0 < p.row then
    ⟨p.row - 1, a.mi.cols - 1, Nat.lt_of_le_of_lt (Nat.sub_le ..) p.hrow,
      Nat.sub_lt a.mi.hcols.1 Nat.one_pos⟩
  else p

/-- A character and its attribute in the cell at `p`. -/
def putCell (p : Pos a.mi) (c attr : UChar) : List PrintOp :=
  [
    .putUserByte (cellAddr a.base a.mi.cols p.row p.col) c,
    .putUserByte (cellAddr a.base a.mi.cols p.row p.col + 1) attr
  ]

/-- An ordinary character. -/
def Ordinary (c : UChar) : Prop := c ≠ 0x08 ∧ c ≠ 0x0d ∧ c ≠ 0x0a ∧ c ≠ 0x07

instance (c : UChar) : Decidable (Ordinary c) := inferInstanceAs (Decidable (_ ∧ _))

/-- The attribute of the ordinary character that is the `k`-th byte. -/
def attrAt (k : ℕ) : UChar := if a.type &&& 2 ≠ 0 then a.str (k + 1) else a.defAttr

/-- Where the character after the one at `k` begins. -/
def after (k : ℕ) : ℕ :=
  if Ordinary (a.str k) ∧ a.type &&& 2 ≠ 0 then k + 2 else k + 1

/-- A character at the position `p`. -/
def printAt (k : ℕ) (p : Pos a.mi) : List PrintOp × Pos a.mi :=
  if a.str k = 0x08 then ([], a.before p)
  else if a.str k = 0x0d then ([], ⟨p.row, 0, p.hrow, a.mi.hcols.1⟩)
  else if a.str k = 0x0a then a.below p
  else if a.str k = 0x07 then ([], p)
  else (a.putCell p (a.str k) (a.attrAt k) ++ (a.next p).1, (a.next p).2)

/-- `length` characters from the `k`-th byte on, with the position that is reported. -/
def printed : ℕ → ℕ → Pos a.mi → List PrintOp
  | 0, _, p => a.report p.col p.row
  | length + 1, k, p => (a.printAt k p).1 ++ printed length (a.after k) (a.printAt k p).2

/-- What is written is in the page. -/
def InPage : PrintOp → Prop
  | .putUserByte addr _ => (a.base : ℤ) ≤ addr ∧ addr < a.base + 2 * (a.mi.rows * a.mi.cols)
  | .memcpyUser dst _ len => (a.base : ℤ) ≤ dst ∧ dst + len ≤ a.base + 2 * (a.mi.rows * a.mi.cols)
  | .memsetwUser dst _ count =>
    (a.base : ℤ) ≤ dst ∧ dst + 2 * count ≤ a.base + 2 * (a.mi.rows * a.mi.cols)
  | _ => True

/-- Printing does what it is for. -/
def Prints (length : ℕ) (p : Pos a.mi) : Prop :=
  biosPrint a length p.col p.row = a.printed length 0 p ∧
    ∀ op ∈ biosPrint a length p.col p.row, a.InPage op

/-- No ordinary character is printed in the last column. -/
def NoWrap : ℕ → ℕ → Pos a.mi → Prop
  | 0, _, _ => True
  | length + 1, k, p =>
    (Ordinary (a.str k) → p.col + 1 < a.mi.cols) ∧
      NoWrap length (a.after k) (a.printAt k p).2

end PrintArgs

end Vmm386.Vbios
