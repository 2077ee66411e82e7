import Vmm386.Tty.Tty
import Vmm386.Vbios.FrameTheorems

/-!
# Character cells

Functions 2, 8, 9 and 10 of `INT 10h`: the cursor is placed on a page, and cells from there on are
written or read.
-/

namespace Vmm386.Vbios.Handlers

open TextPage TtyModule
open Vcmos (get8 get8h set8 set8h)

/-- What comes after a call of `INT 10h`, the tty apart. -/
def World.after (w : World) (r : Vm86Regs) : World :=
  { w with mem := stores w.mem (vbiosVideoHandler w r).2 }

/-- A page of a text screen and a call of function 2 for a position on the screen. The display memory
is behind the BIOS data area. -/
structure TextCursor where
  world : World
  mi : ModeInfo
  hcols : world.tty.cols = BitVec.ofNat 32 mi.cols
  hbuffer : world.tty.buffer = BitVec.ofNat 32 mi.buffer
  hpageSize : world.tty.pageSize = BitVec.ofNat 32 mi.pageSize
  hbios : 0x500 ≤ mi.buffer
  set : Vm86Regs
  hset : get8h set.eax = 2
  hpage : (get8h set.ebx).toNat < mi.pages ∧ (get8h set.ebx).toNat < 8
  hrow : (get8h set.edx).toNat < mi.rows
  hcol : (get8 set.edx).toNat < mi.cols

namespace TextCursor

variable (t : TextCursor)

/-- The page, the row and the column. -/
def page : ℕ := (get8h t.set.ebx).toNat

def row : ℕ := (get8h t.set.edx).toNat

def col : ℕ := (get8 t.set.edx).toNat

/-- The world with the cursor in its place. -/
def placed : World := t.world.after t.set

/-- The cell at the cursor. -/
def cell : ℕ := cellAddr (t.mi.page t.page) t.mi.cols t.row t.col

/-- A call of another function for the same page. -/
structure Call (fn : UChar) where
  regs : Vm86Regs
  hfn : get8h regs.eax = fn
  hpage : get8h regs.ebx = get8h t.set.ebx

/-- A call for as many cells as are left on the page: on its screen, or in its memory if that is
more. -/
structure CountCall (fn : UChar) extends t.Call fn where
  hcount : t.row * t.mi.cols + t.col + (get16 regs.ecx).toNat ≤
    max (t.mi.rows * t.mi.cols) (t.mi.pageSize / 2)

namespace CountCall

variable {t : TextCursor} {fn : UChar} (c : t.CountCall fn)

def count : ℕ := (get16 c.regs.ecx).toNat

/-- The character. -/
def char : UChar := get8 c.regs.eax

def attr : UChar := get8 c.regs.ebx

end CountCall

/-- What the functions are for. -/
structure CellsRight (fill : t.CountCall 9) (put : t.CountCall 10) (read : t.Call 8) : Prop where
  /-- To place the cursor changes no cell. -/
  placed : ∀ a, 0x500 ≤ a → t.placed.mem a = t.world.mem a
  filled : ∀ k < fill.count,
    word (t.placed.after fill.regs).mem (t.cell + 2 * k) = fill.attr ++ fill.char
  fillKeeps : ∀ a, ¬ (t.cell ≤ a ∧ a < t.cell + 2 * fill.count) →
    (t.placed.after fill.regs).mem a = t.placed.mem a
  charsPut : ∀ k < put.count, (t.placed.after put.regs).mem (t.cell + 2 * k) = put.char
  putKeeps : ∀ a, (∀ k < put.count, a ≠ t.cell + 2 * k) →
    (t.placed.after put.regs).mem a = t.placed.mem a
  reads : get16 (vbiosVideoHandler t.placed read.regs).1.eax = word t.placed.mem t.cell
  readKeeps : (t.placed.after read.regs).mem = t.placed.mem
  roundTrip : 0 < fill.count →
    get16 (vbiosVideoHandler (t.placed.after fill.regs) read.regs).1.eax = fill.attr ++ fill.char

/-! ## Addresses -/

variable {t : TextCursor}

theorem page_top : t.mi.page t.page + t.mi.pageSize ≤ 2 ^ 32 := by
  have hmul : (t.page + 1) * t.mi.pageSize ≤ t.mi.pages * t.mi.pageSize :=
    Nat.mul_le_mul_right _ t.hpage.1
  have htop := t.mi.htop
  rw [Nat.succ_mul] at hmul
  rw [ModeInfo.page]
  omega

/-- The cells of a call do not wrap around. -/
theorem CountCall.top {fn : UChar} (c : t.CountCall fn) : t.cell + 2 * c.count ≤ 2 ^ 32 := by
  have hscreen := t.mi.page_le t.hpage.1
  have hpage := t.page_top
  have hcount := c.hcount
  rw [CountCall.count, cell, cellAddr]
  change t.mi.page t.page + 2 * (t.mi.rows * t.mi.cols) ≤ 2 ^ 32 at hscreen
  omega

theorem cell_lt : t.cell + 1 < 2 ^ 32 := by
  have hscreen := t.mi.page_le t.hpage.1
  have hlt := TextPage.cell_lt t.hrow t.hcol
  change t.mi.page t.page + 2 * (t.mi.rows * t.mi.cols) ≤ 2 ^ 32 at hscreen
  rw [cell, cellAddr, row, col]
  omega

theorem bios_lt : 0x500 ≤ t.cell := by
  have hbios := t.hbios
  rw [cell, cellAddr, ModeInfo.page]
  omega

theorem toNat_cursorPos : (cursorPos (get8h t.set.ebx)).toNat = 0x450 + 2 * t.page := by
  have hpage : t.page < 8 := t.hpage.2
  have hbase : CURSOR_POS.toNat = 0x450 := rfl
  have htwo : (2 : ULong).toNat = 2 := rfl
  have hext : ((get8h t.set.ebx).zeroExtend 32).toNat = t.page :=
    BitVec.toNat_setWidth_of_le (by decide)
  rw [cursorPos, BitVec.toNat_add, BitVec.toNat_mul, hext, hbase, htwo]
  omega

/-! ## The calls -/

theorem video_place {w : World} {r : Vm86Regs} (h : get8h r.eax = 2) : vbiosVideoHandler w r =
    (r, [.store (.putUserShort (get16 r.edx) (cursorPos (get8h r.ebx)))] ++
      if get8h r.ebx = w.tty.currentPage then [.setCursor (get8 r.edx) (get8h r.edx)] else []) := by
  rw [vbiosVideoHandler, h]
  rfl

theorem video_read {w : World} {r : Vm86Regs} (h : get8h r.eax = 8) : vbiosVideoHandler w r =
    ({ r with
        eax := set16 r.eax
          ((getUserShort w.mem (cursorCell w (get8h r.ebx))).zeroExtend 32) }, []) := by
  rw [vbiosVideoHandler, h]
  rfl

/-- The filler is cut to the character. -/
theorem video_fill {w : World} {r : Vm86Regs} (h : get8h r.eax = 9) : vbiosVideoHandler w r =
    (r, [.store (.memset (cursorCell w (get8h r.ebx)) (get8 r.eax)
      ((get16 r.ecx).zeroExtend 32))]) := by
  have hfiller : ((get8 r.eax).zeroExtend 16 ||| ((get8 r.ebx).zeroExtend 16 <<< 8) :
      UShort).truncate 8 = get8 r.eax := by
    ext i hi
    simp
  rw [vbiosVideoHandler, h]
  conv_rhs => rw [← hfiller]
  rfl

theorem video_put {w : World} {r : Vm86Regs} (h : get8h r.eax = 10) : vbiosVideoHandler w r =
    (r, putChars (get8 r.eax) (cursorCell w (get8h r.ebx)) (get16 r.ecx).toNat) := by
  rw [vbiosVideoHandler, h]
  rfl

/-! ## The cursor -/

theorem toNat_get8 (x : ULong) : (get8 x).toNat = x.toNat % 256 := by
  have hmask : (0xff : ULong).toNat = 2 ^ 8 - 1 := rfl
  rw [get8, BitVec.truncate_eq_setWidth, BitVec.toNat_setWidth, BitVec.toNat_and, hmask,
    Nat.and_two_pow_sub_one_eq_mod]
  omega

theorem get8h_eq (x : ULong) : get8h x = (x >>> 8).truncate 8 := by
  have hones : BitVec.setWidth 8 ((0xff00 : ULong) >>> 8) = BitVec.allOnes 8 := by decide
  rw [get8h, BitVec.ushiftRight_and_distrib, BitVec.truncate_eq_setWidth, BitVec.setWidth_and, hones,
    BitVec.and_allOnes]

theorem toNat_get8h (x : ULong) : (get8h x).toNat = x.toNat / 256 % 256 := by
  rw [get8h_eq, BitVec.truncate_eq_setWidth, BitVec.toNat_setWidth, BitVec.toNat_ushiftRight,
    Nat.shiftRight_eq_div_pow]

/-- The two bytes of a cursor position. -/
theorem toNat_cursor_row (x : ULong) : (get16 x >>> 8).toNat = (get8h x).toNat := by
  rw [toNat_get8h, BitVec.toNat_ushiftRight, Nat.shiftRight_eq_div_pow, get16_eq,
    BitVec.truncate_eq_setWidth, BitVec.toNat_setWidth]
  omega

theorem toNat_cursor_col (x : ULong) : (get16 x &&& 255).toNat = (get8 x).toNat := by
  have hmask : (255 : UShort).toNat = 2 ^ 8 - 1 := rfl
  rw [toNat_get8, BitVec.toNat_and, hmask, Nat.and_two_pow_sub_one_eq_mod, get16_eq,
    BitVec.truncate_eq_setWidth, BitVec.toNat_setWidth]
  omega

theorem placed_mem : t.placed.mem = putBytes t.world.mem (0x450 + 2 * t.page)
    [(get16 t.set.edx).truncate 8, (get16 t.set.edx >>> 8).truncate 8] := by
  rw [placed, World.after, video_place t.hset, ← toNat_cursorPos]
  split_ifs
  · rfl
  · rfl

/-- Only the position of the cursor is written. -/
theorem placed_mem_of_ne {a : ℕ} (h : 0x460 ≤ a) : t.placed.mem a = t.world.mem a := by
  have hpage : t.page < 8 := t.hpage.2
  have h₀ : a ≠ 0x450 + 2 * t.page := by omega
  have h₁ : a ≠ 0x450 + 2 * t.page + 1 := by omega
  rw [placed_mem, putBytes, putBytes, putBytes, Function.update_of_ne h₁, Function.update_of_ne h₀]

theorem word_putBytes (m : Mem) (a : ℕ) (b₀ b₁ : UChar) :
    word (putBytes m a [b₀, b₁]) a = b₁ ++ b₀ := by
  have hne : a ≠ a + 1 := by omega
  rw [word, putBytes, putBytes, putBytes, Function.update_self, Function.update_of_ne hne,
    Function.update_self]

theorem cursor_eq {w : World} (hmem : ∀ a, a < 0x500 → w.mem a = t.placed.mem a) :
    getUserShort w.mem (cursorPos (get8h t.set.ebx)) = get16 t.set.edx := by
  have hpage : t.page < 8 := t.hpage.2
  rw [getUserShort, toNat_cursorPos, word_congr (hmem _ (by omega)) (hmem _ (by omega)), placed_mem,
    word_putBytes, word_append]

/-- The cell that the functions compute, as long as the position of the cursor is what was set. -/
theorem cursorCell_eq {w : World} (htty : w.tty = t.world.tty)
    (hmem : ∀ a, a < 0x500 → w.mem a = t.placed.mem a) :
    (cursorCell w (get8h t.set.ebx)).toNat = t.cell := by
  have hlt := t.cell_lt
  have hpage : ((get8h t.set.ebx).zeroExtend 32).toNat = t.page :=
    BitVec.toNat_setWidth_of_le (by decide)
  have hrow : ((get16 t.set.edx >>> 8).zeroExtend 32).toNat = t.row :=
    (BitVec.toNat_setWidth_of_le (by decide)).trans (toNat_cursor_row _)
  have hcol : ((get16 t.set.edx &&& 255).zeroExtend 32).toNat = t.col :=
    (BitVec.toNat_setWidth_of_le (by decide)).trans (toNat_cursor_col _)
  have htwo : (2 : ULong).toNat = 2 := rfl
  have hcols : t.mi.cols % 2 ^ 32 = t.mi.cols := Nat.mod_eq_of_lt (by have := t.mi.hcols; omega)
  have hsize : t.mi.pageSize % 2 ^ 32 = t.mi.pageSize := by
    refine Nat.mod_eq_of_lt ?_
    have htop := t.page_top
    have hbios := t.hbios
    rw [ModeInfo.page] at htop
    omega
  rw [cell, cellAddr, ModeInfo.page, Nat.mul_comm t.page] at hlt ⊢
  rw [cursorCell, cursor_eq hmem, biosFindPage, htty, t.hbuffer, t.hpageSize, t.hcols]
  simp only [BitVec.toNat_add, BitVec.toNat_mul, BitVec.toNat_ofNat, hpage, hrow, hcol, htwo, hcols,
    hsize]
  generalize t.mi.pageSize * t.page = k at hlt
  generalize t.row * t.mi.cols = l at hlt
  omega

/-! ## The functions -/

theorem mem_after_fill (fill : t.CountCall 9) :
    (t.placed.after fill.regs).mem = fun a =>
      if t.cell ≤ a ∧ a < t.cell + fill.count then fill.char else t.placed.mem a := by
  have hcount : ((get16 fill.regs.ecx).zeroExtend 32).toNat = fill.count :=
    BitVec.toNat_setWidth_of_le (by decide)
  have hcell : (cursorCell t.placed (get8h t.set.ebx)).toNat = t.cell :=
    cursorCell_eq rfl fun _ _ => rfl
  rw [World.after, video_fill fill.hfn, fill.hpage, ← hcount, ← hcell]
  rfl

theorem mem_after_put (put : t.CountCall 10) :
    (t.placed.after put.regs).mem =
      stores t.placed.mem (putChars put.char (cursorCell t.placed (get8h t.set.ebx)) put.count) := by
  rw [World.after, video_put put.hfn, put.hpage]
  rfl

/-- The loop of function 10. -/
theorem stores_putChars {m : Mem} {c : UChar} {buf : ULong} {count : ℕ}
    (htop : buf.toNat + 2 * count ≤ 2 ^ 32) :
    (∀ k < count, stores m (putChars c buf count) (buf.toNat + 2 * k) = c) ∧
      ∀ a, (∀ k < count, a ≠ buf.toNat + 2 * k) → stores m (putChars c buf count) a = m a := by
  induction count with
  | zero => exact ⟨fun k hk => absurd hk (Nat.not_lt_zero k), fun a _ => rfl⟩
  | succ n ih =>
    obtain ⟨hin, hout⟩ := ih (by omega)
    have haddr : (buf + 2 * BitVec.ofNat 32 n).toNat = buf.toNat + 2 * n := by
      have htwo : (2 : ULong).toNat = 2 := rfl
      rw [BitVec.toNat_add, BitVec.toNat_mul, BitVec.toNat_ofNat, htwo]
      omega
    have hlast : stores m (putChars c buf (n + 1)) =
        Function.update (stores m (putChars c buf n)) (buf.toNat + 2 * n) c := by
      rw [← haddr]
      simp [putChars, stores, List.range_succ, Store.apply, putBytes]
    rw [hlast]
    constructor
    · intro k hk
      rcases Nat.lt_succ_iff_lt_or_eq.mp hk with hlt | rfl
      · rw [Function.update_of_ne (by omega)]
        exact hin k hlt
      · exact Function.update_self ..
    · intro a ha
      rw [Function.update_of_ne (ha n (Nat.lt_succ_self n))]
      exact hout a fun k hk => ha k (Nat.lt_succ_of_lt hk)

/-- Function 8, as long as the position of the cursor is what was set. -/
theorem ax_read (read : t.Call 8) {w : World} (htty : w.tty = t.world.tty)
    (hmem : ∀ a, a < 0x500 → w.mem a = t.placed.mem a) :
    get16 (vbiosVideoHandler w read.regs).1.eax = word w.mem t.cell := by
  rw [video_read read.hfn, get16_set16, read.hpage, getUserShort, cursorCell_eq htty hmem]
  ext i hi
  simp

theorem mem_after_read (read : t.Call 8) : (t.placed.after read.regs).mem = t.placed.mem := by
  rw [World.after, video_read read.hfn]
  rfl

/-! ## Function 9 -/

/-- The bytes that function 9 leaves out are already what they should be: those of its first half
that are attributes, and all of its second half. -/
def CountCall.Settled (fill : t.CountCall 9) : Prop :=
  (fill.count < 2 ∨ fill.attr = fill.char) ∧
    ∀ j, fill.count ≤ j → j < 2 * fill.count →
      t.world.mem (t.cell + j) = if j % 2 = 0 then fill.char else fill.attr

theorem append_inj {a a' b b' : UChar} (h : a ++ b = a' ++ b') : a = a' ∧ b = b' := by
  constructor
  · have hhigh := congrArg (BitVec.extractLsb' 8 8) h
    rwa [BitVec.extractLsb'_append_eq_left, BitVec.extractLsb'_append_eq_left] at hhigh
  · have hlow := congrArg (BitVec.extractLsb' 0 8) h
    rwa [BitVec.extractLsb'_append_eq_right, BitVec.extractLsb'_append_eq_right] at hlow

/-- The cells hold the character and the attribute exactly if each byte does. -/
theorem filled_iff {m : Mem} {a count : ℕ} {attr char : UChar} :
    (∀ k < count, word m (a + 2 * k) = attr ++ char) ↔
      ∀ j < 2 * count, m (a + j) = if j % 2 = 0 then char else attr := by
  constructor
  · intro h j hj
    obtain ⟨hhigh, hlow⟩ := append_inj (h (j / 2) (by omega))
    by_cases heven : j % 2 = 0
    · rw [if_pos heven, ← hlow]
      congr 1
      omega
    · rw [if_neg heven, ← hhigh]
      congr 1
      omega
  · intro h k hk
    have hlow := h (2 * k) (by omega)
    have hhigh := h (2 * k + 1) (by omega)
    rw [if_pos (by omega)] at hlow
    rw [if_neg (by omega)] at hhigh
    rw [word, hlow, Nat.add_assoc, hhigh]

theorem settled_iff (fill : t.CountCall 9) :
    (∀ k < fill.count, word (t.placed.after fill.regs).mem (t.cell + 2 * k) =
      fill.attr ++ fill.char) ↔ fill.Settled := by
  have hbios := t.bios_lt
  have hmem : ∀ j, (t.placed.after fill.regs).mem (t.cell + j) =
      if j < fill.count then fill.char else t.world.mem (t.cell + j) := by
    intro j
    rw [mem_after_fill]
    by_cases hj : j < fill.count
    · exact (if_pos (by omega)).trans (if_pos hj).symm
    · rw [if_neg hj, ← placed_mem_of_ne (a := t.cell + j) (by omega)]
      exact if_neg (by omega)
  rw [filled_iff]
  constructor
  · intro h
    refine ⟨?_, fun j hge hlt => ?_⟩
    · by_cases hcount : fill.count < 2
      · exact .inl hcount
      · -- the attribute of the first cell
        have hone := h 1 (by omega)
        rw [hmem, if_pos (by omega), if_neg (by decide)] at hone
        exact .inr hone.symm
    · rw [← h j hlt, hmem, if_neg (by omega)]
  · intro ⟨hsame, hrest⟩ j hj
    rw [hmem]
    by_cases hfirst : j < fill.count
    · rw [if_pos hfirst]
      split_ifs with heven
      · rfl
      · rcases hsame with hcount | hattr
        · omega
        · exact hattr.symm
    · rw [if_neg hfirst]
      exact hrest j (by omega) hj

/-- **Character cells.** Functions 2, 8 and 10 do what they are for; function 9 does exactly if the
bytes that it leaves out already hold what they should. -/
theorem cells_right_iff (t : TextCursor) (fill : t.CountCall 9) (put : t.CountCall 10)
    (read : t.Call 8) : t.CellsRight fill put read ↔ fill.Settled := by
  refine ⟨fun h => (settled_iff fill).mp h.filled, fun h => ?_⟩
  have hbios := t.bios_lt
  have hcell : (cursorCell t.placed (get8h t.set.ebx)).toNat = t.cell :=
    cursorCell_eq rfl fun _ _ => rfl
  have hfilled := (settled_iff fill).mpr h
  have hput := @stores_putChars t.placed.mem put.char (cursorCell t.placed (get8h t.set.ebx))
    put.count (by rw [hcell]; exact put.top)
  rw [hcell] at hput
  have hkeeps : ∀ a, ¬ (t.cell ≤ a ∧ a < t.cell + 2 * fill.count) →
      (t.placed.after fill.regs).mem a = t.placed.mem a := by
    intro a ha
    rw [mem_after_fill]
    exact if_neg (by omega)
  refine ⟨fun a ha => placed_mem_of_ne (by omega), hfilled, hkeeps, ?_, ?_,
    ax_read read rfl fun _ _ => rfl, mem_after_read read, fun hpos => ?_⟩
  · rw [mem_after_put]
    exact hput.1
  · rw [mem_after_put]
    exact hput.2
  · rw [ax_read read (w := t.placed.after fill.regs) rfl fun a ha => hkeeps a (by omega)]
    exact hfilled 0 hpos

end TextCursor

/-- Registers of a call, the upper halves and the others zero. -/
def callRegs (ax bx cx dx : ULong) : Vm86Regs :=
  ⟨ax, bx, cx, dx, 0, 0, 0, 0, 0, 0, 0, 0, 0, 0, 0, 0⟩

/-- The top left corner of page 0 of a screen of 25 rows with 80 columns. -/
def topLeft : TextCursor where
  world := emptyWorld
  mi := ⟨80, 25, 0xb8000, 4096, 4, mode3_cols, mode3_rows, mode3_pages, mode3_top⟩
  hcols := rfl
  hbuffer := rfl
  hpageSize := rfl
  hbios := by decide
  set := callRegs 0x0200 0 0 0
  hset := by decide
  hpage := by decide
  hrow := by decide
  hcol := by decide

/-- Two cells with an `A` of attribute 7. -/
def twoCells : topLeft.CountCall 9 where
  regs := callRegs 0x0941 0x0007 2 0
  hfn := by decide
  hpage := by decide
  hcount := by decide

/-- One cell with an `A`, its attribute left alone. -/
def oneChar : topLeft.CountCall 10 where
  regs := callRegs 0x0a41 0 1 0
  hfn := by decide
  hpage := by decide
  hcount := by decide

def readCell : topLeft.Call 8 where
  regs := callRegs 0x0800 0 0 0
  hfn := by decide
  hpage := by decide

theorem twoCells_not_filled : ¬ topLeft.CellsRight twoCells oneChar readCell := by
  intro h
  rcases ((TextCursor.settled_iff twoCells).mp h.filled).1 with hcount | hattr
  · exact absurd hcount (by decide)
  · exact absurd hattr (by decide)

end Vmm386.Vbios.Handlers
