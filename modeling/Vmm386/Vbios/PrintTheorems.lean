import Vmm386.Vbios.Print

/-!
# What `bios_print` prints

As long as the pointer denotes the cell at the row and the column, characters are printed where
they belong (`printChar_stateAt`). A character in the last column is printed in the next row, and
the pointer is one cell ahead from then on (`prints_iff`).
-/

namespace Vmm386.Vbios

open TextPage TtyModule

namespace PrintArgs

variable {a : PrintArgs} {p : Pos a.mi} {k n : ℕ}

/-- The pointer denotes the cell at `p`. -/
def stateAt (a : PrintArgs) (k : ℕ) (p : Pos a.mi) : PrintState :=
  ⟨p.col, p.row, cellAddr a.base a.mi.cols p.row p.col, k⟩

theorem updatePoint_eq (point : ℤ) :
    a.updatePoint ⟨p.col, p.row, point, k⟩ = a.stateAt k p := by
  simp only [updatePoint, stateAt, cellAddr, PrintState.mk.injEq, true_and, and_true]
  push_cast
  ring

theorem nextRow_eq (col point : ℤ) :
    (a.nextRow ⟨col, p.row, point, k⟩).1 = (a.below p).1 ∧
      a.updatePoint (a.nextRow ⟨col, p.row, point, k⟩).2 = a.stateAt k (a.below p).2 := by
  by_cases h : p.row + 1 < a.mi.rows
  · have hnot : ¬(a.mi.rows : ℤ) ≤ p.row + 1 := by omega
    rw [nextRow, below, dif_pos h]
    dsimp only
    rw [if_neg hnot]
    exact ⟨rfl, updatePoint_eq (p := ⟨p.row + 1, 0, h, a.mi.hcols.1⟩) point⟩
  · have hrows : (a.mi.rows : ℤ) ≤ p.row + 1 := by omega
    rw [nextRow, below, dif_neg h]
    dsimp only
    rw [if_pos hrows, add_sub_cancel_right]
    exact ⟨rfl, updatePoint_eq (p := ⟨p.row, 0, p.hrow, a.mi.hcols.1⟩) point⟩

theorem before_eq (point : ℤ) :
    a.updatePoint (if (p.col : ℤ) - 1 < 0 then
      if (p.row : ℤ) - 1 < 0 then ⟨0, 0, point, k⟩ else ⟨a.mi.cols - 1, p.row - 1, point, k⟩
      else ⟨p.col - 1, p.row, point, k⟩) = a.stateAt k (a.before p) := by
  have hcols := a.mi.hcols.1
  unfold before
  split_ifs with hcol hrow hpos hrow' hpos hrow'
  all_goals try omega
  · have hrow0 : p.row = 0 := by omega
    have hcol0 : p.col = 0 := by omega
    have hp : a.stateAt k p = a.updatePoint ⟨p.col, p.row, point, k⟩ := (updatePoint_eq point).symm
    rw [hp, hrow0, hcol0]
    rfl
  · rw [← updatePoint_eq point]
    push_cast [Nat.cast_sub (show 1 ≤ p.row by omega), Nat.cast_sub (show 1 ≤ a.mi.cols by omega)]
    rfl
  · rw [← updatePoint_eq point]
    push_cast [Nat.cast_sub (show 1 ≤ p.col by omega)]
    rfl

theorem after_of_not (h : ¬Ordinary (a.str k)) : a.after k = k + 1 := if_neg fun hc => h hc.1

theorem after_of_ordinary (h : Ordinary (a.str k)) :
    a.after k = if a.type &&& 2 ≠ 0 then k + 2 else k + 1 := by
  simp only [after, h, true_and]

/-- An ordinary character that is not in the last column. -/
theorem printChar_ordinary (h : Ordinary (a.str k)) (hcol : p.col + 1 < a.mi.cols) :
    a.printChar (a.stateAt k p) = ((a.printAt k p).1, a.stateAt (a.after k) (a.printAt k p).2) := by
  obtain ⟨h8, hd, ha, h7⟩ := h
  have hnot : ¬(a.mi.cols : ℤ) ≤ p.col + 1 := by omega
  have hnext : a.next p = ([], ⟨p.row, p.col + 1, p.hrow, hcol⟩) := dif_pos hcol
  have hpoint : (cellAddr a.base a.mi.cols p.row (p.col + 1) : ℤ) =
      cellAddr a.base a.mi.cols p.row p.col + 2 := by
    rw [cellAddr, cellAddr]
    push_cast
    ring
  rw [printAt, if_neg h8, if_neg hd, if_neg ha, if_neg h7, hnext,
    after_of_ordinary ⟨h8, hd, ha, h7⟩]
  unfold printChar stateAt
  dsimp only
  rw [if_neg h8, if_neg hd, if_neg ha, if_neg h7, if_neg hnot, hpoint]
  by_cases htype : a.type &&& 2 ≠ 0
  · rw [if_pos htype, if_pos htype, putCell, attrAt, if_pos htype]
    rfl
  · rw [if_neg htype, if_neg htype, putCell, attrAt, if_neg htype]
    rfl

/-- A character is printed at the position, unless it is an ordinary one in the last column. -/
theorem printChar_stateAt (h : Ordinary (a.str k) → p.col + 1 < a.mi.cols) :
    a.printChar (a.stateAt k p) = ((a.printAt k p).1, a.stateAt (a.after k) (a.printAt k p).2) := by
  by_cases hord : Ordinary (a.str k)
  · exact printChar_ordinary hord (h hord)
  · rw [after_of_not hord]
    unfold printChar printAt stateAt
    dsimp only
    by_cases h8 : a.str k = 0x08
    · rw [if_pos h8, if_pos h8]
      dsimp only
      have hbefore := before_eq (p := p) (k := k + 1) (cellAddr a.base a.mi.cols p.row p.col)
      refine Eq.trans ?_ (congrArg (Prod.mk []) hbefore)
      split_ifs <;> rfl
    · rw [if_neg h8, if_neg h8]
      by_cases hd : a.str k = 0x0d
      · rw [if_pos hd, if_pos hd]
        exact congrArg _ (updatePoint_eq (p := ⟨p.row, 0, p.hrow, a.mi.hcols.1⟩) _)
      · rw [if_neg hd, if_neg hd]
        by_cases ha : a.str k = 0x0a
        · rw [if_pos ha, if_pos ha]
          have hnext := nextRow_eq (p := p) (k := k + 1) p.col
            (cellAddr a.base a.mi.cols p.row p.col)
          exact Prod.ext hnext.1 hnext.2
        · rw [if_neg ha, if_neg ha]
          have h7 : a.str k = 0x07 := by_contra fun h7 => hord ⟨h8, hd, ha, h7⟩
          rw [if_pos h7, if_pos h7]

/-- What a wrap begins with is not the last cell of the row. -/
theorem head_below (c : UChar) (op : PrintOp) :
    ∃ first, ((a.below p).1 ++
        [.putUserByte (a.stateAt k (a.below p).2).point c, op]).head? = some first ∧
      first ≠ .putUserByte (cellAddr a.base a.mi.cols p.row p.col) c := by
  by_cases hrow : p.row + 1 < a.mi.rows
  · have hbelow : a.below p = ([], ⟨p.row + 1, 0, hrow, a.mi.hcols.1⟩) := dif_pos hrow
    rw [hbelow]
    refine ⟨_, rfl, fun heq => ?_⟩
    have haddr := (PrintOp.putUserByte.inj heq).1
    have hinj : p.row + 1 = p.row ∧ 0 = p.col :=
      cellAddr_inj a.mi.hcols.1 p.hcol (Int.ofNat.inj haddr)
    omega
  · have hbelow : a.below p = (a.scrollUpOne, ⟨p.row, 0, p.hrow, a.mi.hcols.1⟩) := dif_neg hrow
    rw [hbelow]
    exact ⟨_, rfl, nofun⟩

/-- An ordinary character in the last column is not printed there. -/
theorem printChar_wrap (h : Ordinary (a.str k)) (hcol : ¬p.col + 1 < a.mi.cols) :
    ∃ first, (a.printChar (a.stateAt k p)).1.head? = some first ∧
      first ≠ .putUserByte (cellAddr a.base a.mi.cols p.row p.col) (a.str k) := by
  obtain ⟨h8, hd, ha, h7⟩ := h
  have hcols : (a.mi.cols : ℤ) ≤ p.col + 1 := by omega
  unfold printChar stateAt
  dsimp only
  rw [if_neg h8, if_neg hd, if_neg ha, if_neg h7, if_pos hcols]
  dsimp only
  have hnext := nextRow_eq (p := p) (k := k + 1) (p.col + 1)
    (cellAddr a.base a.mi.cols p.row p.col)
  rw [hnext.1, hnext.2]
  split
  · exact head_below _ _
  · exact head_below _ _

/-! ## Strings -/

theorem printLoop_stateAt (h : a.NoWrap n k p) :
    a.printLoop n (a.stateAt k p) = a.printed n k p := by
  induction n generalizing k p with
  | zero => rfl
  | succ n ih =>
    rw [printLoop, printed, printChar_stateAt h.1, ih h.2]

theorem noWrap_of_printLoop (h : a.printLoop n (a.stateAt k p) = a.printed n k p) :
    a.NoWrap n k p := by
  induction n generalizing k p with
  | zero => trivial
  | succ n ih =>
    rw [printLoop, printed] at h
    by_cases hcol : Ordinary (a.str k) → p.col + 1 < a.mi.cols
    · rw [printChar_stateAt hcol] at h
      exact ⟨hcol, ih (List.append_cancel_left h)⟩
    · -- the two lists differ in what comes next
      obtain ⟨hord, hcol⟩ := Classical.not_imp.mp hcol
      obtain ⟨first, hfirst, hne⟩ := printChar_wrap hord hcol
      obtain ⟨h8, hd, ha, h7⟩ := hord
      have hhead := congrArg List.head? h
      rw [List.head?_append, hfirst, printAt, if_neg h8, if_neg hd, if_neg ha, if_neg h7] at hhead
      exact absurd (Option.some.inj hhead) hne

/-! ## The page -/

theorem putCell_inPage (c attr : UChar) : ∀ op ∈ a.putCell p c attr, a.InPage op := by
  have hlt : p.row * a.mi.cols + p.col < a.mi.rows * a.mi.cols := cell_lt p.hrow p.hcol
  simp only [putCell, List.mem_cons, List.not_mem_nil, or_false, forall_eq_or_imp, forall_eq,
    InPage, cellAddr]
  omega

theorem scrollUpOne_inPage : ∀ op ∈ a.scrollUpOne, a.InPage op := by
  obtain ⟨rows, hrows⟩ : ∃ rows, a.mi.rows = rows + 1 := ⟨a.mi.rows - 1, by have := a.mi.hrows; omega⟩
  simp only [scrollUpOne, List.mem_cons, List.not_mem_nil, or_false, forall_eq_or_imp, forall_eq,
    InPage, hrows, Nat.add_sub_cancel]
  push_cast
  refine ⟨⟨by omega, ?_⟩, ?_, ?_⟩ <;> nlinarith

theorem below_inPage : ∀ op ∈ (a.below p).1, a.InPage op := by
  unfold below
  split
  · exact fun op h => absurd h List.not_mem_nil
  · exact scrollUpOne_inPage

theorem printAt_inPage : ∀ op ∈ (a.printAt k p).1, a.InPage op := by
  unfold printAt
  split_ifs
  · exact fun op h => absurd h List.not_mem_nil
  · exact fun op h => absurd h List.not_mem_nil
  · exact below_inPage
  · exact fun op h => absurd h List.not_mem_nil
  · intro op h
    rcases List.mem_append.mp h with h | h
    · exact putCell_inPage _ _ op h
    · unfold next at h
      split at h
      · exact absurd h List.not_mem_nil
      · exact below_inPage op h

theorem printed_inPage : ∀ op ∈ a.printed n k p, a.InPage op := by
  induction n generalizing k p with
  | zero =>
    intro op h
    rw [printed, report] at h
    cases op with
    | setCursor | putCursorPos => trivial
    | putUserByte | memcpyUser | memsetwUser =>
      exfalso
      split_ifs at h <;> simp at h
  | succ n ih =>
    intro op h
    rcases List.mem_append.mp h with h | h
    · exact printAt_inPage op h
    · exact ih op h

/-- What `bios_scroll_up_one` does to the page. -/
theorem scrollUpOne_cell {m : Mem} {row col : ℕ} (hrow : row < a.mi.rows) (hcol : col < a.mi.cols) :
    a.mi.cell a.page (a.scrollUpOne.foldl (fun m op => op.apply m) m) row col =
      if row + 1 < a.mi.rows then a.mi.cell a.page m (row + 1) col else 0x0720 := by
  obtain ⟨rows, hrows⟩ : ∃ rows, a.mi.rows = rows + 1 :=
    ⟨a.mi.rows - 1, by have := a.mi.hrows; omega⟩
  have hlast : (a.base + a.mi.cols * 2 * (a.mi.rows - 1) : ℤ).toNat =
      cellAddr a.base a.mi.cols rows 0 := by
    rw [hrows, cellAddr]
    push_cast
    rw [add_sub_cancel_right, ← Int.toNat_natCast (a.base + 2 * (rows * a.mi.cols + 0))]
    push_cast
    ring_nf
  have hsecond : (a.base + a.mi.cols * 2 : ℤ).toNat = a.base + a.mi.cols * 2 := by omega
  simp only [scrollUpOne, List.foldl_cons, List.foldl_nil, PrintOp.apply, hlast, hsecond,
    Int.toNat_natCast]
  rw [ModeInfo.cell, ← base, word_fill_row hcol (Nat.zero_le _) (by omega) (by omega)]
  by_cases hlt : row < rows
  · rw [if_neg (by omega), if_pos (by omega), ModeInfo.cell, ← base]
    have hcell : row * a.mi.cols + col < rows * a.mi.cols := cell_lt hlt hcol
    have hlen : a.mi.cols * 2 * (a.mi.rows - 1) = 2 * (rows * a.mi.cols) := by
      rw [hrows, Nat.add_sub_cancel]
      ring
    have hcopy : ∀ b < 2, copy a.base (a.base + a.mi.cols * 2) (a.mi.cols * 2 * (a.mi.rows - 1)) m
        (cellAddr a.base a.mi.cols row col + b) =
          m (cellAddr a.base a.mi.cols (row + 1) col + b) := by
      intro b hb
      rw [copy, hlen, if_pos (by rw [cellAddr]; omega)]
      congr 1
      rw [cellAddr, cellAddr, Nat.succ_mul row]
      omega
    rw [word, word, hcopy 1 (by decide)]
    exact congrArg _ (hcopy 0 (by decide))
  · rw [if_pos (by omega), if_neg (by omega)]

theorem noWrap_of_prints {length : ℕ} (h : a.Prints length p) : a.NoWrap length 0 p := by
  have hloop := h.1
  rw [biosPrint, updatePoint_eq] at hloop
  exact noWrap_of_printLoop hloop

/-- Which strings are printed right. -/
theorem prints_iff (a : PrintArgs) (length : ℕ) (p : Pos a.mi) :
    a.Prints length p ↔ a.NoWrap length 0 p := by
  refine ⟨noWrap_of_prints, fun h => ?_⟩
  rw [Prints, biosPrint, updatePoint_eq, printLoop_stateAt h]
  exact ⟨rfl, printed_inPage⟩

/-- One character in the last column of the first row. -/
theorem lastColumn_not_printed :
    ¬∀ (a : PrintArgs) (length : ℕ) (p : Pos a.mi), a.Prints length p := by
  intro h
  let mode3 : ModeInfo := {
    cols := 80
    rows := 25
    buffer := 0xb8000
    pageSize := 4096
    pages := 4
    hcols := by decide
    hrows := by decide
    hpages := by decide
    htop := by decide }
  have hwrap := (noWrap_of_prints (h ⟨mode3, 0, 0, 0, 7, fun _ => 0x41, by decide⟩ 1
    ⟨0, 79, by decide, by decide⟩)).1
  exact absurd (hwrap (by decide)) (by decide)

end PrintArgs

end Vmm386.Vbios
