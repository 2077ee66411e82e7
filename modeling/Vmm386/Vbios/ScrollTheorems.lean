import Vmm386.Vbios.Scroll

/-!
# What scrolling does

Scrolling is right only when the whole window is blanked (`scrolls_iff`). Otherwise
`bios_scroll_up` blanks one row too many, and `bios_scroll_down` never writes the last row, if it
ends at all.
-/

namespace Vmm386.Vbios

open ForLoop TextPage TtyModule

variable {t : VmTty} {m m' : Mem} {attr : UChar} {n i : ULong} {row col b : ℕ}

/-! ## Rows -/

theorem toNat_vmem : t.vmem.toNat = t.mi.page t.currentPage := by
  have hle := t.mi.page_le t.hpage
  have hpos : 0 < t.mi.rows * t.mi.cols := Nat.mul_pos t.mi.hrows.1 t.mi.hcols.1
  rw [VmTty.vmem, BitVec.toNat_ofNat]
  exact Nat.mod_eq_of_lt (by omega)

theorem toNat_rowAddr (leftCol i : ULong) (hi : i.toNat < t.mi.rows)
    (hcol : leftCol.toNat < t.mi.cols) :
    (t.rowAddr leftCol i).toNat =
      cellAddr (t.mi.page t.currentPage) t.mi.cols i.toNat leftCol.toNat := by
  have hle := t.mi.page_le t.hpage
  have hlt : i.toNat * t.mi.cols + leftCol.toNat < t.mi.rows * t.mi.cols := cell_lt hi hcol
  have hcols : t.mi.cols % 2 ^ 32 = t.mi.cols := Nat.mod_eq_of_lt (by have := t.mi.hcols; omega)
  have htwo : (2 : ULong).toNat = 2 := rfl
  rw [VmTty.rowAddr, cellAddr]
  simp only [BitVec.toNat_add, BitVec.toNat_mul, BitVec.toNat_ofNat, toNat_vmem, hcols, htwo]
  generalize i.toNat * t.mi.cols = k at hlt
  omega

namespace Window

variable {w : Window t}

theorem toNat_width : (w.rightCol - w.leftCol + 1).toNat =
    w.rightCol.toNat - w.leftCol.toNat + 1 := by
  have hcol : w.leftCol.toNat < w.rightCol.toNat := w.hcol
  have hlt := w.rightCol.isLt
  have hcols := w.hcols
  have hbound := t.mi.hcols.2
  rw [BitVec.toNat_add, BitVec.toNat_sub]
  show ((2 ^ 32 - w.leftCol.toNat + w.rightCol.toNat) % 2 ^ 32 + 1) % 2 ^ 32 = _
  omega

/-- The memory when the rows from `a` up to `b` of the window are blank. -/
structure Blanked (w : Window t) (attr : UChar) (m : Mem) (a b : ℕ) (m' : Mem) : Prop where
  cells : ∀ row col, w.Holds row col → t.mi.cell t.currentPage m' row col =
    if a ≤ row ∧ row < b then blank attr else t.mi.cell t.currentPage m row col
  outside : ∀ a, (∀ row col, w.Holds row col →
    a ≠ cellAddr (t.mi.page t.currentPage) t.mi.cols row col ∧
      a ≠ cellAddr (t.mi.page t.currentPage) t.mi.cols row col + 1) → m' a = m a

theorem Blanked.refl {a : ℕ} : w.Blanked attr m a a m where
  cells := fun row col _ => (if_neg (by omega)).symm
  outside := fun _ _ => rfl

/-- One more row. -/
theorem Blanked.blankRow {a : ℕ} (ha : w.leftRow.toNat ≤ a) (hai : a ≤ i.toNat)
    (hi : i.toNat ≤ w.rightRow.toNat) (h : w.Blanked attr m a i.toNat m') :
    w.Blanked attr m a (i.toNat + 1) (blankRow t attr w.leftCol w.rightCol i m') := by
  have hcol : w.leftCol.toNat < w.rightCol.toNat := w.hcol
  have haddr := toNat_rowAddr w.leftCol i (lt_of_le_of_lt hi w.hrows)
    (lt_of_le_of_lt hcol.le w.hcols)
  have hcols := w.hcols
  constructor
  · rintro row col ⟨hlo, hhi, hleft, hright⟩
    rw [ModeInfo.cell, Vbios.blankRow, haddr, toNat_width,
      word_fill_row (by omega) hleft (by omega) (by omega)]
    split_ifs with hrow hin hin
    · rfl
    · exact absurd ⟨by omega, by omega⟩ hin
    · exact (h.cells row col ⟨hlo, hhi, hleft, hright⟩).trans (if_pos ⟨by omega, by omega⟩)
    · exact (h.cells row col ⟨hlo, hhi, hleft, hright⟩).trans (if_neg (by omega))
  · intro addr hout
    rw [← h.outside addr hout, Vbios.blankRow, haddr, toNat_width]
    exact fill_row_of_ne fun col hlo hhi =>
      hout i.toNat col ⟨by omega, hi, hlo, by omega⟩

/-- A loop that blanks the rows up to `b`. -/
theorem blank_step {cond : ULong → Bool} {a : ℕ} (hcond : ∀ i, cond i = decide (i.toNat < b))
    (ha : w.leftRow.toNat ≤ a) (hb : b ≤ w.rightRow.toNat + 1) (i : ULong) (m' : Mem)
    (hi : cond i = true) (h : a ≤ i.toNat ∧ i.toNat ≤ b ∧ w.Blanked attr m a i.toNat m') :
    (i + 1).toNat = i.toNat + 1 ∧ a ≤ (i + 1).toNat ∧ (i + 1).toNat ≤ b ∧
      w.Blanked attr m a (i + 1).toNat (Vbios.blankRow t attr w.leftCol w.rightCol i m') := by
  have hlt : i.toNat < b := by simpa [hcond] using hi
  have hrows := w.hrows
  have hbound := t.mi.hrows.2
  have hsucc : (i + 1).toNat = i.toNat + 1 := by
    rw [BitVec.toNat_add]
    show (i.toNat + 1) % 2 ^ 32 = _
    omega
  rw [hsucc]
  exact ⟨rfl, by omega, by omega, h.2.2.blankRow ha h.1 (by omega)⟩

/-- The rows are blank where the loop ends. -/
theorem blanked_of_run {cond : ULong → Bool} {a : ULong} {fuel : ℕ}
    (hcond : ∀ i, cond i = decide (i.toNat < b)) (ha : w.leftRow.toNat ≤ a.toNat)
    (hab : a.toNat ≤ b) (hb : b ≤ w.rightRow.toNat + 1)
    (hrun : run cond (· + 1) (Vbios.blankRow t attr w.leftCol w.rightCol) fuel a m = some m') :
    w.Blanked attr m a.toNat b m' := by
  obtain ⟨j, hj, -, hle, hblanked⟩ := run_inv
    (fun i m' => a.toNat ≤ i.toNat ∧ i.toNat ≤ b ∧ w.Blanked attr m a.toNat i.toNat m')
    (fun i m' hi h => (blank_step hcond ha hb i m' hi h).2) ⟨le_rfl, hab, Blanked.refl⟩ hrun
  have heq : j.toNat = b := by
    rw [hcond, decide_eq_false_iff_not] at hj
    omega
  rwa [heq] at hblanked

/-- The loop ends. -/
theorem exists_run_blankRow (attr : UChar) {cond : ULong → Bool} {a : ULong}
    (hcond : ∀ i, cond i = decide (i.toNat < b)) (ha : w.leftRow.toNat ≤ a.toNat)
    (hab : a.toNat ≤ b) (hb : b ≤ w.rightRow.toNat + 1) (m : Mem) :
    ∃ fuel m', run cond (· + 1) (Vbios.blankRow t attr w.leftCol w.rightCol) fuel a m = some m' := by
  obtain ⟨j, m', hrun, -⟩ := run_total
    (fun i m' => a.toNat ≤ i.toNat ∧ i.toNat ≤ b ∧ w.Blanked attr m a.toNat i.toNat m')
    (fun i => b - i.toNat)
    (fun i m' hi h => (blank_step hcond ha hb i m' hi h).2)
    (fun i m' hi h => by
      have hsucc := (blank_step hcond ha hb i m' hi h).1
      have hlt : i.toNat < b := by simpa [hcond] using hi
      omega)
    ⟨le_rfl, hab, Blanked.refl⟩ (Nat.lt_succ_of_le (Nat.sub_le b a.toNat))
  exact ⟨b + 1, m', hrun⟩

theorem le_cond (i : ULong) : decide (i ≤ w.rightRow) = decide (i.toNat < w.rightRow.toNat + 1) :=
  decide_eq_decide.mpr Nat.lt_succ_iff.symm

/-! ## Blank windows -/

theorem scroll_blank (hn : n = 0 ∨ w.rightRow - w.leftRow < n) (d : Direction) (fuel : ℕ) :
    w.scroll d n attr fuel m = run (fun i => decide (i ≤ w.rightRow)) (· + 1)
      (Vbios.blankRow t attr w.leftCol w.rightCol) fuel w.leftRow m := by
  have hwindow : ¬(w.rightCol ≤ w.leftCol ∨ w.rightRow ≤ w.leftRow) :=
    not_or_intro (BitVec.not_le.mpr w.hcol) (BitVec.not_le.mpr w.hrow)
  cases d with
  | up => rw [scroll, biosScrollUp, if_neg hwindow, if_pos hn.symm]
  | down => rw [scroll, biosScrollDown, if_neg hwindow, if_pos hn.symm]

theorem toNat_height : (w.rightRow - w.leftRow).toNat = w.rightRow.toNat - w.leftRow.toNat :=
  BitVec.toNat_sub_of_le (BitVec.le_of_lt w.hrow)

/-- Nothing is left of the window. -/
theorem scrolledCell_blank (hn : n = 0 ∨ w.rightRow - w.leftRow < n) (h : w.Holds row col)
    (d : Direction) : w.scrolledCell n attr m row col d = blank attr := by
  obtain ⟨hlo, hhi, -⟩ := h
  have hnot : n ≠ 0 → w.rightRow.toNat - w.leftRow.toNat < n.toNat := by
    intro hne
    rw [← toNat_height]
    exact hn.resolve_left hne
  cases d with
  | up => exact if_neg fun h => by have := hnot h.1; omega
  | down => exact if_neg fun h => by have := hnot h.1; omega

theorem scrolls_of_blank (hn : n = 0 ∨ w.rightRow - w.leftRow < n) (d : Direction) :
    w.Scrolls d n attr := by
  intro m
  have hrow : w.leftRow.toNat < w.rightRow.toNat := w.hrow
  obtain ⟨fuel, m', hrun⟩ := exists_run_blankRow (w := w) attr le_cond le_rfl (by omega) le_rfl m
  have hblanked := blanked_of_run le_cond le_rfl (by omega) le_rfl hrun
  refine ⟨fuel, m', (scroll_blank hn d fuel).trans hrun, fun row col h => ?_, hblanked.outside⟩
  rw [scrolledCell_blank hn h, hblanked.cells row col h]
  exact if_pos ⟨h.1, Nat.lt_succ_of_le h.2.1⟩

/-! ## Other windows -/

/-- A number of lines that leaves something of the window. -/
theorem lines_bound (hn : ¬(n = 0 ∨ w.rightRow - w.leftRow < n)) :
    n ≠ 0 ∧ 0 < n.toNat ∧ n.toNat ≤ w.rightRow.toNat - w.leftRow.toNat := by
  obtain ⟨hne, hle⟩ := not_or.mp hn
  refine ⟨hne, Nat.pos_of_ne_zero fun h0 => hne (BitVec.eq_of_toNat_eq h0), ?_⟩
  rw [← toNat_height]
  exact BitVec.not_lt.mp hle

theorem toNat_rightRow_sub (hn : ¬(n = 0 ∨ w.rightRow - w.leftRow < n)) :
    (w.rightRow - n).toNat = w.rightRow.toNat - n.toNat := by
  obtain ⟨-, -, hle⟩ := lines_bound hn
  exact BitVec.toNat_sub_of_le (BitVec.le_def.mpr (by omega))

theorem toNat_leftRow_add (hn : ¬(n = 0 ∨ w.rightRow - w.leftRow < n)) :
    (w.leftRow + n).toNat = w.leftRow.toNat + n.toNat := by
  obtain ⟨-, -, hle⟩ := lines_bound hn
  have hrow : w.leftRow.toNat < w.rightRow.toNat := w.hrow
  have hlt := w.rightRow.isLt
  rw [BitVec.toNat_add]
  exact Nat.mod_eq_of_lt (by omega)

theorem blank_ne : ∀ attr : UChar, (1 : UChar) ++ (1 : UChar) ≠ blank attr := by decide +kernel

/-- The row that the last one moves to is blank. -/
theorem not_scrolls_up (hn : ¬(n = 0 ∨ w.rightRow - w.leftRow < n)) : ¬w.Scrolls .up n attr := by
  intro h
  obtain ⟨hne, hpos, hle⟩ := lines_bound hn
  have hwindow : ¬(w.rightCol ≤ w.leftCol ∨ w.rightRow ≤ w.leftRow) :=
    not_or_intro (BitVec.not_le.mpr w.hcol) (BitVec.not_le.mpr w.hrow)
  obtain ⟨fuel, m', hscroll, hcells, -⟩ := h fun _ => 1
  rw [scroll, biosScrollUp, if_neg hwindow, if_neg fun h => hn h.symm] at hscroll
  obtain ⟨m₁, -, hrun⟩ := Option.bind_eq_some_iff.mp hscroll
  have hsub := toNat_rightRow_sub hn
  have hblanked := blanked_of_run le_cond (by omega) (by omega) le_rfl hrun
  have hrow : w.leftRow.toNat < w.rightRow.toNat := w.hrow
  have hcol : w.leftCol.toNat < w.rightCol.toNat := w.hcol
  have hholds : w.Holds (w.rightRow.toNat - n.toNat) w.leftCol.toNat :=
    ⟨by omega, by omega, le_rfl, hcol.le⟩
  have hcell := hcells _ _ hholds
  rw [hblanked.cells _ _ hholds, if_pos (by omega), scrolledCell, if_pos ⟨hne, by omega⟩] at hcell
  exact blank_ne attr hcell.symm

/-- The rows that `bios_scroll_down` copies leave the last row as it is. -/
theorem lastRow_copied (hn : ¬(n = 0 ∨ w.rightRow - w.leftRow < n)) {fuel : ℕ}
    (hrun : run (fun i => decide (w.leftRow ≤ i)) (· - 1)
      (fun i => copyRow t w.leftCol w.rightCol i (i - n)) fuel (w.rightRow - n) m = some m') :
    t.mi.cell t.currentPage m' w.rightRow.toNat w.leftCol.toNat =
      t.mi.cell t.currentPage m w.rightRow.toNat w.leftCol.toNat := by
  obtain ⟨-, hpos, hle⟩ := lines_bound hn
  have hsub := toNat_rightRow_sub hn
  have hcol : w.leftCol.toNat < w.rightCol.toNat := w.hcol
  have hcols := w.hcols
  have hrows := w.hrows
  by_cases hzero : w.leftRow = 0
  · -- `i >= 0` is always true
    rw [run_eq_none fun i => decide_eq_true (hzero ▸ Nat.zero_le i.toNat)] at hrun
    cases hrun
  · have hleft : 0 < w.leftRow.toNat :=
      Nat.pos_of_ne_zero fun h0 => hzero (BitVec.eq_of_toNat_eq h0)
    obtain ⟨j, -, -, hcell⟩ := run_inv (fun i m' => i.toNat ≤ w.rightRow.toNat - n.toNat ∧
      t.mi.cell t.currentPage m' w.rightRow.toNat w.leftCol.toNat =
        t.mi.cell t.currentPage m w.rightRow.toNat w.leftCol.toNat)
      (fun i m' hi h => by
        have hlo : w.leftRow.toNat ≤ i.toNat := of_decide_eq_true hi
        have hpred : (i - 1).toNat = i.toNat - 1 :=
          BitVec.toNat_sub_of_le (BitVec.le_def.mpr (show 1 ≤ i.toNat by omega))
        have haddr := toNat_rowAddr (t := t) w.leftCol i (by omega) (by omega)
        have hlen : ((w.rightCol - w.leftCol + 1) * 2).toNat =
            2 * (w.rightCol.toNat - w.leftCol.toNat + 1) := by
          have hbound := t.mi.hcols.2
          rw [BitVec.toNat_mul, toNat_width]
          show (w.rightCol.toNat - w.leftCol.toNat + 1) * 2 % 2 ^ 32 = _
          omega
        refine ⟨by omega, ?_⟩
        rw [← h.2, ModeInfo.cell, copyRow, haddr, hlen]
        exact word_copy_row (by omega) (by omega) (by omega))
      ⟨hsub.le, rfl⟩ hrun
    exact hcell

/-- The last row is never written. -/
theorem not_scrolls_down (hn : ¬(n = 0 ∨ w.rightRow - w.leftRow < n)) :
    ¬w.Scrolls .down n attr := by
  intro h
  obtain ⟨hne, hpos, hle⟩ := lines_bound hn
  have hwindow : ¬(w.rightCol ≤ w.leftCol ∨ w.rightRow ≤ w.leftRow) :=
    not_or_intro (BitVec.not_le.mpr w.hcol) (BitVec.not_le.mpr w.hrow)
  have hrow : w.leftRow.toNat < w.rightRow.toNat := w.hrow
  have hcol : w.leftCol.toNat < w.rightCol.toNat := w.hcol
  have hcols := w.hcols
  let last := cellAddr (t.mi.page t.currentPage) t.mi.cols w.rightRow.toNat w.leftCol.toNat
  obtain ⟨fuel, m', hscroll, hcells, -⟩ := h fun a => if a = last then 1 else 0
  rw [scroll, biosScrollDown, if_neg hwindow, if_neg fun h => hn h.symm] at hscroll
  obtain ⟨m₁, hcopy, hrun⟩ := Option.bind_eq_some_iff.mp hscroll
  have hadd := toNat_leftRow_add hn
  have hblanked := blanked_of_run (b := w.leftRow.toNat + n.toNat)
    (fun i => decide_eq_decide.mpr (by rw [BitVec.lt_def, hadd])) le_rfl (by omega) (by omega) hrun
  have hholds : w.Holds w.rightRow.toNat w.leftCol.toNat := ⟨hrow.le, le_rfl, le_rfl, hcol.le⟩
  have hcell := hcells _ _ hholds
  rw [hblanked.cells _ _ hholds, if_neg (by omega), lastRow_copied hn hcopy, scrolledCell,
    if_pos ⟨hne, by omega⟩] at hcell
  have hlast : t.mi.cell t.currentPage (fun a => if a = last then (1 : UChar) else 0)
      w.rightRow.toNat w.leftCol.toNat = 1 := by
    simp [ModeInfo.cell, word, last]
  have hother : t.mi.cell t.currentPage (fun a => if a = last then (1 : UChar) else 0)
      (w.rightRow.toNat - n.toNat) w.leftCol.toNat = 0 := by
    let dst := cellAddr (t.mi.page t.currentPage) t.mi.cols (w.rightRow.toNat - n.toNat)
      w.leftCol.toNat
    have hout : ¬(dst ≤ last + 0 ∧ last + 0 < dst + 2 * 1) :=
      not_mem_row (by omega) (by omega) (by omega) 0 (by decide)
    have hlow : dst ≠ last := by omega
    have hhigh : dst + 1 ≠ last := by omega
    change word _ dst = 0
    simp [word, hlow, hhigh]
  rw [hlast, hother] at hcell
  exact absurd hcell (by decide)

/-- Scrolling is right when nothing is left of the window. -/
theorem scrolls_iff (w : Window t) (d : Direction) (n : ULong) (attr : UChar) :
    w.Scrolls d n attr ↔ n = 0 ∨ w.rightRow - w.leftRow < n := by
  refine ⟨fun h => by_contra fun hn => ?_, fun hn => scrolls_of_blank hn d⟩
  cases d with
  | up => exact not_scrolls_up hn h
  | down => exact not_scrolls_down hn h

end Window

/-- BIOS mode 3. -/
def mode3Tty : VmTty where
  mi := {
    cols := 80
    rows := 25
    buffer := 0xb8000
    pageSize := 4096
    pages := 4
    hcols := mode3_cols
    hrows := mode3_rows
    hpages := mode3_pages
    htop := mode3_top }
  currentPage := 0
  hpage := by decide

/-- The whole screen, one line up. -/
theorem wholeScreen_not_scrolled :
    ¬∀ (t : VmTty) (w : Window t) (d : Direction) (n : ULong) (attr : UChar),
      w.Scrolls d n attr := by
  intro h
  let w : Window mode3Tty := ⟨0, 0, 79, 24, by decide, by decide, by decide, by decide⟩
  exact Window.not_scrolls_up (by decide) (h mode3Tty w .up 1 7)

end Vmm386.Vbios
