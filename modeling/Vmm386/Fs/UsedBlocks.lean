import Vmm386.Fs.MkfsLayout

/-!
# The number of used blocks

`used_blocks` of `fs/bitmap.c` counts the bits of the data bitmap and adds the other areas, whose
sizes it computes anew.
-/

namespace Vmm386.Fs.FileSys

/-! ## Counting -/

/-- The loop of `used_blocks` over the bits of a block. -/
def countBits (b : Blk) (len : ℕ) (total : ULong) : ULong :=
  (List.range len).foldl (fun total i => if b.testBit i then total + 1 else total) total

/-- The loop of `used_blocks` over the blocks of the bitmap. -/
def countUsed (fs : FileSys) (bmapBlk : ULong) (bmapLen : ℕ) (total : ULong) : ULong :=
  if bmapLen > 0 then
    let len := min bmapLen BITS_PER_BLOCK
    countUsed fs (bmapBlk + 1) (bmapLen - len) (countBits (fs.disk bmapBlk) len total)
  else total
termination_by bmapLen
decreasing_by
  simp only [BITS_PER_BLOCK, FS_BLKSIZ]
  omega

/-- `used_blocks`, on a bitmap of less than 2^31 bits. -/
def usedBlocks (fs : FileSys) : ULong :=
  fs.countUsed fs.sup.dataBitmap fs.sup.dataSize.toNat 0 + 1
    + fs.sup.numInodes / BitVec.ofNat 32 BITS_PER_BLOCK
    + fs.sup.numInodes / BitVec.ofNat 32 INODES_PER_BLOCK
    + fs.sup.dataSize / BitVec.ofNat 32 BITS_PER_BLOCK

/-- The number of clear bits in the data bitmap. -/
def clearBits (fs : FileSys) : ℕ :=
  (List.range fs.sup.dataSize.toNat).countP fun i => !fs.bit fs.sup.dataBitmap i

/-- The number of set bits in the data bitmap. -/
def setBits (fs : FileSys) : ℕ :=
  (List.range fs.sup.dataSize.toNat).countP (fs.bit fs.sup.dataBitmap)

section

variable {fs : FileSys} {start : ULong} {len : ℕ}

theorem countBits_eq (b : Blk) (len : ℕ) (total : ULong) :
    countBits b len total = total + BitVec.ofNat 32 ((List.range len).countP b.testBit) := by
  unfold countBits
  induction List.range len generalizing total with
  | nil => exact (BitVec.add_zero total).symm
  | cons i is ih =>
    rw [List.foldl_cons, ih, List.countP_cons]
    by_cases hbit : b.testBit i
    · rw [if_pos hbit, if_pos hbit, BitVec.add_assoc, Nat.add_comm, BitVec.ofNat_add]
      rfl
    · rw [if_neg hbit, if_neg hbit, Nat.add_zero]

/-- The bits behind the first block are those of the next ones. -/
theorem bit_add_block (i : ℕ) : fs.bit start (BITS_PER_BLOCK + i) = fs.bit (start + 1) i := by
  have hdiv : (BITS_PER_BLOCK + i) / BITS_PER_BLOCK = 1 + i / BITS_PER_BLOCK := by
    rw [Nat.add_div_left _ (by decide), Nat.add_comm]
  rw [bit, bit, hdiv, Nat.add_mod_left, BitVec.ofNat_add, ← BitVec.add_assoc]
  rfl

theorem bit_of_lt {i : ℕ} (hi : i < BITS_PER_BLOCK) : fs.bit start i = (fs.disk start).testBit i := by
  rw [bit, Nat.div_eq_of_lt hi, Nat.mod_eq_of_lt hi, BitVec.add_zero]

/-- The loop counts every bit of the bitmap. -/
theorem countUsed_eq (total : ULong) :
    fs.countUsed start len total =
      total + BitVec.ofNat 32 ((List.range len).countP (fs.bit start)) := by
  induction len using Nat.strongRecOn generalizing start total with
  | ind len ih =>
    rw [countUsed]
    by_cases hpos : len > 0
    · rw [if_pos hpos]
      dsimp only
      have hmin : 0 < min len BITS_PER_BLOCK := by
        simp only [BITS_PER_BLOCK, FS_BLKSIZ]
        omega
      rw [ih _ (by omega), countBits_eq, BitVec.add_assoc, ← BitVec.ofNat_add]
      congr 2
      have hfirst : (List.range (min len BITS_PER_BLOCK)).countP (fs.disk start).testBit =
          (List.range (min len BITS_PER_BLOCK)).countP (fs.bit start) := by
        apply List.countP_congr
        intro i hi
        have hlt := List.mem_range.mp hi
        rw [bit_of_lt (by omega)]
      have hsplit : List.range len = List.range (min len BITS_PER_BLOCK) ++
          (List.range (len - min len BITS_PER_BLOCK)).map (min len BITS_PER_BLOCK + ·) := by
        rw [← List.range_add, Nat.add_sub_cancel' (Nat.min_le_left _ _)]
      rw [hfirst, hsplit, List.countP_append, List.countP_map]
      congr 1
      by_cases hlast : len ≤ BITS_PER_BLOCK
      · rw [Nat.min_eq_left hlast, Nat.sub_self]
        rfl
      · rw [Nat.min_eq_right (by omega)]
        apply List.countP_congr
        intro i _
        rw [Function.comp_apply, bit_add_block]
    · rw [if_neg hpos, Nat.eq_zero_of_not_pos hpos]
      exact (BitVec.add_zero total).symm

/-- A bit is set or clear. -/
theorem setBits_add_clearBits (fs : FileSys) :
    fs.setBits + fs.clearBits = fs.sup.dataSize.toNat := by
  have hlength := List.length_eq_countP_add_countP (fs.bit fs.sup.dataBitmap)
    (l := List.range fs.sup.dataSize.toNat)
  rw [List.length_range] at hlength
  refine Eq.trans ?_ hlength.symm
  unfold setBits clearBits
  congr 1
  apply List.countP_congr
  intro i _
  simp

end

/-! ## Runs -/

/-- A call that changes the data bitmap. -/
inductive BitmapOp where
  | allocBlock (locality : ULong)
  | freeBlock (blk : ULong)

def BitmapOp.run (fs : FileSys) : BitmapOp → FileSys
  | .allocBlock locality => (fs.allocBlock locality).2
  | .freeBlock blk => fs.freeBlock blk

/-- The super data in memory does not change. -/
theorem BitmapOp.run_sup (fs : FileSys) (op : BitmapOp) : (op.run fs).sup = fs.sup := by
  cases op with
  | allocBlock locality =>
    show (fs.allocBlock locality).2.sup = fs.sup
    unfold FileSys.allocBlock bmapAlloc
    cases fs.bmapScan fs.sup.dataBitmap fs.sup.dataSize.toNat with
    | none => rfl
    | some r => rfl
  | freeBlock blk =>
    show (fs.bmapFree fs.sup.dataBitmap (blk - fs.sup.data)).sup = fs.sup
    unfold bmapFree
    dsimp only
    split <;> rfl

theorem foldl_run_sup (fs : FileSys) (ops : List BitmapOp) :
    (ops.foldl BitmapOp.run fs).sup = fs.sup := by
  induction ops generalizing fs with
  | nil => rfl
  | cons op ops ih => rw [List.foldl_cons, ih, op.run_sup]

/-- A file system that has been made on a device of `total` blocks, none of them reserved. -/
def MadeOn (total : ULong) (fs : FileSys) : Prop :=
  ∃ (ret : ULong → ℤ) (bootRet : ℤ) (bootCode : ℕ → UChar) (now : ULong) (old disk : Disk),
    mkfsCall ret bootRet bootCode now total 0 old = .returned (some disk) ∧
      mount disk fs.ioResult = some fs

theorem MadeOn.sup_eq {total : ULong} {fs : FileSys} (h : MadeOn total fs) :
    fs.sup = superData total 0 ∧ (superData total 0).dataSize.toNat < 2 ^ 31 := by
  obtain ⟨ret, bootRet, bootCode, now, old, disk, hcall, hmount⟩ := h
  obtain ⟨hmkfs, hsize⟩ := mkfsCall_eq_some hcall
  rw [mount, readMetaData_mkfs hmkfs, Option.map_some] at hmount
  refine ⟨?_, hsize⟩
  rw [← Option.some.inj hmount]

/-- What `used_blocks` returns, where the areas are as `mkfs` lays them out. -/
theorem toNat_usedBlocks {fs : FileSys} {total rest : ℕ} (hdim : Dimensions fs.sup total 0 rest)
    (htotal : total < 2 ^ 32) :
    fs.usedBlocks.toNat = fs.setBits + 1 + fs.sup.numInodes.toNat / BITS_PER_BLOCK +
      fs.sup.numInodes.toNat / INODES_PER_BLOCK + fs.sup.dataSize.toNat / BITS_PER_BLOCK := by
  have hib := hdim.inodeBitmap
  have hi := hdim.inodes
  have hdb := hdim.dataBitmap
  have hend := hdim.dataEnd
  have hsize := hdim.dataSize
  have hset := setBits_add_clearBits fs
  have h1 : BitVec.toNat (1 : ULong) = 1 := rfl
  have hbits : ∀ x : ULong, (x / BitVec.ofNat 32 BITS_PER_BLOCK).toNat = x.toNat / 8192 := by
    intro x
    simp [BitVec.toNat_udiv, BITS_PER_BLOCK, FS_BLKSIZ]
  have hinodes : (fs.sup.numInodes / BitVec.ofNat 32 INODES_PER_BLOCK).toNat =
      fs.sup.numInodes.toNat / 16 := by
    simp [BitVec.toNat_udiv, INODES_PER_BLOCK]
  simp only [BITS_PER_BLOCK, FS_BLKSIZ, INODES_PER_BLOCK] at hi hdb hsize ⊢
  have hcount : fs.countUsed fs.sup.dataBitmap fs.sup.dataSize.toNat 0 =
      BitVec.ofNat 32 fs.setBits := (countUsed_eq 0).trans (BitVec.zero_add _)
  rw [usedBlocks, hcount, BitVec.toNat_add, BitVec.toNat_add, BitVec.toNat_add, BitVec.toNat_add,
    BitVec.toNat_ofNat, h1, hbits, hbits, hinodes]
  omega

/-- A block of the inode bitmap is left out, and at least one of the data bitmap. -/
theorem Dimensions.usedBlocks_lt {fs : FileSys} {total rest : ℕ}
    (hdim : Dimensions fs.sup total 0 rest) (htotal : total < 2 ^ 32) :
    fs.usedBlocks.toNat + fs.clearBits + 2 ≤ total := by
  have hset := setBits_add_clearBits fs
  have hib := hdim.inodeBitmap
  have hi := hdim.inodes
  have hdb := hdim.dataBitmap
  have hend := hdim.dataEnd
  have hsize := hdim.dataSize
  rw [toNat_usedBlocks hdim htotal]
  simp only [BITS_PER_BLOCK, FS_BLKSIZ, INODES_PER_BLOCK] at hi hdb hsize ⊢
  omega

theorem MadeOn.dimensions {total : ULong} {fs : FileSys} (h : MadeOn total fs) :
    ∃ rest, Dimensions fs.sup total.toNat 0 rest := by
  obtain ⟨hsup, hfit⟩ := h.sup_eq
  have hroom : (0 : ULong).toNat + 3 ≤ total.toNat := by
    by_contra hfew
    have hzero : (0 : ULong).toNat = 0 := rfl
    by_cases h0 : total = 0
    · rw [h0] at hfit
      exact absurd hfit (by decide)
    · have hpos : 0 < total.toNat := Nat.pos_of_ne_zero fun hc => h0 (BitVec.eq_of_toNat_eq hc)
      have := superData_wraps (show (0 : ULong).toNat < total.toNat from hpos) (by omega)
      omega
  rw [hsup]
  exact superData_dimensions hroom

/-- **`used_blocks`** never accounts for all blocks, whatever is allocated and freed. -/
theorem usedBlocks_ne {total : ULong} {fs : FileSys} (h : MadeOn total fs) (ops : List BitmapOp) :
    (ops.foldl BitmapOp.run fs).usedBlocks.toNat + (ops.foldl BitmapOp.run fs).clearBits ≠
      total.toNat := by
  obtain ⟨rest, hdim⟩ := h.dimensions
  rw [← foldl_run_sup fs ops] at hdim
  have := hdim.usedBlocks_lt total.isLt
  omega

theorem exists_madeOn_twenty : ∃ fs, MadeOn 20 fs := by
  obtain ⟨disk', hmkfs⟩ := @mkfs_succeeds (fun _ => 0) 0 (fun _ => Int.le_refl 0) (Int.le_refl 0)
    (fun _ => 0) 0 20 0 (fun _ => Blk.zero)
  obtain ⟨fs, hmount, hio⟩ : ∃ fs, mount disk' 0 = some fs ∧ fs.ioResult = 0 := by
    rw [mount, readMetaData_mkfs hmkfs]
    exact ⟨_, rfl, rfl⟩
  refine ⟨fs, fun _ => 0, 0, fun _ => 0, 0, fun _ => Blk.zero, disk', ?_, hio ▸ hmount⟩
  rw [← hmkfs]
  exact if_neg fun hc => absurd hc.2 (by decide)

/-- A device of twenty blocks, on which one has been allocated. -/
theorem usedBlocks_ne_twenty : ∃ fs, MadeOn 20 fs ∧
    ([BitmapOp.allocBlock 0].foldl BitmapOp.run fs).usedBlocks.toNat +
      ([BitmapOp.allocBlock 0].foldl BitmapOp.run fs).clearBits ≠ (20 : ULong).toNat := by
  obtain ⟨fs, hmade⟩ := exists_madeOn_twenty
  exact ⟨fs, hmade, usedBlocks_ne hmade [.allocBlock 0]⟩

/-- Of the twenty blocks of a new file system, at most eighteen are accounted for. -/
theorem usedBlocks_twenty : ∃ fs, MadeOn 20 fs ∧ fs.usedBlocks.toNat + fs.clearBits ≤ 18 := by
  obtain ⟨fs, hmade⟩ := exists_madeOn_twenty
  obtain ⟨rest, hdim⟩ := hmade.dimensions
  have hlt := hdim.usedBlocks_lt (20 : ULong).isLt
  have htwenty : (20 : ULong).toNat = 20 := rfl
  exact ⟨fs, hmade, by omega⟩

end Vmm386.Fs.FileSys
