import Vmm386.Fs.Mkfs

/-!
# The dimensions that `mkfs` computes

The areas of the disk follow each other from the boot block on. All sums and differences wrap,
which they do not do as long as the device has three blocks that are not reserved.
-/

namespace Vmm386.Fs.FileSys

/-! ## Rounding -/

theorem toNat_and_not_15 (y : ULong) : (y &&& ~~~15#32).toNat = y.toNat / 16 * 16 := by
  have hbits : y &&& ~~~15#32 = y >>> 4 <<< 4 := by
    ext i hi
    simp only [BitVec.getElem_and, BitVec.getElem_not, BitVec.getElem_shiftLeft]
    interval_cases i <;> simp
  rw [hbits, BitVec.toNat_shiftLeft, BitVec.toNat_ushiftRight, Nat.shiftRight_eq_div_pow,
    Nat.shiftLeft_eq]
  have := y.isLt
  omega

theorem toNat_roundTo {x : ULong} (h : x.toNat + 15 < 2 ^ 32) :
    (roundTo x (BitVec.ofNat 32 INODES_PER_BLOCK)).toNat = (x.toNat + 15) / 16 * 16 := by
  have hadd : (x + 15#32).toNat = x.toNat + 15 := by
    rw [BitVec.toNat_add]
    exact Nat.mod_eq_of_lt h
  rw [← hadd]
  exact toNat_and_not_15 (x + 15#32)

/-! ## The areas -/

/-- The number of inodes on a device that has `blocks` blocks after the reserved ones. -/
def inodesFor (blocks : ℕ) : ℕ := (blocks / 10 + 15) / 16 * 16

/-- Where the areas are, with `rest` blocks for the data and its bitmap. -/
structure Dimensions (sup : SuperData) (total reserved rest : ℕ) : Prop where
  totalBlocks : sup.totalBlocks.toNat = total
  numInodes : sup.numInodes.toNat = inodesFor (total - 1 - reserved)
  inodeBitmap : sup.inodeBitmap.toNat = 1 + reserved
  inodes : sup.inodes.toNat = sup.inodeBitmap.toNat + sup.numInodes.toNat / BITS_PER_BLOCK + 1
  dataBitmap : sup.dataBitmap.toNat = sup.inodes.toNat + sup.numInodes.toNat / INODES_PER_BLOCK
  dataEnd : sup.dataBitmap.toNat + rest = total
  data : sup.data.toNat = sup.dataBitmap.toNat + rest / BITS_PER_BLOCK + 1
  dataSize : sup.dataSize.toNat + rest / BITS_PER_BLOCK + 1 = rest

section

variable {total reserved : ULong}

theorem toNat_blocks (h : reserved.toNat < total.toNat) :
    (total - 1 - reserved).toNat = total.toNat - 1 - reserved.toNat := by
  have h1 : BitVec.toNat (1 : ULong) = 1 := rfl
  have := total.isLt
  rw [BitVec.toNat_sub, BitVec.toNat_sub, h1]
  omega

theorem superData_numInodes (h : reserved.toNat < total.toNat) :
    (superData total reserved).numInodes.toNat = inodesFor (total.toNat - 1 - reserved.toNat) := by
  have hten : ((total - 1 - reserved) / 10).toNat = (total.toNat - 1 - reserved.toNat) / 10 := by
    rw [BitVec.toNat_udiv, toNat_blocks h]
    rfl
  have := total.isLt
  refine (toNat_roundTo (by omega)).trans ?_
  rw [hten, inodesFor]

/-- With three blocks that are not reserved, no difference wraps. -/
theorem superData_dimensions (h : reserved.toNat + 3 ≤ total.toNat) :
    ∃ rest, Dimensions (superData total reserved) total.toNat reserved.toNat rest := by
  have hn : (superData total reserved).numInodes.toNat =
      inodesFor (total.toNat - 1 - reserved.toNat) := superData_numInodes (by omega)
  have hblocks : (total - 1 - reserved).toNat = total.toNat - 1 - reserved.toNat :=
    toNat_blocks (by omega)
  have htotal := total.isLt
  have h1 : BitVec.toNat (1 : ULong) = 1 := rfl
  simp only [superData, inodesFor] at hn ⊢
  generalize roundTo ((total - 1 - reserved) / 10) (BitVec.ofNat 32 INODES_PER_BLOCK) = n at hn ⊢
  have hbits : (n / BitVec.ofNat 32 BITS_PER_BLOCK).toNat = n.toNat / 8192 := by
    simp [BitVec.toNat_udiv, BITS_PER_BLOCK, FS_BLKSIZ]
  have hinodes : (n / BitVec.ofNat 32 INODES_PER_BLOCK).toNat = n.toNat / 16 := by
    simp [BitVec.toNat_udiv, INODES_PER_BLOCK]
  generalize n / BitVec.ofNat 32 BITS_PER_BLOCK = nbits at hbits ⊢
  generalize n / BitVec.ofNat 32 INODES_PER_BLOCK = ninodes at hinodes ⊢
  generalize hrest : total - 1 - reserved - (nbits + 1 + ninodes) = rest
  have hrest' : rest.toNat =
      total.toNat - 1 - reserved.toNat - (n.toNat / 8192 + 1 + n.toNat / 16) := by
    rw [← hrest, BitVec.toNat_sub, hblocks, BitVec.toNat_add, BitVec.toNat_add, h1, hbits, hinodes]
    omega
  have htmp : (rest / BitVec.ofNat 32 BITS_PER_BLOCK).toNat = rest.toNat / 8192 := by
    simp [BitVec.toNat_udiv, BITS_PER_BLOCK, FS_BLKSIZ]
  generalize rest / BitVec.ofNat 32 BITS_PER_BLOCK = tmp at htmp ⊢
  have e1 : (1 + reserved : ULong).toNat = 1 + reserved.toNat := by
    rw [BitVec.toNat_add, h1]
    omega
  have e2 : (1 + reserved + nbits + 1 : ULong).toNat =
      (1 + reserved : ULong).toNat + n.toNat / 8192 + 1 := by
    rw [BitVec.toNat_add, BitVec.toNat_add, e1, h1, hbits]
    omega
  have e3 : (1 + reserved + nbits + 1 + ninodes : ULong).toNat =
      (1 + reserved + nbits + 1 : ULong).toNat + n.toNat / 16 := by
    rw [BitVec.toNat_add, e2, e1, hinodes]
    omega
  have e4 : (1 + reserved + nbits + 1 + ninodes + (tmp + 1) : ULong).toNat =
      (1 + reserved + nbits + 1 + ninodes : ULong).toNat + rest.toNat / 8192 + 1 := by
    rw [BitVec.toNat_add, e3, e2, e1, BitVec.toNat_add, h1, htmp]
    omega
  have e5 : (rest - (tmp + 1) : ULong).toNat + rest.toNat / 8192 + 1 = rest.toNat := by
    rw [BitVec.toNat_sub, BitVec.toNat_add, h1, htmp]
    omega
  refine ⟨rest.toNat, rfl, hn, e1, e2, e3, ?_, e4, e5⟩
  show (1 + reserved + nbits + 1 + ninodes : ULong).toNat + rest.toNat = total.toNat
  rw [e3, e2, e1]
  omega

/-- With less, there is no room for the data bitmap, and the size of the data area wraps. -/
theorem superData_wraps (h : reserved.toNat < total.toNat)
    (hfew : total.toNat < reserved.toNat + 3) :
    2 ^ 31 ≤ (superData total reserved).dataSize.toNat := by
  have hn : (superData total reserved).numInodes.toNat =
      inodesFor (total.toNat - 1 - reserved.toNat) := superData_numInodes h
  have hzero : (superData total reserved).numInodes = 0 := by
    apply BitVec.eq_of_toNat_eq
    rw [hn]
    unfold inodesFor
    show _ = 0
    omega
  have hblocks : total - 1 - reserved = 0 ∨ total - 1 - reserved = 1 := by
    have := toNat_blocks h
    by_cases h0 : total.toNat - 1 - reserved.toNat = 0
    · exact Or.inl (BitVec.eq_of_toNat_eq (this.trans h0))
    · refine Or.inr (BitVec.eq_of_toNat_eq (this.trans ?_))
      show _ = 1
      omega
  have hn' : roundTo ((total - 1 - reserved) / 10) (BitVec.ofNat 32 INODES_PER_BLOCK) = 0 := hzero
  simp only [superData, hn']
  refine hblocks.elim (fun h0 => ?_) fun h0 => ?_ <;> rw [h0] <;> decide

end

end Vmm386.Fs.FileSys
