import Vmm386.Fs.MkfsTheorems
import Vmm386.Lib.Runs

/-!
# Which devices `mkfs` lays out

`mkfs` does not look at the sizes it is given. It leaves a root directory only if there are at
least ten blocks for inodes and data, and counts blocks in an `int` when it writes the bitmaps.
-/

namespace Vmm386.Fs.FileSys

/-! ## Calls of `mkfs` -/

/-- `mkfs` up to the data bitmap. -/
def mkfsInodes (ret : ULong → ℤ) (sup : SuperData) (now : ULong) (disk : Disk) : Option Disk := do
  let (block, tmp, disk) ←
    writeBitmap ret sup.inodeBitmap sup.inodeBitmap sup.numInodes.toNat disk
  let (block, disk) ← finishInodeBitmap ret sup block tmp disk
  writeInodes ret sup now block disk

/-- A call of `mkfs` returns, or sets bits outside its block buffer. -/
inductive MkfsCall where
  | returned (disk : Option Disk)
  | outside

/-- `mkfs`, with its `int tmp`. For 2^31 data blocks or more it is negative, and the loop that sets
the bits behind the data bitmap starts below the buffer. -/
def mkfsCall (ret : ULong → ℤ) (bootRet : ℤ) (bootCode : ℕ → UChar) (now total reserved : ULong)
    (disk : Disk) : MkfsCall :=
  let sup := superData total reserved
  if (mkfsInodes ret sup now disk).isSome ∧ 2 ^ 31 ≤ sup.dataSize.toNat then .outside
  else .returned (mkfs ret bootRet bootCode now total reserved disk)

/-! ## Layouts -/

/-- The areas are in order, inside the device, and large enough. -/
structure Regions (sup : SuperData) (total reserved : ℕ) : Prop where
  totalBlocks : sup.totalBlocks.toNat = total
  reserved : 1 + reserved ≤ sup.inodeBitmap.toNat
  inodeBitmap : sup.inodeBitmap.toNat < sup.inodes.toNat
  inodes : sup.inodes.toNat < sup.dataBitmap.toNat
  dataBitmap : sup.dataBitmap.toNat < sup.data.toNat
  data : sup.data.toNat + sup.dataSize.toNat ≤ total
  inodeBits : sup.numInodes.toNat ≤ BITS_PER_BLOCK * (sup.inodes.toNat - sup.inodeBitmap.toNat)
  inodeBlocks : sup.numInodes.toNat ≤ INODES_PER_BLOCK * (sup.dataBitmap.toNat - sup.inodes.toNat)
  dataBits : sup.dataSize.toNat ≤ BITS_PER_BLOCK * (sup.data.toNat - sup.dataBitmap.toNat)
  numInodes : 0 < sup.numInodes.toNat
  dataSize : 0 < sup.dataSize.toNat

/-- The root directory is in the first inode and the first data block, and both are in use. -/
structure HasRoot (sup : SuperData) (now : ULong) (disk : Disk) : Prop where
  inode : (disk sup.inodes).inodeAt 0 = rootInode sup.data now
  inodeBit : (disk sup.inodeBitmap).testBit 0 = true
  block : disk sup.data = rootDir
  blockBit : (disk sup.dataBitmap).testBit 0 = true

/-- What `mkfs` should leave when it returns `TRUE`. -/
def LaidOut (total reserved now : ULong) (disk : Disk) : Prop :=
  ∃ sup, readMetaData disk = some sup ∧ Regions sup total.toNat reserved.toNat ∧
    HasRoot sup now disk

section

variable {ret : ULong → ℤ} {bootRet : ℤ} {bootCode : ℕ → UChar} {now total reserved : ULong}
  {disk disk' : Disk}

/-- The boot block is written last. -/
theorem readMetaData_mkfs (h : mkfs ret bootRet bootCode now total reserved disk = some disk') :
    readMetaData disk' = some (superData total reserved) := by
  simp only [mkfs, Option.bind_eq_bind, Option.bind_eq_some_iff, Prod.exists] at h
  obtain ⟨_, _, _, _, _, _, _, _, _, _, _, _, _, _, _, d, _, hboot⟩ := h
  by_cases hret : bootRet < 0
  · rw [if_pos hret] at hboot
    cases hboot
  · rw [if_neg hret] at hboot
    have hboot' : disk' 0 = bootBlk (d 0) (superData total reserved) bootCode := by
      rw [writeBlock_eq_some hboot, Function.update_self]
    exact readMetaData_bootBlk hboot'

/-- A call that succeeds has written the inodes. -/
theorem mkfsInodes_isSome (h : mkfs ret bootRet bootCode now total reserved disk = some disk') :
    (mkfsInodes ret (superData total reserved) now disk).isSome := by
  simp only [mkfs, Option.bind_eq_bind, Option.bind_eq_some_iff, Prod.exists] at h
  obtain ⟨block, tmp, d, hbits, block', d', hlast, d'', hinodes, _⟩ := h
  simp only [mkfsInodes, Option.bind_eq_bind, hbits, Option.bind_some, hlast, hinodes,
    Option.isSome_some]

/-- A call that returns `TRUE` has less than 2^31 data blocks. -/
theorem mkfsCall_eq_some
    (h : mkfsCall ret bootRet bootCode now total reserved disk = .returned (some disk')) :
    mkfs ret bootRet bootCode now total reserved disk = some disk' ∧
      (superData total reserved).dataSize.toNat < 2 ^ 31 := by
  unfold mkfsCall at h
  dsimp only at h
  split at h
  · cases h
  · rename_i hout
    have hmkfs := MkfsCall.returned.inj h
    refine ⟨hmkfs, ?_⟩
    by_contra hbig
    exact hout ⟨mkfsInodes_isSome hmkfs, by omega⟩

/-- Where there is room for an inode, and the data area is not too large, the areas are right. -/
theorem superData_regions (hlow : reserved.toNat + 11 ≤ total.toNat)
    (hhigh : total.toNat ≤ reserved.toNat + 2161280210) :
    Regions (superData total reserved) total.toNat reserved.toNat ∧
      (superData total reserved).dataSize.toNat < 2 ^ 31 := by
  obtain ⟨rest, hdim⟩ := superData_dimensions (show reserved.toNat + 3 ≤ total.toNat by omega)
  have hn := hdim.numInodes
  have hib := hdim.inodeBitmap
  have hi := hdim.inodes
  have hdb := hdim.dataBitmap
  have hend := hdim.dataEnd
  have hdata := hdim.data
  have hsize := hdim.dataSize
  simp only [inodesFor, BITS_PER_BLOCK, FS_BLKSIZ, INODES_PER_BLOCK] at hn hi hdb hdata hsize
  refine ⟨⟨hdim.totalBlocks, ?_, ?_, ?_, ?_, ?_, ?_, ?_, ?_, ?_, ?_⟩, ?_⟩
  all_goals try simp only [BITS_PER_BLOCK, FS_BLKSIZ, INODES_PER_BLOCK]
  all_goals omega

theorem Made.laidOut (hm : Made (FileSys.superData total reserved) now disk disk')
    (h : Regions (FileSys.superData total reserved) total.toNat reserved.toNat) :
    LaidOut total reserved now disk' := by
  refine ⟨_, hm.superData, h, ?_, ?_, hm.rootDir, ?_⟩
  · rw [hm.inodes _ (Nat.le_refl _) h.inodes, if_pos rfl, inodeAt_rootInodes (by decide), if_pos rfl]
  · have hpos : 0 < BITS_PER_BLOCK * bmapBlocks (FileSys.superData total reserved).numInodes.toNat := by
      have := h.numInodes
      simp only [bmapBlocks, BITS_PER_BLOCK, FS_BLKSIZ]
      omega
    have hbit := hm.inodeBits 0 hpos
    rw [Nat.zero_div, Nat.zero_mod] at hbit
    rw [BitVec.add_zero] at hbit
    exact hbit.trans (by simp)
  · have hpos : 0 < BITS_PER_BLOCK * bmapBlocks (FileSys.superData total reserved).dataSize.toNat := by
      have := h.dataSize
      simp only [bmapBlocks, BITS_PER_BLOCK, FS_BLKSIZ]
      omega
    have hbit := hm.dataBits 0 hpos
    rw [Nat.zero_div, Nat.zero_mod] at hbit
    rw [BitVec.add_zero] at hbit
    exact hbit.trans (by simp)

/-- An area for inodes that holds one, and a data area that an `int` can count, leave no other
sizes. -/
theorem Regions.sizes (h : Regions (superData total reserved) total.toNat reserved.toNat)
    (hsize : (superData total reserved).dataSize.toNat < 2 ^ 31) :
    reserved.toNat + 11 ≤ total.toNat ∧ total.toNat ≤ reserved.toNat + 2161280210 := by
  have hlt : reserved.toNat < total.toNat := by
    have h1 := h.reserved
    have h2 := h.inodeBitmap
    have h3 := h.inodes
    have h4 := h.dataBitmap
    have h5 := h.data
    omega
  have hinodes := h.numInodes
  rw [superData_numInodes hlt] at hinodes
  unfold inodesFor at hinodes
  have hlow : reserved.toNat + 11 ≤ total.toNat := by omega
  refine ⟨hlow, ?_⟩
  obtain ⟨rest, hdim⟩ := superData_dimensions (show reserved.toNat + 3 ≤ total.toNat by omega)
  have hn := hdim.numInodes
  have hib := hdim.inodeBitmap
  have hi := hdim.inodes
  have hdb := hdim.dataBitmap
  have hend := hdim.dataEnd
  have hrest := hdim.dataSize
  simp only [inodesFor, BITS_PER_BLOCK, FS_BLKSIZ, INODES_PER_BLOCK] at hn hi hdb hrest
  omega

end

/-- **`mkfs`.** On every device it returns, and leaves what it should if it returns `TRUE`, exactly
if there are between 11 and 2161280210 blocks that are not reserved. -/
theorem mkfs_layout_iff (total reserved : ULong) :
    (∀ (ret : ULong → ℤ) (bootRet : ℤ) (bootCode : ℕ → UChar) (now : ULong) (disk : Disk),
      ∃ result, mkfsCall ret bootRet bootCode now total reserved disk = .returned result ∧
        ∀ disk', result = some disk' → LaidOut total reserved now disk') ↔
    reserved.toNat + 11 ≤ total.toNat ∧ total.toNat ≤ reserved.toNat + 2161280210 := by
  constructor
  · intro h
    -- a device that takes every block
    obtain ⟨disk', hmkfs⟩ := @mkfs_succeeds (fun _ => 0) 0 (fun _ => Int.le_refl 0) (Int.le_refl 0)
      (fun _ => 0) 0 total reserved (fun _ => Blk.zero)
    obtain ⟨result, hcall, hgood⟩ := h (fun _ => 0) 0 (fun _ => 0) 0 (fun _ => Blk.zero)
    have hresult : result = some disk' := by
      unfold mkfsCall at hcall
      dsimp only at hcall
      split at hcall
      · cases hcall
      · exact (MkfsCall.returned.inj hcall).symm.trans hmkfs
    rw [hresult] at hcall
    obtain ⟨-, hsize⟩ := mkfsCall_eq_some hcall
    obtain ⟨sup, hsup, hregions, -⟩ := hgood disk' hresult
    rw [readMetaData_mkfs hmkfs] at hsup
    rw [← Option.some.inj hsup] at hregions
    exact hregions.sizes hsize
  · intro ⟨hlow, hhigh⟩ ret bootRet bootCode now disk
    obtain ⟨hregions, hsize⟩ := superData_regions hlow hhigh
    refine ⟨mkfs ret bootRet bootCode now total reserved disk, ?_, fun disk' hmkfs => ?_⟩
    · exact if_neg fun hc => absurd hc.2 (by omega)
    · have hfits : Fits total reserved := ⟨by omega, hregions.dataSize, hsize⟩
      exact (mkfs_made hfits hmkfs).laidOut hregions

/-- On a device of ten blocks there is no inode, and yet `mkfs` returns `TRUE`. -/
theorem mkfs_ten : ∃ disk', mkfsCall (fun _ => 0) 0 (fun _ => 0) 0 10 0 (fun _ => Blk.zero) =
    .returned (some disk') ∧ ¬LaidOut 10 0 0 disk' := by
  obtain ⟨disk', hmkfs⟩ := @mkfs_succeeds (fun _ => 0) 0 (fun _ => Int.le_refl 0) (Int.le_refl 0)
    (fun _ => 0) 0 10 0 (fun _ => Blk.zero)
  refine ⟨disk', ?_, fun ⟨sup, hsup, hregions, _⟩ => ?_⟩
  · rw [← hmkfs]
    exact if_neg fun hc => absurd hc.2 (by decide)
  · rw [readMetaData_mkfs hmkfs] at hsup
    have hinodes := hregions.numInodes
    rw [← Option.some.inj hsup] at hinodes
    exact absurd hinodes (by decide)

end Vmm386.Fs.FileSys
