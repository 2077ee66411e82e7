import Vmm386.Fs.Block
import Vmm386.Fs.Inode

/-!
# The file system and its bitmaps (`fs/bitmap.c`)

The state here is the file system as its own functions see it: what the blocks hold, seen
through the buffer cache, and the inodes, each as it is in memory or, if it is not there, in
its slot. No device call fails, and buffers never run out; how the cache and the inodes get
that far is the subject of `Buffer` and `InodeWrites`.
-/

namespace Vmm386.Fs

/-! ## The state -/

def E_NOEXIST : ℤ := 1
def E_NOSPC : ℤ := 7
def E_BADARG : ℤ := 15

/-- `struct super_data`. -/
structure SuperData where
  totalBlocks : ULong
  inodeBitmap : ULong
  inodes : ULong
  numInodes : ULong
  dataBitmap : ULong
  data : ULong
  dataSize : ULong

/-- A mounted device. `ioResult` is what its `write_blocks` returns. -/
structure FileSys where
  sup : SuperData
  disk : ULong → Blk
  inode : ULong → Inode
  errno : ℤ
  ioResult : ℤ

namespace FileSys

/-- Change a block in its buffer. -/
def store (fs : FileSys) (blk : ULong) (b : Blk) : FileSys :=
  { fs with disk := Function.update fs.disk blk b }

/-- Change an inode in memory. -/
def setInode (fs : FileSys) (inum : ULong) (i : Inode) : FileSys :=
  { fs with inode := Function.update fs.inode inum i }

/-- `ERRNO = e`. -/
def fail (fs : FileSys) (e : ℤ) : FileSys := { fs with errno := e }

/-- `bdirty(buf, TRUE)`, or `brelse` of a buffer that is dirty. -/
def flush (fs : FileSys) : FileSys := fs.fail fs.ioResult

/-! ## Allocation in a bitmap -/

/-- The number of blocks that hold a bitmap of `bmapLen` bits. -/
def bmapBlocks (bmapLen : ℕ) : ℕ := (bmapLen + (BITS_PER_BLOCK - 1)) / BITS_PER_BLOCK

/-- The loop of `bmap_alloc` over the blocks of a bitmap of `bmapLen` bits: the first block
with a clear bit, and that bit. -/
def bmapScan (fs : FileSys) (bmapStart : ULong) (bmapLen : ℕ) : Option (ℕ × ℕ) :=
  (List.range (bmapBlocks bmapLen)).findSome? fun k =>
    ((fs.disk (bmapStart + BitVec.ofNat 32 k)).findZeroBit
      (min (bmapLen - BITS_PER_BLOCK * k) BITS_PER_BLOCK)).map (k, ·)

/-- `bmap_alloc`, on a bitmap of less than 2^31 bits. -/
def bmapAlloc (fs : FileSys) (bmapStart bmapLen : ULong) : Option ULong × FileSys :=
  match fs.bmapScan bmapStart bmapLen.toNat with
  | some (k, bit) =>
    let bmapBlk := bmapStart + BitVec.ofNat 32 k
    (some ((bmapBlk - bmapStart) * BitVec.ofNat 32 FS_BLKSIZ * 8 + BitVec.ofNat 32 bit),
      (fs.store bmapBlk ((fs.disk bmapBlk).setBit bit)).flush)
  | none => (none, fs.fail E_NOSPC)

/-- `bmap_free`. It complains if the bit is not set. -/
def bmapFree (fs : FileSys) (bmapStart bit : ULong) : FileSys :=
  let bmapBlk := bit / BitVec.ofNat 32 BITS_PER_BLOCK + bmapStart
  let bit := (bit % BitVec.ofNat 32 BITS_PER_BLOCK).toNat
  if (fs.disk bmapBlk).testBit bit then
    (fs.store bmapBlk ((fs.disk bmapBlk).clearBit bit)).flush
  else fs

/-- `alloc_block`. It does not use `locality`. -/
def allocBlock (fs : FileSys) (_locality : ULong) : ULong × FileSys :=
  match fs.bmapAlloc fs.sup.dataBitmap fs.sup.dataSize with
  | (some blk, fs) => (fs.sup.data + blk, fs)
  | (none, fs) => (0, fs)

/-- `free_block`. -/
def freeBlock (fs : FileSys) (blk : ULong) : FileSys :=
  fs.bmapFree fs.sup.dataBitmap (blk - fs.sup.data)

/-! ## Frames -/

@[simp] theorem store_sup (fs : FileSys) (blk : ULong) (b : Blk) : (fs.store blk b).sup = fs.sup := rfl
@[simp] theorem store_inode (fs : FileSys) (blk : ULong) (b : Blk) :
    (fs.store blk b).inode = fs.inode := rfl
@[simp] theorem store_disk_self (fs : FileSys) (blk : ULong) (b : Blk) :
    (fs.store blk b).disk blk = b := Function.update_self ..
theorem store_disk_of_ne (fs : FileSys) {blk a : ULong} (b : Blk) (h : a ≠ blk) :
    (fs.store blk b).disk a = fs.disk a := Function.update_of_ne h ..
@[simp] theorem setInode_sup (fs : FileSys) (n : ULong) (i : Inode) : (fs.setInode n i).sup = fs.sup :=
  rfl
@[simp] theorem setInode_disk (fs : FileSys) (n : ULong) (i : Inode) :
    (fs.setInode n i).disk = fs.disk := rfl
@[simp] theorem setInode_inode_self (fs : FileSys) (n : ULong) (i : Inode) :
    (fs.setInode n i).inode n = i := Function.update_self ..
theorem setInode_inode_of_ne (fs : FileSys) {n m : ULong} (i : Inode) (h : m ≠ n) :
    (fs.setInode n i).inode m = fs.inode m := Function.update_of_ne h ..
@[simp] theorem fail_sup (fs : FileSys) (e : ℤ) : (fs.fail e).sup = fs.sup := rfl
@[simp] theorem fail_disk (fs : FileSys) (e : ℤ) : (fs.fail e).disk = fs.disk := rfl
@[simp] theorem fail_inode (fs : FileSys) (e : ℤ) : (fs.fail e).inode = fs.inode := rfl
@[simp] theorem flush_sup (fs : FileSys) : fs.flush.sup = fs.sup := rfl
@[simp] theorem flush_disk (fs : FileSys) : fs.flush.disk = fs.disk := rfl
@[simp] theorem flush_inode (fs : FileSys) : fs.flush.inode = fs.inode := rfl

/-! ## A bitmap as a sequence of bits -/

/-- Bit `i` of the bitmap that starts at a block. -/
def bit (fs : FileSys) (bmapStart : ULong) (i : ℕ) : Bool :=
  (fs.disk (bmapStart + BitVec.ofNat 32 (i / BITS_PER_BLOCK))).testBit (i % BITS_PER_BLOCK)

/-- The bits from `bmapLen` to the end of the last block are set. -/
def Padded (fs : FileSys) (bmapStart : ULong) (bmapLen : ℕ) : Prop :=
  ∀ i, bmapLen ≤ i → i < BITS_PER_BLOCK * bmapBlocks bmapLen → fs.bit bmapStart i = true

theorem div_lt_bmapBlocks {i n : ℕ} (h : i < n) : i / BITS_PER_BLOCK < bmapBlocks n := by
  simp only [bmapBlocks, BITS_PER_BLOCK, FS_BLKSIZ]
  omega

theorem blockBit_div {k i : ℕ} (hi : i < BITS_PER_BLOCK) :
    (BITS_PER_BLOCK * k + i) / BITS_PER_BLOCK = k := by
  rw [Nat.mul_add_div (by decide), Nat.div_eq_of_lt hi, Nat.add_zero]

theorem blockBit_mod {k i : ℕ} (hi : i < BITS_PER_BLOCK) :
    (BITS_PER_BLOCK * k + i) % BITS_PER_BLOCK = i := by
  rw [Nat.mul_add_mod, Nat.mod_eq_of_lt hi]

/-- The scan finds the bit `BITS_PER_BLOCK * k + i`, which is the first clear one, and none of
the padding. -/
theorem bmapScan_eq_some {fs : FileSys} {bmapStart : ULong} {bmapLen k i : ℕ}
    (hpad : fs.Padded bmapStart bmapLen) (h : fs.bmapScan bmapStart bmapLen = some (k, i)) :
    i < BITS_PER_BLOCK ∧ BITS_PER_BLOCK * k + i < bmapLen ∧
      fs.bit bmapStart (BITS_PER_BLOCK * k + i) = false ∧
      ∀ j < BITS_PER_BLOCK * k + i, fs.bit bmapStart j = true := by
  obtain ⟨k', hk, hki, hmin⟩ := Blk.exists_of_findSome?_range h
  obtain ⟨i', hfind, heq⟩ := Option.map_eq_some_iff.mp hki
  obtain ⟨rfl, rfl⟩ : k' = k ∧ i' = i := Prod.mk.inj heq
  obtain ⟨hlt, hclear, hfirst⟩ := Blk.findZeroBit_eq_some hfind
  have hi : i' < BITS_PER_BLOCK := by
    simp only [BITS_PER_BLOCK, FS_BLKSIZ] at hlt ⊢
    omega
  have hbit : fs.bit bmapStart (BITS_PER_BLOCK * k' + i') = false := by
    rw [bit, blockBit_div hi, blockBit_mod hi]
    exact hclear
  refine ⟨hi, ?_, hbit, ?_⟩
  · by_contra hge
    have hin : BITS_PER_BLOCK * k' + i' < BITS_PER_BLOCK * bmapBlocks bmapLen := by
      simp only [bmapBlocks, BITS_PER_BLOCK, FS_BLKSIZ] at hi hk ⊢
      omega
    rw [hpad _ (Nat.le_of_not_lt hge) hin] at hbit
    cases hbit
  · intro j hj
    by_cases hjk : j / BITS_PER_BLOCK < k'
    · -- a block before the one with the clear bit
      apply Blk.findZeroBit_eq_none (Option.map_eq_none_iff.mp (hmin _ hjk))
      simp only [bmapBlocks, BITS_PER_BLOCK, FS_BLKSIZ] at hjk hk ⊢
      omega
    · have hdiv : j / BITS_PER_BLOCK = k' := by
        simp only [BITS_PER_BLOCK, FS_BLKSIZ] at hjk hj hi ⊢
        omega
      rw [bit, hdiv]
      apply hfirst
      simp only [BITS_PER_BLOCK, FS_BLKSIZ] at hdiv hj ⊢
      omega

/-- A scan that finds nothing has seen every bit set. -/
theorem bmapScan_eq_none {fs : FileSys} {bmapStart : ULong} {bmapLen : ℕ}
    (h : fs.bmapScan bmapStart bmapLen = none) : ∀ n < bmapLen, fs.bit bmapStart n = true := by
  intro n hn
  have hk := List.findSome?_eq_none_iff.mp h (n / BITS_PER_BLOCK)
    (List.mem_range.mpr (by simp only [bmapBlocks, BITS_PER_BLOCK, FS_BLKSIZ]; omega))
  apply Blk.findZeroBit_eq_none (Option.map_eq_none_iff.mp hk)
  simp only [BITS_PER_BLOCK, FS_BLKSIZ]
  omega

/-- Set or clear a bit of a bitmap. -/
def putBit (fs : FileSys) (bmapStart : ULong) (i : ℕ) (v : Bool) : FileSys :=
  let bmapBlk := bmapStart + BitVec.ofNat 32 (i / BITS_PER_BLOCK)
  let bit := i % BITS_PER_BLOCK
  fs.store bmapBlk (if v then (fs.disk bmapBlk).setBit bit else (fs.disk bmapBlk).clearBit bit)

@[simp] theorem putBit_sup (fs : FileSys) (s : ULong) (i : ℕ) (v : Bool) :
    (fs.putBit s i v).sup = fs.sup := rfl
@[simp] theorem putBit_inode (fs : FileSys) (s : ULong) (i : ℕ) (v : Bool) :
    (fs.putBit s i v).inode = fs.inode := rfl

theorem putBit_disk_of_ne (fs : FileSys) {s a : ULong} {i : ℕ} (v : Bool)
    (h : a ≠ s + BitVec.ofNat 32 (i / BITS_PER_BLOCK)) : (fs.putBit s i v).disk a = fs.disk a :=
  fs.store_disk_of_ne _ h

/-- Only that bit changes. -/
theorem bit_putBit (fs : FileSys) (s : ULong) {i j : ℕ} (v : Bool) (hi : i < 2 ^ 32) (hj : j < 2 ^ 32) :
    (fs.putBit s i v).bit s j = if j = i then v else fs.bit s j := by
  have hlt : ∀ k, k % BITS_PER_BLOCK < BITS_PER_BLOCK := fun k => Nat.mod_lt k (by decide)
  by_cases hblk : j / BITS_PER_BLOCK = i / BITS_PER_BLOCK
  · have hij : j % BITS_PER_BLOCK = i % BITS_PER_BLOCK ↔ j = i := by
      simp only [BITS_PER_BLOCK, FS_BLKSIZ] at hblk ⊢
      omega
    rw [bit, bit, hblk, putBit, store_disk_self]
    cases v
    · simp [Blk.testBit_clearBit (hlt j), hij]
    · rw [if_pos rfl, ← hblk, Blk.testBit_setBit (hlt j)]
      simp only [hij]
      by_cases h : j = i <;> simp [h]
  · have hij : j ≠ i := by rintro rfl; exact hblk rfl
    have hne : s + BitVec.ofNat 32 (j / BITS_PER_BLOCK) ≠ s + BitVec.ofNat 32 (i / BITS_PER_BLOCK) := by
      intro h
      have hnat := congrArg BitVec.toNat h
      simp only [BitVec.toNat_add, BitVec.toNat_ofNat] at hnat
      have hi' := Nat.div_le_self i BITS_PER_BLOCK
      have hj' := Nat.div_le_self j BITS_PER_BLOCK
      generalize i / BITS_PER_BLOCK = p at *
      generalize j / BITS_PER_BLOCK = q at *
      omega
    rw [if_neg hij, bit, bit, fs.putBit_disk_of_ne v hne]

/-- **`bmap_alloc`** sets the first clear bit, or finds all of them set. -/
theorem bmapAlloc_spec {fs : FileSys} {bmapStart bmapLen : ULong}
    (hpad : fs.Padded bmapStart bmapLen.toNat) :
    (∃ n, n < bmapLen.toNat ∧ fs.bit bmapStart n = false ∧ (∀ j < n, fs.bit bmapStart j = true) ∧
      fs.bmapAlloc bmapStart bmapLen = (some (BitVec.ofNat 32 n), (fs.putBit bmapStart n true).flush)) ∨
    ((∀ n < bmapLen.toNat, fs.bit bmapStart n = true) ∧
      fs.bmapAlloc bmapStart bmapLen = (none, fs.fail E_NOSPC)) := by
  rcases hscan : fs.bmapScan bmapStart bmapLen.toNat with _ | ⟨k, i⟩
  · right
    exact ⟨bmapScan_eq_none hscan, by rw [bmapAlloc, hscan]⟩
  · left
    obtain ⟨hi, hlt, hclear, hfirst⟩ := bmapScan_eq_some hpad hscan
    refine ⟨BITS_PER_BLOCK * k + i, hlt, hclear, hfirst, ?_⟩
    have hk : (bmapStart + BitVec.ofNat 32 k - bmapStart) = BitVec.ofNat 32 k := by
      rw [BitVec.add_comm, BitVec.add_sub_cancel]
    rw [bmapAlloc, hscan, putBit, blockBit_div hi, blockBit_mod hi]
    simp only [hk, if_true, Prod.mk.injEq, Option.some.injEq, and_true]
    apply BitVec.eq_of_toNat_eq
    simp only [BitVec.toNat_add, BitVec.toNat_mul, BitVec.toNat_ofNat, BITS_PER_BLOCK, FS_BLKSIZ,
      show BitVec.toNat (8 : ULong) = 8 from rfl]
    omega

/-- **`bmap_free`** clears its bit. -/
theorem bmapFree_spec {fs : FileSys} {bmapStart bit : ULong} (h : fs.bit bmapStart bit.toNat = true) :
    fs.bmapFree bmapStart bit = (fs.putBit bmapStart bit.toNat false).flush := by
  have hblk : bit / BitVec.ofNat 32 BITS_PER_BLOCK + bmapStart
      = bmapStart + BitVec.ofNat 32 (bit.toNat / BITS_PER_BLOCK) := by
    have hlt := Nat.div_le_self bit.toNat BITS_PER_BLOCK
    rw [BitVec.add_comm]
    congr 1
    apply BitVec.eq_of_toNat_eq
    rw [BitVec.toNat_udiv, BitVec.toNat_ofNat, BitVec.toNat_ofNat,
      Nat.mod_eq_of_lt (by decide : BITS_PER_BLOCK < 2 ^ 32), Nat.mod_eq_of_lt (by omega)]
  have hmod : (bit % BitVec.ofNat 32 BITS_PER_BLOCK).toNat = bit.toNat % BITS_PER_BLOCK := by
    rw [BitVec.toNat_umod, BitVec.toNat_ofNat,
      Nat.mod_eq_of_lt (by decide : BITS_PER_BLOCK < 2 ^ 32)]
  rw [FileSys.bit] at h
  simp only [bmapFree, hblk, hmod, h, putBit, if_true, Bool.false_eq_true, if_false]

end FileSys

end Vmm386.Fs
