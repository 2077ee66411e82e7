import Vmm386.Fs.MkfsDimensions
import Vmm386.Fs.Consistency

/-!
# What `mkfs` leaves on the device

If the areas it computes fit on the device, `mkfs` leaves a consistent file system: both
bitmaps have just their first bit and their padding set, and the one block an inode leads to
is that of the root directory.
-/

namespace Vmm386.Fs.FileSys

open Forest

/-! ## The areas -/

/-- The reserved blocks are on the device, and the data area has at least one block; the
number of its blocks is kept in an `int`. -/
def Fits (total reserved : ULong) : Prop :=
  reserved.toNat < total.toNat ∧ 0 < (superData total reserved).dataSize.toNat ∧
    (superData total reserved).dataSize.toNat < 2 ^ 31

/-- Where the areas are. -/
structure Areas (sup : SuperData) : Prop where
  inodeBitmap : 0 < sup.inodeBitmap.toNat
  inodes : sup.inodes.toNat = sup.inodeBitmap.toNat + sup.numInodes.toNat / BITS_PER_BLOCK + 1
  dataBitmap : sup.dataBitmap.toNat = sup.inodes.toNat + sup.numInodes.toNat / INODES_PER_BLOCK
  blocks : bmapBlocks sup.dataSize.toNat ≤ sup.data.toNat - sup.dataBitmap.toNat
  dataBitmap_lt : sup.dataBitmap.toNat < sup.data.toNat
  data : sup.data.toNat + sup.dataSize.toNat < 2 ^ 32
  dataSize : 0 < sup.dataSize.toNat
  dataSize_lt : sup.dataSize.toNat < 2 ^ 31
  numInodes_lt : sup.numInodes.toNat < 2 ^ 31
  mod : sup.numInodes.toNat % INODES_PER_BLOCK = 0

theorem superData_areas {total reserved : ULong} (h : Fits total reserved) :
    Areas (superData total reserved) := by
  obtain ⟨hlt, hpos, hfit⟩ := h
  have hroom : reserved.toNat + 3 ≤ total.toNat := by
    by_contra hfew
    have := superData_wraps hlt (by omega)
    omega
  obtain ⟨rest, hdim⟩ := superData_dimensions hroom
  have htotal := total.isLt
  have hn := hdim.numInodes
  have hib := hdim.inodeBitmap
  have hend := hdim.dataEnd
  have hdata := hdim.data
  have hsize := hdim.dataSize
  simp only [inodesFor, BITS_PER_BLOCK, FS_BLKSIZ] at hn hdata hsize
  constructor
  · omega
  · exact hdim.inodes
  · exact hdim.dataBitmap
  · simp only [bmapBlocks, BITS_PER_BLOCK, FS_BLKSIZ]
    omega
  · omega
  · omega
  · exact hpos
  · exact hfit
  · omega
  · rw [hn]
    exact Nat.mul_mod_left _ _

theorem Areas.layout {sup : SuperData} (h : Areas sup) : Layout sup where
  inodeBitmap := by
    have h1 := h.inodes
    have h2 := h.dataBitmap
    simp only [bmapBlocks, BITS_PER_BLOCK, FS_BLKSIZ, INODES_PER_BLOCK] at h1 h2 ⊢
    omega
  dataBitmap := by
    have h1 := h.blocks
    have h2 := h.dataBitmap_lt
    omega
  data := Nat.le_of_lt h.data
  numInodes := h.numInodes_lt
  dataSize := h.dataSize_lt

/-! ## The loops -/

section

variable {ret : ULong → ℤ} {disk disk' : Disk} {start block block' : ULong} {tmp tmp' : ℕ}

theorem toNat_add_one {a : ULong} (h : a.toNat + 1 < 2 ^ 32) : (a + 1).toNat = a.toNat + 1 := by
  rw [BitVec.toNat_add, show BitVec.toNat (1 : ULong) = 1 from rfl]
  omega

theorem writeBlock_eq_some {b : Blk} (h : writeBlock ret disk block b = some disk') :
    disk' = Function.update disk block b := by
  rw [writeBlock] at h
  split at h
  · cases h
  · exact (Option.some.inj h).symm

/-- The full blocks of a bitmap: `k` of them have been written. -/
theorem writeBitmap_spec (h : writeBitmap ret start block tmp disk = some (block', tmp', disk'))
    (hfit : block.toNat + tmp / BITS_PER_BLOCK < 2 ^ 32) :
    ∃ k, tmp = tmp' + BITS_PER_BLOCK * k ∧ tmp' ≤ BITS_PER_BLOCK ∧ (0 < tmp → 0 < tmp') ∧
      block'.toNat = block.toNat + k ∧
      ∀ a, disk' a = if block.toNat ≤ a.toNat ∧ a.toNat < block.toNat + k then
        (if a = start then Blk.zero.setBit 0 else Blk.zero) else disk a := by
  fun_induction writeBitmap ret start block tmp disk with
  | case1 block tmp disk hgt hfail => cases h
  | case2 block tmp disk hgt disk₁ hwrite ih =>
    simp only [BITS_PER_BLOCK, FS_BLKSIZ] at hgt hfit
    have hone := toNat_add_one (a := block) (by omega)
    obtain ⟨k, htmp, hle, hpos, hblock, hdisk⟩ := ih h
      (by simp only [BITS_PER_BLOCK, FS_BLKSIZ]; omega)
    refine ⟨k + 1, ?_, hle, fun _ => hpos ?_, by omega, fun a => ?_⟩
    · simp only [BITS_PER_BLOCK, FS_BLKSIZ] at htmp ⊢
      omega
    · simp only [BITS_PER_BLOCK, FS_BLKSIZ]
      omega
    · rw [hdisk, writeBlock_eq_some hwrite, hone]
      by_cases ha : a = block
      · subst ha
        rw [if_neg (by omega), if_pos (by omega), Function.update_self, dite_eq_ite]
      · have hne : a.toNat ≠ block.toNat := fun h => ha (BitVec.eq_of_toNat_eq h)
        rw [Function.update_of_ne ha]
        exact if_congr (by omega) rfl rfl
  | case3 block tmp disk hle =>
    obtain ⟨rfl, rfl, rfl⟩ : block = block' ∧ tmp = tmp' ∧ disk = disk' := by simpa using h
    exact ⟨0, by omega, by omega, id, by omega, fun a => by rw [if_neg (by omega)]⟩

/-- The inode blocks. -/
theorem writeInodes_spec {sup : SuperData} {now : ULong}
    (h : writeInodes ret sup now block disk = some disk') :
    ∀ a, disk' a = if block.toNat ≤ a.toNat ∧ a.toNat < sup.dataBitmap.toNat then
      (if a = sup.inodes then rootInodes sup.data now else Blk.zero) else disk a := by
  fun_induction writeInodes ret sup now block disk with
  | case1 block disk hlt hfail => cases h
  | case2 block disk hlt disk₁ hwrite ih =>
    intro a
    have hlt' := BitVec.lt_def.mp hlt
    have hmax := sup.dataBitmap.isLt
    rw [ih h a, writeBlock_eq_some hwrite, toNat_add_one (a := block) (by omega)]
    by_cases ha : a = block
    · subst ha
      rw [if_neg (by omega), if_pos (by omega), Function.update_self, dite_eq_ite]
    · have hne : a.toNat ≠ block.toNat := fun h => ha (BitVec.eq_of_toNat_eq h)
      rw [Function.update_of_ne ha]
      exact if_congr (by omega) rfl rfl
  | case3 block disk hge =>
    intro a
    obtain rfl : disk = disk' := Option.some.inj h
    have hge' : ¬block.toNat < sup.dataBitmap.toNat := fun h => hge (BitVec.lt_def.mpr h)
    rw [if_neg (by omega)]

/-! ## The bitmaps -/

theorem testBit_padBits {b : Blk} {j : ℕ} (hj : j < BITS_PER_BLOCK) :
    (b.padBits tmp).testBit j = (b.testBit j || decide (tmp ≤ j)) := by
  have hloop : ∀ n, tmp + n ≤ BITS_PER_BLOCK →
      ((List.range n).foldl (fun b i => Blk.setBit b (tmp + i)) b).testBit j =
        (b.testBit j || decide (tmp ≤ j ∧ j < tmp + n)) := by
    intro n hn
    induction n with
    | zero => simp
    | succ n ih =>
      have hiff : (j = tmp + n ∨ tmp ≤ j ∧ j < tmp + n) ↔ tmp ≤ j ∧ j < tmp + (n + 1) := by omega
      rw [List.range_succ, List.foldl_append, List.foldl_cons, List.foldl_nil,
        Blk.testBit_setBit hj, ih (by omega), Bool.or_left_comm, ← Bool.decide_or]
      simp only [hiff]
  rw [Blk.padBits]
  by_cases htmp : tmp ≤ BITS_PER_BLOCK
  · have hiff : (tmp ≤ j ∧ j < tmp + (BITS_PER_BLOCK - tmp)) ↔ tmp ≤ j := by omega
    rw [hloop _ (by omega)]
    simp only [hiff]
  · have hlt : ¬tmp ≤ j := by omega
    rw [show BITS_PER_BLOCK - tmp = 0 by omega]
    simp [hlt]

/-- The bits of a bitmap of `len` bits when all its blocks are written: the first one and the
padding are set. -/
theorem bitmap_bits {start : ULong} {len k : ℕ} (last : Blk) (disk : Disk) {disk' : Disk}
    (hfit : start.toNat + bmapBlocks len < 2 ^ 32)
    (htmp : len = tmp + BITS_PER_BLOCK * k) (hpos : 0 < tmp) (hle : tmp ≤ BITS_PER_BLOCK)
    (hfull : ∀ a, start.toNat ≤ a.toNat → a.toNat < start.toNat + k →
      disk a = if a = start then Blk.zero.setBit 0 else Blk.zero)
    (hlast : ∀ j < BITS_PER_BLOCK, last.testBit j = (decide (k = 0 ∧ j = 0) || decide (tmp ≤ j)))
    (hdisk : ∀ a, start.toNat ≤ a.toNat → a.toNat ≤ start.toNat + k →
      disk' a = if a.toNat = start.toNat + k then last else disk a) :
    ∀ i < BITS_PER_BLOCK * bmapBlocks len,
      (disk' (start + BitVec.ofNat 32 (i / BITS_PER_BLOCK))).testBit (i % BITS_PER_BLOCK) =
        (decide (i = 0) || decide (len ≤ i)) := by
  intro i hi
  have hblocks : bmapBlocks len = k + 1 := by
    simp only [bmapBlocks, BITS_PER_BLOCK, FS_BLKSIZ] at *
    omega
  -- bit `r` of block `q`
  have hmod : i % BITS_PER_BLOCK < BITS_PER_BLOCK := Nat.mod_lt i (by decide)
  have hdm := Nat.div_add_mod i BITS_PER_BLOCK
  generalize i / BITS_PER_BLOCK = q at *
  generalize i % BITS_PER_BLOCK = r at *
  rw [hblocks] at hi hfit
  have hdiv : q ≤ k := by
    simp only [BITS_PER_BLOCK, FS_BLKSIZ] at *
    omega
  have ha : (start + BitVec.ofNat 32 q).toNat = start.toNat + q := by
    rw [BitVec.toNat_add, BitVec.toNat_ofNat]
    omega
  rw [hdisk _ (by omega) (by omega)]
  simp only [BITS_PER_BLOCK, FS_BLKSIZ] at hdm htmp hle hmod hlast
  by_cases hk : q = k
  · rw [if_pos (by omega), hlast _ hmod]
    have h1 : (k = 0 ∧ r = 0) ↔ i = 0 := by omega
    have h2 : tmp ≤ r ↔ len ≤ i := by omega
    simp only [h1, h2]
  · rw [if_neg (by omega), hfull _ (by omega) (by omega)]
    have hlen' : ¬len ≤ i := by omega
    have hstart : start + BitVec.ofNat 32 q = start ↔ q = 0 := by
      rw [← BitVec.toNat_inj, ha]
      omega
    by_cases h0 : q = 0
    · rw [if_pos (hstart.mpr h0), Blk.testBit_setBit hmod]
      have h1 : r = 0 ↔ i = 0 := by omega
      simp [h1, hlen']
    · have h1 : i ≠ 0 := by omega
      rw [if_neg fun h => h0 (hstart.mp h)]
      simp [h1, hlen']

/-! ## `mkfs` -/

/-- What a device that held `old` holds after `mkfs`. -/
structure Made (sup : SuperData) (now : ULong) (old disk : Disk) : Prop where
  superData : readMetaData disk = some sup
  inodeBits : ∀ i < BITS_PER_BLOCK * bmapBlocks sup.numInodes.toNat,
    (disk (sup.inodeBitmap + BitVec.ofNat 32 (i / BITS_PER_BLOCK))).testBit (i % BITS_PER_BLOCK) =
      (decide (i = 0) || decide (sup.numInodes.toNat ≤ i))
  inodes : ∀ a, sup.inodes.toNat ≤ a.toNat → a.toNat < sup.dataBitmap.toNat →
    disk a = if a = sup.inodes then rootInodes sup.data now else Blk.zero
  dataBits : ∀ i < BITS_PER_BLOCK * bmapBlocks sup.dataSize.toNat,
    (disk (sup.dataBitmap + BitVec.ofNat 32 (i / BITS_PER_BLOCK))).testBit (i % BITS_PER_BLOCK) =
      (decide (i = 0) || decide (sup.dataSize.toNat ≤ i))
  rootDir : disk sup.data = rootDir
  rest : ∀ a, sup.data.toNat < a.toNat → disk a = old a

theorem readMetaData_bootBlk {sup : SuperData} {bootCode : ℕ → UChar} {old : Blk}
    (h : disk 0 = bootBlk old sup bootCode) : readMetaData disk = some sup := by
  have hlt : ∀ x, x < 128 → x < PTRS_PER_INDIRECT := fun x hx => Nat.lt_trans hx (by decide)
  simp only [readMetaData, h, bootBlk]
  simp [Blk.word_setWord, hlt]

theorem lastInodeBits_testBit {first : Bool} {j : ℕ} (hj : j < BITS_PER_BLOCK) :
    (lastInodeBits first tmp).testBit j = (decide (first = true ∧ j = 0) || decide (tmp ≤ j)) := by
  cases first
  · simp [lastInodeBits, testBit_padBits hj]
  · simp [lastInodeBits, testBit_padBits hj, Blk.testBit_setBit hj]

theorem lastDataBits_testBit {first : Bool} {j : ℕ} (hj : j < BITS_PER_BLOCK) :
    (lastDataBits first tmp).testBit j = (decide (first = true ∧ j = 0) || decide (tmp ≤ j)) := by
  cases first
  · simp [lastDataBits, testBit_padBits hj]
  · simp [lastDataBits, testBit_padBits hj, Blk.testBit_setBit hj]

/-- **`mkfs`**, when it succeeds. -/
theorem mkfs_made {bootRet : ℤ} {bootCode : ℕ → UChar} {now total reserved : ULong}
    (hfits : Fits total reserved)
    (h : mkfs ret bootRet bootCode now total reserved disk = some disk') :
    Made (superData total reserved) now disk disk' := by
  have hareas := superData_areas hfits
  generalize hsup : superData total reserved = sup at hareas ⊢
  obtain ⟨hib, hinodes, hdb, hblocks, hdblt, hdata, hsize, -⟩ := hareas
  have hdb' : sup.inodes.toNat ≤ sup.dataBitmap.toNat := hdb ▸ Nat.le_add_right _ _
  have hN : bmapBlocks sup.numInodes.toNat ≤ sup.numInodes.toNat / BITS_PER_BLOCK + 1 := by
    simp only [bmapBlocks, BITS_PER_BLOCK, FS_BLKSIZ]
    omega
  simp only [mkfs, hsup, Option.bind_eq_bind, Option.bind_eq_some_iff, Prod.exists] at h
  obtain ⟨block₁, tmp₁, d₁, hloop₁, block₂, d₂, hlast₁, d₃, hloop₂, block₄, tmp₄, d₄, hloop₃, d₅, hlast₂,
    d₆, hroot, hboot⟩ := h
  obtain ⟨k₁, htmp₁, hle₁, hpos₁, hblock₁, hd₁⟩ := writeBitmap_spec hloop₁ (by
    generalize sup.numInodes.toNat / BITS_PER_BLOCK = q at *
    omega)
  have hk₁ : k₁ ≤ sup.numInodes.toNat / BITS_PER_BLOCK := by
    rw [Nat.le_div_iff_mul_le (by decide), Nat.mul_comm]
    omega
  -- the loop never gets to the inode blocks, so there is a last block to write
  have hne₁ : block₁ ≠ sup.inodes := by
    intro heq
    rw [heq] at hblock₁
    generalize sup.numInodes.toNat / BITS_PER_BLOCK = q at *
    omega
  rw [finishInodeBitmap, if_pos hne₁, Option.map_eq_some_iff] at hlast₁
  obtain ⟨d, hwrite₁, heq⟩ := hlast₁
  obtain ⟨rfl, rfl⟩ : block₁ + 1 = block₂ ∧ d = d₂ := Prod.mk.inj heq
  have hd₂ := writeBlock_eq_some hwrite₁
  have hblock₂ : (block₁ + 1).toNat = sup.inodeBitmap.toNat + k₁ + 1 := by
    rw [toNat_add_one, hblock₁]
    generalize sup.numInodes.toNat / BITS_PER_BLOCK = q at *
    omega
  have hd₃ := writeInodes_spec hloop₂
  obtain ⟨k₄, htmp₄, hle₄, hpos₄, hblock₄, hd₄⟩ := writeBitmap_spec hloop₃ (by
    have hdiv := Nat.div_le_self sup.dataSize.toNat BITS_PER_BLOCK
    generalize sup.dataSize.toNat / BITS_PER_BLOCK = q at *
    omega)
  have hk₄ : k₄ < bmapBlocks sup.dataSize.toNat := by
    have hpos := hpos₄ hsize
    simp only [bmapBlocks, BITS_PER_BLOCK, FS_BLKSIZ] at htmp₄ hle₄ ⊢
    omega
  have hne₄ : block₄ ≠ sup.data := by
    intro heq
    rw [heq] at hblock₄
    omega
  rw [finishDataBitmap, if_pos hne₄] at hlast₂
  have hd₅ := writeBlock_eq_some hlast₂
  have hd₆ := writeBlock_eq_some hroot
  split at hboot
  · cases hboot
  have hd₇ := writeBlock_eq_some hboot
  -- below the data area, apart from the boot block
  have hlow : ∀ a, 0 < a.toNat → a.toNat < sup.data.toNat → disk' a =
      if a.toNat = block₄.toNat then lastDataBits (block₄ = sup.dataBitmap) tmp₄ else d₄ a := by
    intro a hpos hlt
    have h0 : a ≠ 0 := by
      rintro rfl
      exact absurd hpos (by decide)
    have hdata' : a ≠ sup.data := by
      rintro rfl
      omega
    rw [hd₇, Function.update_of_ne h0, hd₆, Function.update_of_ne hdata', hd₅]
    by_cases ha : a = block₄
    · subst ha
      rw [Function.update_self, if_pos rfl]
    · rw [Function.update_of_ne ha, if_neg fun h => ha (BitVec.eq_of_toNat_eq h)]
  have hlow' : ∀ a, 0 < a.toNat → a.toNat < sup.dataBitmap.toNat → disk' a = d₃ a := by
    intro a hpos hlt
    rw [hlow a hpos (by omega), if_neg (by omega), hd₄, if_neg (by omega)]
  constructor
  · have hboot : disk' 0 = bootBlk (d₆ 0) sup bootCode := by rw [hd₇, Function.update_self]
    exact readMetaData_bootBlk hboot
  · rcases Nat.eq_zero_or_pos sup.numInodes.toNat with hzero | hpos
    · intro i hi
      rw [hzero, show bmapBlocks 0 = 0 by decide] at hi
      omega
    · have hN' : k₁ + 1 ≤ sup.numInodes.toNat / BITS_PER_BLOCK + 1 := by omega
      generalize sup.numInodes.toNat / BITS_PER_BLOCK = q at *
      apply bitmap_bits (lastInodeBits (block₁ = sup.inodeBitmap) tmp₁) d₁
        (by omega) htmp₁ (hpos₁ hpos) hle₁
      · intro a h1 h2
        rw [hd₁, if_pos ⟨h1, h2⟩]
      · intro j hj
        have hfirst : block₁ = sup.inodeBitmap ↔ k₁ = 0 := by
          rw [← BitVec.toNat_inj]
          omega
        rw [lastInodeBits_testBit hj]
        simp only [hfirst, decide_eq_true_eq]
      · intro a h1 h2
        rw [hlow' a (by omega) (by omega), hd₃, if_neg (by omega), hd₂]
        by_cases ha : a = block₁
        · subst ha
          rw [Function.update_self, if_pos hblock₁]
        · have hne : a.toNat ≠ block₁.toNat := fun h => ha (BitVec.eq_of_toNat_eq h)
          rw [Function.update_of_ne ha, if_neg (by omega)]
  · intro a h1 h2
    generalize sup.numInodes.toNat / BITS_PER_BLOCK = q at *
    rw [hlow' a (by omega) h2, hd₃, if_pos (by omega)]
  · apply bitmap_bits (lastDataBits (block₄ = sup.dataBitmap) tmp₄) d₄
      (by omega) htmp₄ (hpos₄ hsize) hle₄
    · intro a h1 h2
      rw [hd₄, if_pos ⟨h1, h2⟩]
    · intro j hj
      have hfirst : block₄ = sup.dataBitmap ↔ k₄ = 0 := by
        rw [← BitVec.toNat_inj]
        omega
      rw [lastDataBits_testBit hj]
      simp only [hfirst, decide_eq_true_eq]
    · intro a h1 h2
      rw [hlow a (by omega) (by omega), hblock₄]
  · have h0 : sup.data ≠ 0 := by
      intro h0
      rw [h0] at hdblt
      exact absurd hdblt (Nat.not_lt_zero _)
    rw [hd₇, Function.update_of_ne h0, hd₆, Function.update_self]
  · intro a ha
    generalize sup.numInodes.toNat / BITS_PER_BLOCK = q at *
    have hne : ∀ c : ULong, c.toNat < a.toNat → a ≠ c := by
      rintro c hlt rfl
      omega
    have h0 : BitVec.toNat (0 : ULong) < a.toNat := Nat.lt_of_le_of_lt (Nat.zero_le _) ha
    rw [hd₇, Function.update_of_ne (hne _ h0), hd₆, Function.update_of_ne (hne _ ha), hd₅,
      Function.update_of_ne (hne _ (by omega)), hd₄, if_neg (by omega), hd₃, if_neg (by omega), hd₂,
      Function.update_of_ne (hne _ (by omega)), hd₁, if_neg (by omega)]

/-- A device that never fails gets its file system. -/
theorem mkfs_succeeds {bootRet : ℤ} (hret : ∀ a, 0 ≤ ret a) (hboot : 0 ≤ bootRet)
    (bootCode : ℕ → UChar) (now total reserved : ULong) (disk : Disk) :
    ∃ disk', mkfs ret bootRet bootCode now total reserved disk = some disk' := by
  have hwrite : ∀ (d : Disk) (a : ULong) (b : Blk),
      writeBlock ret d a b = some (Function.update d a b) := by
    intro d a b
    rw [writeBlock, if_neg (not_lt.mpr (hret a))]
  have hbitmap : ∀ start block tmp d, ∃ r, writeBitmap ret start block tmp d = some r := by
    intro start block tmp d
    fun_induction writeBitmap ret start block tmp d with
    | case1 block tmp d hgt hfail =>
      rw [hwrite] at hfail
      cases hfail
    | case2 block tmp d hgt d₁ _ ih => exact ih
    | case3 block tmp d hle => exact ⟨_, rfl⟩
  have hinodes : ∀ sup block d, ∃ r, writeInodes ret sup now block d = some r := by
    intro sup block d
    fun_induction writeInodes ret sup now block d with
    | case1 block d hlt hfail =>
      rw [hwrite] at hfail
      cases hfail
    | case2 block d hlt d₁ _ ih => exact ih
    | case3 block d hge => exact ⟨_, rfl⟩
  have hfinish : ∀ sup block tmp d, ∃ r, finishInodeBitmap ret sup block tmp d = some r := by
    intro sup block tmp d
    rw [finishInodeBitmap]
    split
    · exact ⟨_, by rw [hwrite]; rfl⟩
    · exact ⟨_, rfl⟩
  have hfinish' : ∀ sup block tmp d, ∃ r, finishDataBitmap ret sup block tmp d = some r := by
    intro sup block tmp d
    rw [finishDataBitmap]
    split
    · exact ⟨_, hwrite ..⟩
    · exact ⟨_, rfl⟩
  simp only [mkfs, Option.bind_eq_bind, Option.bind_eq_some_iff, Prod.exists]
  generalize superData total reserved = sup
  obtain ⟨⟨block₁, tmp₁, d₁⟩, h₁⟩ := hbitmap sup.inodeBitmap sup.inodeBitmap sup.numInodes.toNat disk
  obtain ⟨⟨block₂, d₂⟩, h₂⟩ := hfinish sup block₁ tmp₁ d₁
  obtain ⟨d₃, h₃⟩ := hinodes sup block₂ d₂
  obtain ⟨⟨block₄, tmp₄, d₄⟩, h₄⟩ := hbitmap sup.dataBitmap sup.dataBitmap sup.dataSize.toNat d₃
  obtain ⟨d₅, h₅⟩ := hfinish' sup block₄ tmp₄ d₄
  refine ⟨Function.update (Function.update d₅ sup.data rootDir) 0
    (bootBlk (Function.update d₅ sup.data rootDir 0) sup bootCode), block₁, tmp₁, d₁, h₁, block₂, d₂,
    h₂, d₃, h₃, block₄, tmp₄, d₄, h₄, d₅, h₅, _, hwrite .., ?_⟩
  rw [if_neg (not_lt.mpr hboot)]
  exact hwrite ..

/-! ## A file system that has just been made -/

/-- The root inode. -/
def rootInode (data now : ULong) : Inode where
  attr := ATTR_DIRECTORY
  size := 64
  modtime := now
  nlinks := 2
  data k := if k = 0 then data else 0

theorem inodeAt_zero (j : ℕ) : Blk.zero.inodeAt j = Inode.zero := by
  simp only [Blk.inodeAt, Blk.word_zero, Inode.zero]

theorem inodeAt_rootInodes {data now : ULong} {j : ℕ} (hj : j < INODES_PER_BLOCK) :
    (rootInodes data now).inodeAt j = if j = 0 then rootInode data now else Inode.zero := by
  simp only [INODES_PER_BLOCK] at hj
  have hlt : ∀ x, x < 256 → x < PTRS_PER_INDIRECT := fun x hx => Nat.lt_of_lt_of_le hx (by decide)
  have hword : ∀ x, x < 256 → (rootInodes data now).word x =
      if x = 4 then data else if x = 3 then 2 else if x = 1 then 64 else if x = 2 then now
      else if x = 0 then ATTR_DIRECTORY else 0 := by
    intro x hx
    simp only [rootInodes, Blk.word_setWord (hlt x hx), Blk.word_zero]
  by_cases h0 : j = 0
  · subst h0
    apply Inode.ext
    · exact hword _ (by decide)
    · exact hword _ (by decide)
    · exact hword _ (by decide)
    · exact hword _ (by decide)
    · funext k
      have hk : (k : ℕ) = 0 ↔ k = 0 := by rw [Fin.ext_iff]; rfl
      have hk12 : (k : ℕ) < 12 := k.isLt
      refine (hword (16 * 0 + 4 + k) (by omega)).trans ?_
      by_cases hk0 : k = 0
      · rw [if_pos (by have := hk.mpr hk0; omega), rootInode]
        exact (if_pos hk0).symm
      · have hk1 : (k : ℕ) ≠ 0 := fun h => hk0 (hk.mp h)
        rw [if_neg (by omega), if_neg (by omega), if_neg (by omega), if_neg (by omega),
          if_neg (by omega), rootInode]
        exact (if_neg hk0).symm
  · have hz : ∀ x, 16 ≤ x → x < 256 → (rootInodes data now).word x = 0 := by
      intro x hx hx'
      rw [hword x hx', if_neg (by omega), if_neg (by omega), if_neg (by omega), if_neg (by omega),
        if_neg (by omega)]
    rw [if_neg h0]
    apply Inode.ext
    · exact hz _ (by omega) (by omega)
    · exact hz _ (by omega) (by omega)
    · exact hz _ (by omega) (by omega)
    · exact hz _ (by omega) (by omega)
    · funext k
      have hk : (k : ℕ) < 12 := k.isLt
      exact hz _ (by omega) (by omega)

variable {sup : SuperData} {now : ULong} {ioResult : ℤ} {fs : FileSys} {old : Disk}

theorem Made.mount_eq (hm : Made sup now old disk) (h : mount disk ioResult = some fs) :
    fs.sup = sup ∧ fs.disk = disk ∧ ∀ inum, fs.inode inum =
      (disk (inum / BitVec.ofNat 32 INODES_PER_BLOCK + sup.inodes)).inodeAt
        (inum % BitVec.ofNat 32 INODES_PER_BLOCK).toNat := by
  rw [mount, hm.superData, Option.map_some] at h
  obtain rfl := Option.some.inj h
  exact ⟨rfl, rfl, fun _ => rfl⟩

/-- Only the root inode is not zero. -/
theorem Made.inode_eq (hm : Made sup now old disk) (hareas : Areas sup)
    (h : mount disk ioResult = some fs) {inum : ULong} (hn : inum.toNat < sup.numInodes.toNat) :
    fs.inode inum = if inum = 0 then rootInode sup.data now else Inode.zero := by
  have hdiv : (inum / BitVec.ofNat 32 INODES_PER_BLOCK).toNat = inum.toNat / 16 := by
    simp [BitVec.toNat_udiv, INODES_PER_BLOCK]
  have hmod : (inum % BitVec.ofNat 32 INODES_PER_BLOCK).toNat = inum.toNat % 16 := by
    simp [BitVec.toNat_umod, INODES_PER_BLOCK]
  have hdb := hareas.dataBitmap
  have hm16 := hareas.mod
  have hdata := hareas.data
  have hlt := hareas.dataBitmap_lt
  simp only [INODES_PER_BLOCK] at hdb hm16
  have ha : (inum / BitVec.ofNat 32 INODES_PER_BLOCK + sup.inodes).toNat
      = inum.toNat / 16 + sup.inodes.toNat := by
    rw [BitVec.toNat_add, hdiv]
    omega
  have hfirst : inum / BitVec.ofNat 32 INODES_PER_BLOCK + sup.inodes = sup.inodes
      ↔ inum.toNat / 16 = 0 := by
    rw [← BitVec.toNat_inj, ha]
    omega
  have h0 : inum = 0 ↔ inum.toNat = 0 := by
    rw [← BitVec.toNat_inj]
    rfl
  rw [(hm.mount_eq h).2.2, hm.inodes _ (by omega) (by omega), hmod]
  by_cases hblock : inum.toNat / 16 = 0
  · rw [if_pos (hfirst.mpr hblock),
      inodeAt_rootInodes (show inum.toNat % 16 < 16 from Nat.mod_lt _ (by decide))]
    apply if_congr _ rfl rfl
    rw [h0]
    omega
  · rw [if_neg fun h => hblock (hfirst.mp h), inodeAt_zero, if_neg]
    rw [h0]
    omega

/-- **A file system that has just been made is consistent.** -/
theorem Made.consistent (hm : Made sup now old disk) (hareas : Areas sup)
    (h : mount disk ioResult = some fs) : Consistent fs := by
  obtain ⟨hsup, hdisk, -⟩ := hm.mount_eq h
  have hL : Layout fs.sup := hsup ▸ hareas.layout
  have hdata : InData fs.sup fs.sup.data := by
    have hsize := hareas.dataSize
    rw [hsup]
    exact ⟨Nat.le_refl _, by omega⟩
  have hbits : ∀ i < BITS_PER_BLOCK * bmapBlocks sup.dataSize.toNat,
      fs.bit sup.dataBitmap i = (decide (i = 0) || decide (sup.dataSize.toNat ≤ i)) := by
    rw [← hdisk] at hm
    exact hm.dataBits
  -- the only pointer that is not null
  have hroot : ∀ r : ULong × Fin NR_PTRS, fs.walk (.root r) ≠ 0 →
      r = (0, 0) ∧ fs.walk (.root r) = fs.sup.data := by
    rintro ⟨n, k⟩ hne
    simp only [walk, walk_root, forest] at hne ⊢
    split at hne
    · rename_i hn
      rw [if_pos hn]
      rw [hsup] at hn ⊢
      rw [hm.inode_eq hareas h hn] at hne ⊢
      by_cases hn0 : n = 0
      · rw [if_pos hn0, rootInode] at hne ⊢
        by_cases hk : k = 0
        · exact ⟨Prod.ext hn0 hk, if_pos hk⟩
        · exact absurd (if_neg hk) hne
      · rw [if_neg hn0] at hne
        exact absurd rfl hne
    · exact absurd rfl hne
  have hwalk : ∀ P : Path, P.Valid height → fs.walk P ≠ 0 →
      P = .root (0, 0) ∧ fs.walk P = fs.sup.data := by
    intro P hP hne
    cases P with
    | root r =>
      obtain ⟨rfl, heq⟩ := hroot r hne
      exact ⟨rfl, heq⟩
    | sub P i =>
      -- a path below a root that is not null would go on below a data block
      exfalso
      have hbase : P.base = (0, 0) := by
        apply (hroot P.base _).1
        intro h0
        exact hne (walk_eq_zero_of_passes (Path.passes_base (P.sub i)) h0)
      rw [Path.valid_sub, Path.Inner, hbase] at hP
      exact absurd hP (Nat.not_lt_zero _)
  refine ⟨hL, ?_, ?_, ?_⟩
  · intro i hi hlt
    rw [hsup] at hi hlt ⊢
    rw [hbits i hlt]
    simp [hi]
  · intro P Q hP hQ hne heq
    have hneQ : fs.walk Q ≠ 0 := fun h0 => hne (heq.trans h0)
    rw [(hwalk P hP hne).1, (hwalk Q hQ hneQ).1]
  · intro P hP hne
    rw [(hwalk P hP hne).2]
    refine ⟨hdata, ?_⟩
    have hpos : 0 < BITS_PER_BLOCK * bmapBlocks sup.dataSize.toNat := by
      have hsize := hareas.dataSize
      simp only [bmapBlocks, BITS_PER_BLOCK, FS_BLKSIZ]
      omega
    rw [inUse, BitVec.sub_self, hsup]
    exact (hbits 0 hpos).trans (by simp)

/-- A file system on a device that `mkfs` has been run on, just mounted. -/
structure FreshlyMade (fs : FileSys) : Prop where
  made : ∃ (ret : ULong → ℤ) (bootRet : ℤ) (bootCode : ℕ → UChar) (now total reserved : ULong)
    (old disk : Disk), Fits total reserved ∧
      mkfs ret bootRet bootCode now total reserved old = some disk ∧
      mount disk fs.ioResult = some fs ∧ fs.sup = superData total reserved

theorem FreshlyMade.areas (h : FreshlyMade fs) : Areas fs.sup := by
  obtain ⟨_, _, _, _, _, _, _, _, hfits, -, -, hsup⟩ := h.made
  rw [hsup]
  exact superData_areas hfits

theorem FreshlyMade.spec (h : FreshlyMade fs) :
    ∃ now old disk, Made fs.sup now old disk ∧ mount disk fs.ioResult = some fs := by
  obtain ⟨_, _, _, now, _, _, old, disk, hfits, hmkfs, hmount, hsup⟩ := h.made
  exact ⟨now, old, disk, hsup ▸ mkfs_made hfits hmkfs, hmount⟩

theorem FreshlyMade.consistent (h : FreshlyMade fs) : Consistent fs := by
  obtain ⟨now, old, disk, hmade, hmount⟩ := h.spec
  exact hmade.consistent h.areas hmount

/-- The root inode is the first one. -/
theorem FreshlyMade.inode_eq (h : FreshlyMade fs) {inum : ULong}
    (hn : inum.toNat < fs.sup.numInodes.toNat) :
    ∃ now, fs.inode inum = if inum = 0 then rootInode fs.sup.data now else Inode.zero := by
  obtain ⟨now, old, disk, hmade, hmount⟩ := h.spec
  exact ⟨now, hmade.inode_eq h.areas hmount hn⟩

theorem FreshlyMade.walk_root (h : FreshlyMade fs) (hn : 0 < fs.sup.numInodes.toNat) :
    fs.walk (.root (0, 0)) = fs.sup.data := by
  obtain ⟨now, hinode⟩ := h.inode_eq (show (0 : ULong).toNat < fs.sup.numInodes.toNat from hn)
  rw [if_pos rfl] at hinode
  refine (if_pos hn).trans ?_
  rw [hinode]
  rfl

theorem FreshlyMade.inodeBit (h : FreshlyMade fs) {i : ℕ}
    (hi : i < BITS_PER_BLOCK * bmapBlocks fs.sup.numInodes.toNat) :
    fs.bit fs.sup.inodeBitmap i = (decide (i = 0) || decide (fs.sup.numInodes.toNat ≤ i)) := by
  obtain ⟨now, old, disk, hmade, hmount⟩ := h.spec
  rw [bit, (hmade.mount_eq hmount).2.1]
  exact hmade.inodeBits i hi

theorem FreshlyMade.dataBit (h : FreshlyMade fs) {i : ℕ}
    (hi : i < BITS_PER_BLOCK * bmapBlocks fs.sup.dataSize.toNat) :
    fs.bit fs.sup.dataBitmap i = (decide (i = 0) || decide (fs.sup.dataSize.toNat ≤ i)) := by
  obtain ⟨now, old, disk, hmade, hmount⟩ := h.spec
  rw [bit, (hmade.mount_eq hmount).2.1]
  exact hmade.dataBits i hi

/-- There are such file systems: one of twenty blocks, for instance. What the device held
before is still in the blocks that are free. -/
theorem exists_freshlyMade_on (old : Disk) : ∃ fs, FreshlyMade fs ∧ fs.sup = superData 20 0 ∧
    fs.ioResult = 0 ∧ ∀ a, fs.sup.data.toNat < a.toNat → fs.disk a = old a := by
  obtain ⟨disk, hmkfs⟩ := @mkfs_succeeds (fun _ => 0) 0 (by simp) (by decide)
    (fun _ => 0) 0 20 0 old
  have hfits : Fits 20 0 := ⟨by decide, by decide⟩
  have hmade := mkfs_made hfits hmkfs
  have hmount : ∃ fs, mount disk 0 = some fs ∧ fs.ioResult = 0 := by
    rw [mount, hmade.superData]
    exact ⟨_, rfl, rfl⟩
  obtain ⟨fs, hfs, hio⟩ := hmount
  obtain ⟨hsup, hdisk, -⟩ := hmade.mount_eq hfs
  refine ⟨fs, ⟨_, _, _, _, _, _, _, disk, hfits, hmkfs, by rwa [hio], hsup⟩, hsup, hio, ?_⟩
  rw [hsup, hdisk]
  exact hmade.rest

theorem exists_freshlyMade : ∃ fs, FreshlyMade fs ∧ fs.sup = superData 20 0 := by
  obtain ⟨fs, hfresh, hsup, -⟩ := exists_freshlyMade_on fun _ => Blk.zero
  exact ⟨fs, hfresh, hsup⟩

end

end Vmm386.Fs.FileSys
