import Vmm386.Fs.BlockFetch
import Vmm386.Fs.File

/-!
# The contents of files

A file is a function from offsets to bytes. `read_file` returns the bytes at its position;
`write_file` puts bytes there, and apart from that changes only the bytes of blocks that it
allocates: these keep what the device held there.
-/

namespace Vmm386.Fs.FileSys

open Forest

section

variable {fs fs' fs'' : FileSys} {inum pos size : ULong} {P Q : Path} {n m off len : ℕ}

/-! ## The bytes of a file -/

/-- The data block with number `n` of an inode; 0 if there is none. -/
def dataBlock (fs : FileSys) (inum : ULong) (n : ℕ) : ULong := fs.walk (dataPath inum n)

/-- The byte at an offset, whatever the size is. -/
def byteAt (fs : FileSys) (inum : ULong) (off : ℕ) : UChar :=
  let blk := fs.dataBlock inum (off / FS_BLKSIZ)
  if blk = 0 then 0 else (fs.disk blk).byte (off % FS_BLKSIZ)

@[simp] theorem dataBlock_fail (e : ℤ) : (fs.fail e).dataBlock inum n = fs.dataBlock inum n := rfl
@[simp] theorem byteAt_fail (e : ℤ) : (fs.fail e).byteAt inum off = fs.byteAt inum off := rfl

/-- The number of the block that a path leads to. -/
def blockNumber : Path → ℕ
  | .root r => r.2
  | .sub (.root _) i => SINGLE_INDIRECT + i
  | .sub (.sub (.root _) i) j =>
    SINGLE_INDIRECT + PTRS_PER_INDIRECT + (PTRS_PER_INDIRECT * i + j)
  | .sub (.sub (.sub _ i) j) k =>
    SINGLE_INDIRECT + PTRS_PER_INDIRECT + PTRS_PER_INDIRECT * PTRS_PER_INDIRECT
      + (PTRS_PER_INDIRECT * (PTRS_PER_INDIRECT * i + j) + k)

theorem blockNumber_dataPath (hn : n < MAX_FILE_BLOCKS) : blockNumber (dataPath inum n) = n := by
  unfold MAX_FILE_BLOCKS at hn
  have hmod : ∀ m : ℕ, m % PTRS_PER_INDIRECT < PTRS_PER_INDIRECT := fun m => Nat.mod_lt m (by decide)
  rw [dataPath]
  by_cases h1 : n < SINGLE_INDIRECT
  · rw [dif_pos h1, blockNumber]
  · rw [dif_neg h1]
    by_cases h2 : n - SINGLE_INDIRECT < PTRS_PER_INDIRECT
    · simp only [if_pos h2, blockNumber, val_ofNat_ptr h2]
      omega
    · by_cases h3 : n - SINGLE_INDIRECT - PTRS_PER_INDIRECT < PTRS_PER_INDIRECT * PTRS_PER_INDIRECT
      · have hdiv := Nat.div_lt_of_lt_mul h3
        simp only [if_neg h2, if_pos h3, blockNumber, val_ofNat_ptr hdiv, val_ofNat_ptr (hmod _),
          Nat.div_add_mod]
        omega
      · have h4 : n - SINGLE_INDIRECT - PTRS_PER_INDIRECT - PTRS_PER_INDIRECT * PTRS_PER_INDIRECT
            < PTRS_PER_INDIRECT * PTRS_PER_INDIRECT * PTRS_PER_INDIRECT := by omega
        have hdiv := Nat.div_lt_of_lt_mul h4
        simp only [if_neg h2, if_neg h3, blockNumber, val_ofNat_ptr hdiv, val_ofNat_ptr (hmod _)]
        rw [← Nat.div_div_eq_div_mul, Nat.div_add_mod, Nat.div_add_mod]
        omega

/-- Different blocks of a file have different paths. -/
theorem dataPath_injective {inum' : ULong} (hn : n < MAX_FILE_BLOCKS) (hm : m < MAX_FILE_BLOCKS)
    (h : dataPath inum n = dataPath inum' m) : inum = inum' ∧ n = m := by
  constructor
  · rw [← base_dataPath inum n, h, base_dataPath]
  · calc n = blockNumber (dataPath inum n) := (blockNumber_dataPath hn).symm
      _ = blockNumber (dataPath inum' m) := congrArg blockNumber h
      _ = m := blockNumber_dataPath hm

/-! ## Changes of an inode -/

/-- The change does not concern the block pointers. -/
def KeepsPtrs (c : Change) : Prop := ∀ i i', c.apply i = some i' → i'.data = i.data

theorem keepsPtrs_write (pos : ULong) (wrote : Bool) (now : ULong) :
    KeepsPtrs (.write pos wrote now) := by
  intro i i' h
  simp only [Change.apply] at h
  split at h
  · obtain rfl := Option.some.inj h
    dsimp only
    split <;> rfl
  · split at h
    · obtain rfl := Option.some.inj h
      rfl
    · cases h

section

variable {c : Change}

@[simp] theorem change_sup : (fs.change inum c).sup = fs.sup := by
  rw [change]
  split <;> rfl

@[simp] theorem change_disk : (fs.change inum c).disk = fs.disk := by
  rw [change]
  split <;> rfl

@[simp] theorem change_ioResult : (fs.change inum c).ioResult = fs.ioResult := by
  rw [change]
  split <;> rfl

theorem change_inode_of_ne {n : ULong} (hne : n ≠ inum) :
    (fs.change inum c).inode n = fs.inode n := by
  rw [change]
  split
  · exact fs.setInode_inode_of_ne _ hne
  · rfl

theorem change_inode_self :
    (fs.change inum c).inode inum = (c.apply (fs.inode inum)).getD (fs.inode inum) := by
  rw [change]
  split
  · rename_i i' h
    rw [setInode_inode_self, h]
    rfl
  · rename_i h
    rw [h]
    rfl

theorem walk_change (hk : KeepsPtrs c) (P : Path) : (fs.change inum c).walk P = fs.walk P := by
  rw [change]
  split
  · rename_i i' h
    exact walk_setInode (hk _ _ h) P
  · rfl

theorem Consistent.change (hc : Consistent fs) (hk : KeepsPtrs c) :
    Consistent (fs.change inum c) := by
  rw [FileSys.change]
  split
  · rename_i i' h
    exact hc.setInode (hk _ _ h)
  · exact hc

theorem dataBlock_change (hk : KeepsPtrs c) (n : ULong) (k : ℕ) :
    (fs.change inum c).dataBlock n k = fs.dataBlock n k := walk_change hk _

theorem byteAt_change (hk : KeepsPtrs c) (n : ULong) (off : ℕ) :
    (fs.change inum c).byteAt n off = fs.byteAt n off := by
  rw [byteAt, byteAt, dataBlock_change hk, change_disk]

theorem freeBlocks_change : (fs.change inum c).freeBlocks = fs.freeBlocks := by
  simp only [freeBlocks, bit, change_sup, change_disk]

/-- `write_file` lets the file grow up to its position. -/
theorem change_write_size (pos : ULong) (wrote : Bool) (now : ULong) :
    ((fs.change inum (.write pos wrote now)).inode inum).size.toNat =
      max (fs.inode inum).size.toNat pos.toNat := by
  rw [change_inode_self, Change.apply]
  by_cases hpos : pos > (fs.inode inum).size
  · have hlt := BitVec.lt_def.mp hpos
    have hmax : max (fs.inode inum).size.toNat pos.toNat = pos.toNat := by omega
    rw [hmax]
    simp only [if_pos hpos]
    split <;> rfl
  · have hle : ¬(fs.inode inum).size.toNat < pos.toNat := fun h => hpos (BitVec.lt_def.mpr h)
    have hmax : max (fs.inode inum).size.toNat pos.toNat = (fs.inode inum).size.toNat := by omega
    rw [hmax]
    simp only [if_neg hpos]
    split <;> rfl

end

/-! ## Positions and blocks -/

theorem toNat_blkOfPos (pos : ULong) :
    (pos / BitVec.ofNat 32 FS_BLKSIZ).toNat = pos.toNat / FS_BLKSIZ := by
  rw [BitVec.toNat_udiv]
  rfl

theorem posInBlk_eq (pos : ULong) : posInBlk pos = pos.toNat % FS_BLKSIZ := by
  rw [posInBlk, BitVec.toNat_umod]
  rfl

/-- Every position is in a block that a file can have. -/
theorem div_lt_max (h : off < 2 ^ 32) : off / FS_BLKSIZ < MAX_FILE_BLOCKS := by
  have hle : 2 ^ 32 / FS_BLKSIZ ≤ MAX_FILE_BLOCKS := by decide
  have hlt : off / FS_BLKSIZ < 2 ^ 32 / FS_BLKSIZ := by
    simp only [FS_BLKSIZ]
    omega
  exact Nat.lt_of_lt_of_le hlt hle

theorem blkOfPos_lt (pos : ULong) :
    (pos / BitVec.ofNat 32 FS_BLKSIZ).toNat < MAX_FILE_BLOCKS := by
  rw [toNat_blkOfPos]
  exact div_lt_max pos.isLt

theorem toNat_pos_add (h : pos.toNat + n < 2 ^ 32) :
    (pos + BitVec.ofNat 32 n).toNat = pos.toNat + n := by
  rw [BitVec.toNat_add, BitVec.toNat_ofNat]
  omega

/-- The bytes from a position to the end of its block are in that block. -/
theorem div_add_of_lt (h : off % FS_BLKSIZ + n < FS_BLKSIZ) :
    (off + n) / FS_BLKSIZ = off / FS_BLKSIZ ∧ (off + n) % FS_BLKSIZ = off % FS_BLKSIZ + n := by
  simp only [FS_BLKSIZ] at h ⊢
  omega

/-- The position does not wrap around in a read. -/
def ReadInRange (size pos : ULong) (len : ℕ) : Prop :=
  size.toNat < 2 ^ 31 ∨ pos.toNat + len < 2 ^ 32

theorem thisRead_eq (hrange : ReadInRange size pos len) (hpos : pos.toNat < size.toNat) :
    thisRead pos size len = min (inOneBlk pos len) (size.toNat - pos.toNat) := by
  have hle : inOneBlk pos len ≤ FS_BLKSIZ ∧ inOneBlk pos len ≤ len := by
    rw [inOneBlk]
    omega
  have hsum : (pos + BitVec.ofNat 32 (inOneBlk pos len)).toNat = pos.toNat + inOneBlk pos len := by
    simp only [FS_BLKSIZ] at hle
    apply toNat_pos_add
    rcases hrange with hsize | hlen <;> omega
  have hgt : pos + BitVec.ofNat 32 (inOneBlk pos len) > size ↔
      size.toNat < pos.toNat + inOneBlk pos len := by
    rw [gt_iff_lt, BitVec.lt_def, hsum]
  rw [thisRead, if_congr hgt rfl rfl, BitVec.toNat_sub]
  split <;> omega

/-! ## Reading -/

/-- Without `create`, `get_data_blkno` only looks. -/
theorem getDataBlkno_read (hc : Consistent fs) (hn : inum.toNat < fs.sup.numInodes.toNat)
    {blk : ULong} (h : blk.toNat < MAX_FILE_BLOCKS) :
    ∃ e, fs.getDataBlkno noFaults inum blk false = (fs.dataBlock inum blk.toNat, fs.fail e) ∧
      (fs.dataBlock inum blk.toNat = 0 → e = E_NOEXIST) := by
  have hspec := getDataBlkno_spec noFaults false hc hn h
  generalize fs.getDataBlkno noFaults inum blk false = r at hspec
  cases hspec with
  | reached fs' hr =>
    obtain ⟨e, rfl⟩ := hr.keeps rfl
    exact ⟨e, rfl, fun h0 => absurd h0 hr.ne_zero⟩
  | stuck fs' hs =>
    rcases hs.why with ⟨-, h0, rfl⟩ | ⟨Q, -, -, hat⟩
    · exact ⟨E_NOEXIST, by rw [dataBlock, h0], fun _ => rfl⟩
    · cases hat with
      | full hcreate _ _ _ _ => cases hcreate
      | alloc hcreate _ _ _ => cases hcreate
      | bread _ hfault => exact absurd rfl hfault
  | dangling fs' hd => exact (not_dangling hd).elim

/-- `len` bytes of a file from `off` on. -/
def bytesAt (fs : FileSys) (inum : ULong) (off len : ℕ) : List UChar :=
  (List.range len).map fun i => fs.byteAt inum (off + i)

theorem bytesAt_add (off n m : ℕ) :
    fs.bytesAt inum off (n + m) = fs.bytesAt inum off n ++ fs.bytesAt inum (off + n) m := by
  rw [bytesAt, List.range_add, List.map_append, List.map_map]
  congr 1
  apply List.map_congr_left
  intro i _
  simp only [Function.comp, Nat.add_assoc]

/-- The bytes that one pass of the loop copies out of a block, or makes up. -/
theorem bytesAt_inOneBlk (h : off % FS_BLKSIZ + n ≤ FS_BLKSIZ) :
    fs.bytesAt inum off n = (List.range n).map fun i =>
      if fs.dataBlock inum (off / FS_BLKSIZ) = 0 then 0
      else (fs.disk (fs.dataBlock inum (off / FS_BLKSIZ))).byte (off % FS_BLKSIZ + i) := by
  apply List.map_congr_left
  intro i hi
  have hlt := List.mem_range.mp hi
  have hin : off % FS_BLKSIZ + i < FS_BLKSIZ := by omega
  obtain ⟨hdiv, hmod⟩ := div_add_of_lt hin
  rw [byteAt, hdiv, hmod]

/-- The loop of `read_file` reads what there is, up to the end of the file. -/
theorem readLoop_spec (hc : Consistent fs) (hn : inum.toNat < fs.sup.numInodes.toNat)
    (pos : ULong) (len : ℕ) (hrange : ReadInRange (fs.inode inum).size pos len) :
    ∃ e, fs.readLoop inum pos len =
      (fs.bytesAt inum pos.toNat (min len ((fs.inode inum).size.toNat - pos.toNat)),
        pos + BitVec.ofNat 32 (min len ((fs.inode inum).size.toNat - pos.toNat)), true,
        fs.fail e) := by
  induction len using Nat.strong_induction_on generalizing fs pos with
  | _ len ih =>
    rw [readLoop]
    by_cases h : 0 < len ∧ pos < (fs.inode inum).size
    · have hpos := BitVec.lt_def.mp h.2
      have hthis : thisRead pos (fs.inode inum).size len
          = min (inOneBlk pos len) ((fs.inode inum).size.toNat - pos.toNat) := thisRead_eq hrange hpos
      have hthis0 := thisRead_pos h.1 h.2
      have hblk : inOneBlk pos len = min len (FS_BLKSIZ - pos.toNat % FS_BLKSIZ) := by
        rw [inOneBlk, posInBlk_eq]
      rw [dif_pos h]
      simp only
      generalize thisRead pos (fs.inode inum).size len = n at *
      have hle : pos.toNat % FS_BLKSIZ + n ≤ FS_BLKSIZ := by
        have hlt := Nat.mod_lt pos.toNat (show 0 < FS_BLKSIZ by decide)
        omega
      obtain ⟨e, hget, hnoexist⟩ := getDataBlkno_read hc hn (blkOfPos_lt pos)
      rw [toNat_blkOfPos] at hget hnoexist
      have hok : ¬(fs.dataBlock inum (pos.toNat / FS_BLKSIZ) = 0 ∧ (fs.fail e).errno ≠ E_NOEXIST) :=
        fun hboth => hboth.2 (hnoexist hboth.1)
      have hsize := (fs.inode inum).size.isLt
      have hnext : (pos + BitVec.ofNat 32 n).toNat = pos.toNat + n := toNat_pos_add (by omega)
      have hrange' : ReadInRange (fs.inode inum).size (pos + BitVec.ofNat 32 n) (len - n) := by
        apply hrange.imp_right
        rw [hnext]
        omega
      obtain ⟨e', hrest⟩ := ih (len - n) (by omega) (hc.fail e) hn (pos + BitVec.ofNat 32 n) hrange'
      simp only [hget, if_neg hok, hrest, posInBlk_eq]
      have hsplit : min len ((fs.inode inum).size.toNat - pos.toNat) =
          n + min (len - n) ((fs.inode inum).size.toNat - (pos.toNat + n)) := by omega
      refine ⟨e', ?_⟩
      rw [hsplit, bytesAt_add, bytesAt_inOneBlk hle, hnext]
      congr 2
      show pos + BitVec.ofNat 32 n + BitVec.ofNat 32 _ = _
      rw [BitVec.add_assoc, ← BitVec.ofNat_add]
      rfl
    · have hzero : min len ((fs.inode inum).size.toNat - pos.toNat) = 0 := by
        rw [BitVec.lt_def] at h
        omega
      rw [dif_neg h, hzero]
      exact ⟨fs.errno, by simp [bytesAt, fail]⟩

/-- **`read_file`** returns what the file holds from its position on. -/
theorem readFile_spec (hc : Consistent fs) {file : File}
    (hn : file.inum.toNat < fs.sup.numInodes.toNat)
    (len : ULong) (hrange : ReadInRange (fs.inode file.inum).size file.pos len.toNat)
    (hmode : file.mode &&& F_READ ≠ 0) :
    let m := min len.toNat ((fs.inode file.inum).size.toNat - file.pos.toNat)
    ∃ e, fs.readFile len file = ((m : ℤ), fs.bytesAt file.inum file.pos.toNat m,
      { file with pos := file.pos + BitVec.ofNat 32 m }, fs.fail e) := by
  intro m
  obtain ⟨e, hloop⟩ := readLoop_spec hc hn file.pos len.toNat hrange
  refine ⟨e, ?_⟩
  rw [readFile, if_neg hmode, hloop]
  simp only [true_or, if_true, bytesAt, List.length_map, List.length_range]
  rfl

end

end Vmm386.Fs.FileSys
