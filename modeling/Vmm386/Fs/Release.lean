import Vmm386.Fs.IndirectBlocks

/-!
# What `delete_inode_data` gives back

`delete_indirect_blocks` frees the blocks that an indirect block points to, and nobody frees
the indirect block itself: it stays allocated, and no inode has it any more.
-/

namespace Vmm386.Fs.FileSys

open Forest

/-- The data or indirect block belongs to the inode. -/
def Owns (fs : FileSys) (inum b : ULong) : Prop :=
  b ≠ 0 ∧ ∃ Q : Path, Q.Valid height ∧ Q.base.1 = inum ∧ fs.walk Q = b

/-- All blocks of the inode are given back and no others, and the inode is empty. -/
structure Emptied (fs fs' : FileSys) (inum : ULong) : Prop where
  cleared : ∀ b, fs.Owns inum b → fs'.inUse b = false
  kept : ∀ i < BITS_PER_BLOCK * bmapBlocks fs.sup.dataSize.toNat,
    (∀ b, fs.Owns inum b → (b - fs.sup.data).toNat ≠ i) →
    fs'.bit fs.sup.dataBitmap i = fs.bit fs.sup.dataBitmap i
  low : ∀ a, a.toNat < fs.sup.dataBitmap.toNat → fs'.disk a = fs.disk a
  pointers : ∀ k, (fs'.inode inum).data k = 0
  size : (fs'.inode inum).size = 0

section

variable {fs fs' : FileSys} {inum : ULong}

/-- A pointer of an inode of the device. -/
theorem walk_root_eq (hn : inum.toNat < fs.sup.numInodes.toNat) (k : Fin NR_PTRS) :
    fs.walk (.root (inum, k)) = (fs.inode inum).data k :=
  if_pos hn

/-- Without indirect blocks, all blocks of the inode are data blocks that it points to. -/
theorem leaf_of_direct (hn : inum.toNat < fs.sup.numInodes.toNat)
    (hdirect : ∀ k : Fin NR_PTRS, SINGLE_INDIRECT ≤ k.val → (fs.inode inum).data k = 0)
    {Q : Path} (hbase : Q.base.1 = inum) (hQ0 : fs.walk Q ≠ 0) : ¬Q.Inner height := by
  intro hinner
  have hroot : Q.Passes (.root (inum, Q.base.2)) := by
    have hpass := Path.passes_base Q
    rwa [show Q.base = (inum, Q.base.2) from Prod.ext hbase rfl] at hpass
  have hlt : Q.depth < Q.base.2.val - 8 := hinner
  have hnull : fs.walk (.root (inum, Q.base.2)) = 0 := by
    rw [walk_root_eq hn]
    apply hdirect
    unfold SINGLE_INDIRECT
    omega
  exact hQ0 (walk_eq_zero_of_passes hroot hnull)

/-- A block of the data area has its bit in the bitmap. -/
theorem number_lt {sup : SuperData} {b : ULong} (hb : InData sup b) :
    (b - sup.data).toNat < BITS_PER_BLOCK * bmapBlocks sup.dataSize.toNat := by
  have h1 := hb.1
  have h2 := hb.2
  rw [toNat_sub_data hb]
  simp only [bmapBlocks, BITS_PER_BLOCK, FS_BLKSIZ]
  omega

/-- Emptying the inode itself leaves the blocks alone. -/
theorem deleteInodeData_disk (fs : FileSys) (inum now : ULong) :
    (fs.deleteInodeData inum now).disk = (fs.deleteInodePtrs inum).disk := by
  rw [deleteInodeData]
  generalize fs.deleteInodePtrs inum = fs'
  rfl

/-- Only the bits of the inode's data blocks change. -/
theorem bit_deleteInodeData (hc : Consistent fs) (hn : inum.toNat < fs.sup.numInodes.toNat)
    (now : ULong) {i : ℕ} (hi : i < BITS_PER_BLOCK * bmapBlocks fs.sup.dataSize.toNat)
    (hne : ∀ Q : Path, Q.Valid height → ¬Q.Inner height → Q.base.1 = inum → fs.walk Q ≠ 0 →
      (fs.walk Q - fs.sup.data).toNat ≠ i) :
    (fs.deleteInodeData inum now).bit fs.sup.dataBitmap i = fs.bit fs.sup.dataBitmap i := by
  have hkept := (deleteInodePtrs_spec hc hn).2.kept i hi hne
  rw [bit, deleteInodeData_disk]
  rwa [bit] at hkept

/-- An indirect block keeps its bit. -/
theorem inUse_deleteInodeData_of_inner (hc : Consistent fs)
    (hn : inum.toNat < fs.sup.numInodes.toNat) (now : ULong) {P : Path} (hP : P.Inner height)
    (hP0 : fs.walk P ≠ 0) : (fs.deleteInodeData inum now).inUse (fs.walk P) = true := by
  have hb := hc.inData hP.valid hP0
  rw [inUse, deleteInodeData_sup hc hn, bit_deleteInodeData hc hn now (number_lt hb)]
  · exact hc.inUse hP.valid hP0
  · intro Q hQ hleaf _ hQ0 heq
    have hbQ := hc.inData hQ hQ0
    rw [toNat_sub_data hb, toNat_sub_data hbQ] at heq
    have hwalk : fs.walk P = fs.walk Q := by
      apply BitVec.eq_of_toNat_eq
      have h1 := hb.1
      have h1Q := hbQ.1
      omega
    exact hleaf (hc.eq_of_walk_eq hP.valid hQ hP0 hwalk ▸ hP)

/-- **Releasing a file's data** is complete if and only if the file has no indirect blocks. -/
theorem delete_inode_data_complete_iff (hc : Consistent fs)
    (hn : inum.toNat < fs.sup.numInodes.toNat) (now : ULong) :
    Emptied fs (fs.deleteInodeData inum now) inum ↔
      ∀ k : Fin NR_PTRS, SINGLE_INDIRECT ≤ k.val → (fs.inode inum).data k = 0 := by
  constructor
  · intro h k hk
    by_contra hne
    have hinner : (Path.root (inum, k) : Path).Inner height := by
      have hpos : 0 < k.val - 8 := by
        unfold SINGLE_INDIRECT at hk
        omega
      exact hpos
    have hP0 : fs.walk (.root (inum, k)) ≠ 0 := by rwa [walk_root_eq hn]
    have hset := inUse_deleteInodeData_of_inner hc hn now hinner hP0
    have hcleared := h.cleared _ ⟨hP0, _, hinner.valid, rfl, rfl⟩
    exact absurd (hset.symm.trans hcleared) (by decide)
  · intro hdirect
    have hr := deleteInodeData_releases hc now hn
    constructor
    · rintro b ⟨hb0, Q, hQ, hbase, rfl⟩
      exact hr.freed Q hQ (leaf_of_direct hn hdirect hbase hb0) hbase hb0
    · intro i hi hne
      apply bit_deleteInodeData hc hn now hi
      intro Q hQ _ hbase hQ0
      exact hne _ ⟨hQ0, Q, hQ, hbase, rfl⟩
    · exact hr.low
    · intro k
      have hgone := hr.walk (.root (inum, k)) (Path.valid_root _)
      rw [walk_root_eq (by rwa [hr.sup])] at hgone
      exact hgone.trans (if_pos rfl)
    · have hinode := deleteInodeData_inode hc now hn inum
      rw [if_pos rfl] at hinode
      exact congrArg Inode.size hinode

/-- The first inode of a new device has one block, its root directory. -/
theorem delete_inode_data_root : ∃ fs, FreshlyMade fs ∧
    (Emptied fs (fs.deleteInodeData 0 0) 0 ↔
      ∀ k : Fin NR_PTRS, SINGLE_INDIRECT ≤ k.val → (fs.inode 0).data k = 0) := by
  obtain ⟨fs, hfresh, hsup⟩ := exists_freshlyMade
  have hn : (0 : ULong).toNat < fs.sup.numInodes.toNat := by
    rw [hsup]
    decide
  exact ⟨fs, hfresh, delete_inode_data_complete_iff hfresh.consistent hn 0⟩

/-- A block is there after a fetch without faults, if there is space for what is missing. -/
theorem walk_ne_zero_of_room {blk : ULong} (hc : Consistent fs)
    (hn : inum.toNat < fs.sup.numInodes.toNat) (hblk : blk.toNat < MAX_FILE_BLOCKS)
    (hroom : fs.missing (dataPath inum blk.toNat) ≤ fs.freeBlocks.length) :
    (fs.getDataBlkno noFaults inum blk true).2.walk (dataPath inum blk.toNat) ≠ 0 := by
  have hspec := getDataBlkno_spec noFaults true hc hn hblk
  generalize fs.getDataBlkno noFaults inum blk true = r at hspec
  cases hspec with
  | reached fs' hr => exact hr.ne_zero
  | stuck fs' hs =>
    rcases hs.why with ⟨hcreate, -⟩ | ⟨Q, hQ, -, hstuck⟩
    · cases hcreate
    · cases hstuck with
      | full _ _ hfull =>
        have hle : fs.missing Q ≤ fs.missing (dataPath inum blk.toNat) := missing_le_of_passes hQ
        omega
      | alloc _ _ _ halloc => exact absurd rfl halloc
      | bread _ hbread => exact absurd rfl hbread
  | dangling fs' hd =>
    obtain ⟨Q, fs₁, b, rest, -, hd⟩ := hd
    exact absurd rfl hd.bread

/-- The second inode of a new device gets its tenth block, and is released. The indirect block
stays allocated. -/
theorem delete_inode_data_leaks : ∃ fs, Consistent fs ∧ (1 : ULong).toNat < fs.sup.numInodes.toNat ∧
    ∀ now, ¬Emptied fs (fs.deleteInodeData 1 now) 1 := by
  obtain ⟨fs, hfresh, hsup⟩ := exists_freshlyMade
  have hn : (1 : ULong).toNat < fs.sup.numInodes.toNat := by
    rw [hsup]
    decide
  obtain ⟨hc', hsup'⟩ := getDataBlkno_consistent hfresh.consistent hn 9 true
  have hn' : (1 : ULong).toNat < (fs.getDataBlkno noFaults 1 9 true).2.sup.numInodes.toNat := by
    rwa [hsup']
  have hfree : fs.freeBlocks.length = 15 := by
    rw [hfresh.freeBlocks, hsup]
    decide
  have hpath : dataPath 1 (9 : ULong).toNat = (Path.root (1, 9)).sub 0 := by decide
  have hroom : fs.missing (dataPath 1 (9 : ULong).toNat) ≤ fs.freeBlocks.length := by
    rw [hfree, hpath, missing, missing]
    split <;> split <;> omega
  have hblock := walk_ne_zero_of_room hfresh.consistent hn (by decide) hroom
  generalize (fs.getDataBlkno noFaults 1 9 true).2 = fs' at hc' hn' hblock
  refine ⟨fs', hc', hn', ?_⟩
  intro now hemptied
  -- the block is there, so the indirect block above it is
  have hinner : (Path.root (1, 9) : Path).Inner height := by decide
  have hroot : fs'.walk (.root (1, 9)) ≠ 0 := by
    intro hnull
    apply hblock
    rw [hpath]
    exact walk_eq_zero_of_passes (Or.inr (Path.passes_self _)) hnull
  have hset := inUse_deleteInodeData_of_inner hc' hn' now hinner hroot
  have hcleared := hemptied.cleared _ ⟨hroot, _, hinner.valid, rfl, rfl⟩
  exact absurd (hset.symm.trans hcleared) (by decide)

end

end Vmm386.Fs.FileSys
