import Vmm386.Fs.BlockFetch
import Vmm386.Fs.MkfsTheorems
import Vmm386.Lib.Runs

/-!
# Blocks are reached in one way only

Runs of `get_data_blkno` and `delete_inode_data` on a file system that has just been made.
-/

namespace Vmm386.Fs.FileSys

/-- A call that changes the blocks of an inode. -/
inductive BlockOp where
  | getDataBlkno (inum blk : ULong)
  | deleteInodeData (inum now : ULong)

/-- What the call leaves, on an inode the device has. -/
def blockStep (fs : FileSys) : BlockOp → Option FileSys
  | .getDataBlkno inum blk =>
    if inum.toNat < fs.sup.numInodes.toNat then
      some (fs.getDataBlkno noFaults inum blk true).2
    else none
  | .deleteInodeData inum now =>
    if inum.toNat < fs.sup.numInodes.toNat then some (fs.deleteInodeData inum now) else none

/-- Each call keeps the file system consistent, whether there is space or not. -/
theorem blockStep_consistent : Runs.Preserves blockStep (fun _ _ => True) Consistent := by
  intro fs op fs' hc _ hstep
  cases op with
  | getDataBlkno inum blk =>
    simp only [blockStep, Option.ite_none_right_eq_some, Option.some.injEq] at hstep
    obtain ⟨hn, rfl⟩ := hstep
    exact (getDataBlkno_consistent hc hn blk true).1
  | deleteInodeData inum now =>
    simp only [blockStep, Option.ite_none_right_eq_some, Option.some.injEq] at hstep
    obtain ⟨hn, rfl⟩ := hstep
    exact hc.deleteInodeData now hn

/-- **Block exclusivity.** Every block number that can be reached from an inode is that of a
data block, its bit is set, and it is in one place only. -/
theorem blocks_exclusive {fs fs' : FileSys} {ops : List BlockOp} (hfresh : FreshlyMade fs)
    (hrun : Runs.run blockStep fs ops = some fs') {P : Path} (hP : P.Valid height)
    (hne : fs'.walk P ≠ 0) :
    InData fs'.sup (fs'.walk P) ∧ fs'.inUse (fs'.walk P) = true ∧
      ∀ Q : Path, Q.Valid height → fs'.walk Q = fs'.walk P → Q = P := by
  have hc := blockStep_consistent.run hfresh.consistent (Runs.along_true fs ops) hrun
  refine ⟨hc.inData hP hne, hc.inUse hP hne, fun Q hQ heq => ?_⟩
  exact (hc.eq_of_walk_eq hP hQ hne heq.symm).symm

/-- A device of twenty blocks, and a block for its second inode. -/
theorem blocks_exclusive_twenty : ∃ fs fs' : FileSys, FreshlyMade fs ∧
    Runs.run blockStep fs [.getDataBlkno 1 0] = some fs' ∧
    (InData fs'.sup (fs'.walk (.root (0, 0))) ∧ fs'.inUse (fs'.walk (.root (0, 0))) = true ∧
      ∀ Q : Path, Q.Valid height → fs'.walk Q = fs'.walk (.root (0, 0)) → Q = .root (0, 0)) := by
  obtain ⟨fs, hfresh, hsup⟩ := exists_freshlyMade
  have hn : ∀ n : ULong, n.toNat < 16 → n.toNat < fs.sup.numInodes.toNat := by
    intro n h
    rw [hsup]
    exact Nat.lt_of_lt_of_le h (by decide)
  have hrun : Runs.run blockStep fs [.getDataBlkno 1 0]
      = some (fs.getDataBlkno noFaults 1 0 true).2 := by
    rw [Runs.run, blockStep, if_pos (hn 1 (by decide))]
    rfl
  have hroot : fs.walk (.root (0, 0)) ≠ 0 := by
    rw [hfresh.walk_root (hn 0 (by decide)), hsup]
    decide
  have hne : (fs.getDataBlkno noFaults 1 0 true).2.walk (.root (0, 0)) ≠ 0 := by
    rwa [(getDataBlkno_grows hfresh.consistent (hn 1 (by decide)) 0 true).walk_of_ne
      (Forest.Path.valid_root _) hroot]
  exact ⟨fs, _, hfresh, hrun, blocks_exclusive hfresh hrun (Forest.Path.valid_root _) hne⟩

end Vmm386.Fs.FileSys
