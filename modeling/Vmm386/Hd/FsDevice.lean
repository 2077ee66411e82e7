import Vmm386.Hd.Generic
import Vmm386.Fs.Buffer

/-!
# A partition as a file-system device (`drivers/physical/hd/generic.c`)

`hd_fs_read_blocks` and `hd_fs_write_blocks` for one block of the file system: two sectors
of the partition.
-/

namespace Vmm386.Hd

open Fs

/-- `FS_BLKSIZ / 512`. -/
def SECTORS_PER_BLOCK : ℕ := FS_BLKSIZ / 512

/-- The entry points of the driver under a disk, for the sectors of one block of the file
system. The state `W` of the driver decides what fails. -/
structure HdBlockDriver (W : Type) where
  readBlocks : W → ULong → Blk → Bool × Blk × W
  writeBlocks : W → ULong → Blk → Bool × W

variable {W : Type}

/-- The first sector of a block of the file system. -/
def firstSector (block : ULong) : ULong := block * BitVec.ofNat 32 SECTORS_PER_BLOCK

/-- The return value of both functions. -/
def hdFsOutcome (ok : Bool) : Outcome := ⟨ok, if ok then 1 else E_IO⟩

/-- `hd_fs_read_blocks`. -/
def hdFsReadBlocks (d : HdBlockDriver W) (p : HdPartition) (w : W) (block : ULong) (buf : Blk) :
    Outcome × Blk × W :=
  if p.accepts (firstSector block) SECTORS_PER_BLOCK then
    let r := d.readBlocks w (firstSector block + p.start) buf
    (hdFsOutcome r.1, r.2)
  else (hdFsOutcome false, buf, w)

/-- `hd_fs_write_blocks`. -/
def hdFsWriteBlocks (d : HdBlockDriver W) (p : HdPartition) (w : W) (block : ULong) (buf : Blk) :
    Outcome × W :=
  if p.accepts (firstSector block) SECTORS_PER_BLOCK then
    let r := d.writeBlocks w (firstSector block + p.start) buf
    (hdFsOutcome r.1, r.2)
  else (hdFsOutcome false, w)

/-- The devices of `hd_mount_partition`, one partition for each device. Their `test_media`
is `NULL`, so that they are never validated again. -/
def hdDevices (d : HdBlockDriver W) (p : DevId → HdPartition) : Devices W where
  readBlocks w dev := hdFsReadBlocks d (p dev) w
  writeBlocks w dev := hdFsWriteBlocks d (p dev) w
  testMedia _ := none
  validateDevice s _ := (true, s)

end Vmm386.Hd
