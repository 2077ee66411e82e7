import Vmm386.Types

/-!
# Hard disks and their partitions (`drivers/physical/hd/generic.c`)

A partition is a window of a disk. `hd_read_blocks` and `hd_write_blocks` test the
request against the size of the window and move it by the start of the window; what the
disk driver below answers is left to a `HdDriver`.
-/

namespace Vmm386.Hd

/-- The geometry of a disk, `hd_dev_t`. `ide_init` is the only caller of `hd_add_dev`, and
it computes `total_blocks` from the geometry. -/
structure HdDev where
  heads : ULong
  cylinders : ULong
  sectors : ULong
  totalBlocks : ULong
  totalBlocks_eq : totalBlocks = heads * sectors * cylinders

/-- `hd_partition_t`: `size` sectors of the disk `hd` from the sector `start` on. -/
structure HdPartition where
  start : ULong
  size : ULong
  hd : HdDev

/-- The sectors of a partition. Sector numbers are 32-bit words, so the window is counted
from its start; `mem_sectors_iff` gives the interval of a window that does not wrap. -/
def HdPartition.sectors (p : HdPartition) : Set ULong :=
  {s | (s - p.start).toNat < p.size.toNat}

theorem HdPartition.mem_sectors_iff (p : HdPartition)
    (h : p.start.toNat + p.size.toNat ≤ 2 ^ 32) (s : ULong) :
    s ∈ p.sectors ↔ p.start.toNat ≤ s.toNat ∧ s.toNat < p.start.toNat + p.size.toNat := by
  have hs := s.isLt
  simp only [sectors, Set.mem_ofPred_eq, BitVec.toNat_sub]
  omega

/-- The two entry points of the driver under a disk, for one sector: `hd->read_blocks`
gives its return value and what the buffer holds afterwards, `hd->write_blocks` its return
value. -/
structure HdDriver where
  readBlocks : ULong → Sector → Bool × Sector
  writeBlocks : ULong → Sector → Bool

/-- The test both functions make on `block` and `count` (in 32 bits). -/
def HdPartition.accepts (p : HdPartition) (block : ULong) (count : ℕ) : Bool :=
  !decide (p.size < block + BitVec.ofNat 32 count)

/-- What `hd_read_blocks` or `hd_write_blocks` does with one sector: its return value, the
buffer afterwards, and the physical sector it asked the driver to transfer, if any. -/
structure HdResult where
  ok : Bool
  buf : Sector
  asked : List ULong

/-- `hd_read_blocks` for one sector. -/
def hdReadBlock (d : HdDriver) (p : HdPartition) (block : ULong) (buf : Sector) : HdResult :=
  if p.accepts block 1 then
    let r := d.readBlocks (block + p.start) buf
    { ok := r.1, buf := r.2, asked := [block + p.start] }
  else
    { ok := false, buf := buf, asked := [] }

/-- `hd_write_blocks` for one sector. -/
def hdWriteBlock (d : HdDriver) (p : HdPartition) (block : ULong) (buf : Sector) : HdResult :=
  if p.accepts block 1 then
    { ok := d.writeBlocks (block + p.start) buf, buf := buf, asked := [block + p.start] }
  else
    { ok := false, buf := buf, asked := [] }

/-- One sector passes the size test when it is in the partition, and also when `block + 1`
wraps to zero. -/
theorem HdPartition.accepts_one (p : HdPartition) (block : ULong) :
    p.accepts block 1 = true ↔ block.toNat < p.size.toNat ∨ block.toNat = 2 ^ 32 - 1 := by
  have hb := block.isLt
  have hp := p.size.isLt
  simp only [accepts, Bool.not_eq_true', decide_eq_false_iff_not, BitVec.lt_def,
    BitVec.toNat_add, BitVec.toNat_ofNat]
  omega

/-- A block of the partition is moved to a physical sector of the partition, and the last
32-bit block number never is. -/
theorem HdPartition.add_start_mem_sectors (p : HdPartition) (block : ULong) :
    block + p.start ∈ p.sectors ↔ block.toNat < p.size.toNat := by
  simp only [sectors, Set.mem_ofPred_eq, BitVec.add_sub_cancel]

end Vmm386.Hd
