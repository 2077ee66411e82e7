import Vmm386.Fs.BlockTree

/-!
# Making and mounting a file system (`fs/mkfs.c`, `fs/dev.c`)

`mkfs` writes straight to the device. What the device returns for a write of a block is a
parameter; a negative value is an error, which ends `mkfs` with `FALSE`.
-/

namespace Vmm386.Fs

def INODES_PER_BLOCK : ℕ := 16

def ATTR_DIRECTORY : ULong := 0x00010000
def FS_BOOT_MAGIC : ULong := 0xAA554d57
def FS_NOBOOT_MAGIC : ULong := 0x00004d57

/-- `round_to`. -/
def roundTo (val mod : ULong) : ULong := (val + (mod - 1)) &&& ~~~(mod - 1)

namespace Blk

/-! ## Blocks with other things in them -/

/-- `buf.inodes.inodes[j]`. An inode has 16 words. -/
def inodeAt (b : Blk) (j : ℕ) : Inode where
  attr := b.word (16 * j)
  size := b.word (16 * j + 1)
  modtime := b.word (16 * j + 2)
  nlinks := b.word (16 * j + 3)
  data k := b.word (16 * j + 4 + k)

/-- `while(tmp < FS_BLKSIZ * 8) { set_bit(b, tmp); tmp++; }`. -/
def padBits (b : Blk) (tmp : ℕ) : Blk :=
  (List.range (BITS_PER_BLOCK - tmp)).foldl (fun b i => b.setBit (tmp + i)) b

end Blk

namespace FileSys

/-- The contents of a device. -/
abbrev Disk := ULong → Blk

/-- `FS_WRITE_BLOCKS` of one block, and the test of its result. -/
def writeBlock (ret : ULong → ℤ) (disk : Disk) (block : ULong) (b : Blk) : Option Disk :=
  if ret block < 0 then none else some (Function.update disk block b)

/-! ## `mkfs` -/

/-- The dimensions of each area of the disk. -/
def superData (total reserved : ULong) : SuperData :=
  let blocks := total - 1 - reserved
  let inodeBitmap := 1 + reserved
  let numInodes := roundTo (blocks / 10) (BitVec.ofNat 32 INODES_PER_BLOCK)
  let inodes := inodeBitmap + numInodes / BitVec.ofNat 32 BITS_PER_BLOCK + 1
  let blocks := blocks - ((numInodes / BitVec.ofNat 32 BITS_PER_BLOCK + 1)
    + numInodes / BitVec.ofNat 32 INODES_PER_BLOCK)
  let dataBitmap := inodes + numInodes / BitVec.ofNat 32 INODES_PER_BLOCK
  let tmp := blocks / BitVec.ofNat 32 BITS_PER_BLOCK + 1
  let blocks := blocks - tmp
  { totalBlocks := total, inodeBitmap, inodes, numInodes, dataBitmap, data := dataBitmap + tmp,
    dataSize := blocks }

/-- The full blocks of a bitmap of `tmp` bits; the first one has bit 0 set. What is left of
`block` and `tmp` comes back with the disk. -/
def writeBitmap (ret : ULong → ℤ) (start block : ULong) (tmp : ℕ) (disk : Disk) :
    Option (ULong × ℕ × Disk) :=
  if tmp > BITS_PER_BLOCK then
    match writeBlock ret disk block (if block = start then Blk.zero.setBit 0 else Blk.zero) with
    | none => none
    | some disk => writeBitmap ret start (block + 1) (tmp - BITS_PER_BLOCK) disk
  else some (block, tmp, disk)
termination_by tmp
decreasing_by
  simp only [BITS_PER_BLOCK, FS_BLKSIZ] at *
  omega

/-- The last block of the inode bitmap. -/
def lastInodeBits (first : Bool) (tmp : ℕ) : Blk :=
  let b := Blk.zero.padBits tmp
  if first then b.setBit 0 else b

/-- The last block of the data bitmap. -/
def lastDataBits (first : Bool) (tmp : ℕ) : Blk :=
  (if first then Blk.zero.setBit 0 else Blk.zero).padBits tmp

/-- The first inode block, with the root inode filled in. -/
def rootInodes (data now : ULong) : Blk :=
  ((((Blk.zero.setWord 0 ATTR_DIRECTORY).setWord 2 now).setWord 1 64).setWord 3 2).setWord 4 data

/-- The inode blocks. -/
def writeInodes (ret : ULong → ℤ) (sup : SuperData) (now : ULong) (block : ULong) (disk : Disk) :
    Option Disk :=
  if block < sup.dataBitmap then
    match writeBlock ret disk block
      (if block = sup.inodes then rootInodes sup.data now else Blk.zero) with
    | none => none
    | some disk => writeInodes ret sup now (block + 1) disk
  else some disk
termination_by sup.dataBitmap.toNat - block.toNat
decreasing_by
  have hlt := BitVec.lt_def.mp ‹_›
  rw [BitVec.toNat_add]
  simp only [show BitVec.toNat (1 : ULong) = 1 from rfl]
  omega

/-- The entries `.` and `..` of the root directory. -/
def rootDir : Blk := Blk.ofBytes fun i => if i = 0 ∨ i = 32 ∨ i = 33 then 0x2e else 0

/-- The boot block: boot code, super data, magic number, and the rest as it was. -/
def bootBlk (old : Blk) (sup : SuperData) (bootCode : ℕ → UChar) : Blk :=
  let b := old.memcpy 0 bootCode 480
  let b := b.setWord 120 sup.totalBlocks
  let b := b.setWord 121 sup.inodeBitmap
  let b := b.setWord 122 sup.inodes
  let b := b.setWord 123 sup.numInodes
  let b := b.setWord 124 sup.dataBitmap
  let b := b.setWord 125 sup.data
  let b := b.setWord 126 sup.dataSize
  b.setWord 127 FS_BOOT_MAGIC

/-- The rest of the inode bitmap. -/
def finishInodeBitmap (ret : ULong → ℤ) (sup : SuperData) (block : ULong) (tmp : ℕ) (disk : Disk) :
    Option (ULong × Disk) :=
  if block ≠ sup.inodes then
    (writeBlock ret disk block (lastInodeBits (block = sup.inodeBitmap) tmp)).map (block + 1, ·)
  else some (block, disk)

/-- The rest of the data bitmap. -/
def finishDataBitmap (ret : ULong → ℤ) (sup : SuperData) (block : ULong) (tmp : ℕ) (disk : Disk) :
    Option Disk :=
  if block ≠ sup.data then
    writeBlock ret disk block (lastDataBits (block = sup.dataBitmap) tmp)
  else some disk

/-- `mkfs`, on a device that returns `ret` for a write and `bootRet` for the read of the boot
block. Its `tmp` is an `int`: the data area has less than 2^31 blocks. -/
def mkfs (ret : ULong → ℤ) (bootRet : ℤ) (bootCode : ℕ → UChar) (now total reserved : ULong)
    (disk : Disk) : Option Disk := do
  let sup := superData total reserved
  let (block, tmp, disk) ←
    writeBitmap ret sup.inodeBitmap sup.inodeBitmap sup.numInodes.toNat disk
  let (block, disk) ← finishInodeBitmap ret sup block tmp disk
  let disk ← writeInodes ret sup now block disk
  let (block, tmp, disk) ← writeBitmap ret sup.dataBitmap sup.dataBitmap sup.dataSize.toNat disk
  let disk ← finishDataBitmap ret sup block tmp disk
  let disk ← writeBlock ret disk sup.data rootDir
  if bootRet < 0 then none
  else writeBlock ret disk 0 (bootBlk (disk 0) sup bootCode)

/-! ## Mounting -/

/-- `read_meta_data`. -/
def readMetaData (disk : Disk) : Option SuperData :=
  let boot := disk 0
  if boot.word 127 ≠ FS_BOOT_MAGIC ∧ boot.word 127 ≠ FS_NOBOOT_MAGIC then none
  else some
    { totalBlocks := boot.word 120
      inodeBitmap := boot.word 121
      inodes := boot.word 122
      numInodes := boot.word 123
      dataBitmap := boot.word 124
      data := boot.word 125
      dataSize := boot.word 126 }

/-- A device that has just been mounted: nothing is cached, and every inode is as its slot
has it. -/
def mount (disk : Disk) (ioResult : ℤ) : Option FileSys :=
  (readMetaData disk).map fun sup =>
    { sup, disk
      inode := fun inum =>
        (disk (inum / BitVec.ofNat 32 INODES_PER_BLOCK + sup.inodes)).inodeAt
          (inum % BitVec.ofNat 32 INODES_PER_BLOCK).toNat
      errno := ioResult
      ioResult }

end FileSys

end Vmm386.Fs
