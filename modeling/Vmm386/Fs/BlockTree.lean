import Mathlib.Data.BitVec
import Vmm386.Fs.Bitmap
import Vmm386.Lib.Forest

/-!
# The blocks of an inode (`fs/inode.c`, `fs/file.c`)

Nine pointers of an inode lead to data blocks, the other three to trees of indirect blocks
of height one, two and three.
-/

namespace Vmm386.Fs.FileSys

/-! ## Faults

On the way down to a data block, each level has an allocation and a `bread` that can go
wrong: because of a device error, because every buffer is in use or, in the allocation, in
any block of the bitmap. -/

/-- The error the allocation and the `bread` of one level fail with, if they do. -/
structure Fault where
  alloc : Option ℤ
  bread : Option ℤ

/-- The faults of one call, from the inode downwards. -/
abbrev Faults := ℕ → Fault

def noFaults : Faults := fun _ => ⟨none, none⟩

/-- `alloc_block`, where a `bread` of the bitmap may fail. -/
def tryAllocBlock (fs : FileSys) (fault : Fault) (locality : ULong) : ULong × FileSys :=
  match fault.alloc with
  | some e => (0, fs.fail e)
  | none => fs.allocBlock locality

/-! ## Getting at a block

A buffer that is held is its block number, and whether it is dirty. What it holds is the
contents of the block. -/

/-- A `struct buf_head *` that `bread` has returned. -/
structure Buf where
  blkno : ULong
  dirty : Bool

/-- `brelse`. -/
def brelse (fs : FileSys) (buf : Buf) : FileSys := if buf.dirty then fs.flush else fs

/-- `get_inode_blkno`. The second value is `*created`. -/
def getInodeBlkno (fs : FileSys) (fault : Fault) (inum : ULong) (offset : Fin NR_PTRS)
    (create : Bool) : ULong × Bool × FileSys :=
  let ptrs := (fs.inode inum).data
  if ptrs offset ≠ 0 then (ptrs offset, false, fs)
  else if create then
    match fs.tryAllocBlock fault (if offset > 0 then ptrs (offset - 1) else 0) with
    | (blk, fs) =>
      if blk ≠ 0 then (blk, true, fs.setInode inum ((fs.inode inum).setPtr offset blk))
      else (0, false, fs)
  else (0, false, fs.fail E_NOEXIST)

/-- `get_indirect_blkno`, which releases the buffer. The second value is `*created`. -/
def getIndirectBlkno (fs : FileSys) (fault : Fault) (indBuf : Buf) (offset : ℕ) (create : Bool) :
    ULong × Bool × FileSys :=
  let ptrs := (fs.disk indBuf.blkno).word
  if ptrs offset ≠ 0 then (ptrs offset, false, fs.brelse indBuf)
  else if create then
    match fs.tryAllocBlock fault (if offset > 0 then ptrs (offset - 1) else 0) with
    | (blk, fs) =>
      if blk ≠ 0 then
        (blk, true, (fs.store indBuf.blkno ((fs.disk indBuf.blkno).setWord offset blk)).flush)
      else (0, false, fs.brelse indBuf)
  else (0, false, (fs.fail E_NOEXIST).brelse indBuf)

/-- What `get_inode_blk` and `get_indirect_blk` do with the block number they have got. -/
def breadCleared (fault : Fault) (clr : Bool) : ULong × Bool × FileSys → Option Buf × FileSys
  | (blk, created, fs) =>
    if blk = 0 then (none, fs)
    else match fault.bread with
    | some e => (none, fs.fail e)
    | none =>
      if clr && created then (some ⟨blk, true⟩, fs.store blk Blk.zero)
      else (some ⟨blk, false⟩, fs)

/-- `get_inode_blk`. -/
def getInodeBlk (fs : FileSys) (fault : Fault) (inum : ULong) (offset : Fin NR_PTRS)
    (create clr : Bool) : Option Buf × FileSys :=
  breadCleared fault clr (fs.getInodeBlkno fault inum offset create)

/-- `get_indirect_blk`. -/
def getIndirectBlk (fs : FileSys) (fault : Fault) (indBuf : Buf) (offset : ℕ)
    (create clr : Bool) : Option Buf × FileSys :=
  breadCleared fault clr (fs.getIndirectBlkno fault indBuf offset create)

/-- Go down one more level, unless there was an error. -/
def andThenBlk (fault : Fault) (create : Bool) (offset : ℕ) :
    Option Buf × FileSys → Option Buf × FileSys
  | (none, fs) => (none, fs)
  | (some tmp, fs) => fs.getIndirectBlk fault tmp offset create true

/-- Take the block number at the end of the way down, unless there was an error. -/
def andThenBlkno (fault : Fault) (create : Bool) (offset : ℕ) :
    Option Buf × FileSys → ULong × FileSys
  | (none, fs) => (0, fs)
  | (some tmp, fs) =>
    match fs.getIndirectBlkno fault tmp offset create with
    | (blk, _, fs) => (blk, fs)

/-- `get_data_blkno`, on a valid inode. -/
def getDataBlkno (fs : FileSys) (faults : Faults) (inum : ULong) (blk : ULong) (create : Bool) :
    ULong × FileSys :=
  let n := blk.toNat
  if h : n < SINGLE_INDIRECT then
    match fs.getInodeBlkno (faults 0) inum ⟨n, Nat.lt_trans h (by decide)⟩ create with
    | (blk, _, fs) => (blk, fs)
  else
  let n := n - SINGLE_INDIRECT
  if n < PTRS_PER_INDIRECT then
    andThenBlkno (faults 1) create n (fs.getInodeBlk (faults 0) inum 9 create true)
  else
  let n := n - PTRS_PER_INDIRECT
  if n < PTRS_PER_INDIRECT * PTRS_PER_INDIRECT then
    andThenBlkno (faults 2) create (n % PTRS_PER_INDIRECT)
      (andThenBlk (faults 1) create (n / PTRS_PER_INDIRECT)
        (fs.getInodeBlk (faults 0) inum 10 create true))
  else
  let n := n - PTRS_PER_INDIRECT * PTRS_PER_INDIRECT
  if n < PTRS_PER_INDIRECT * PTRS_PER_INDIRECT * PTRS_PER_INDIRECT then
    andThenBlkno (faults 3) create (n % PTRS_PER_INDIRECT)
      (andThenBlk (faults 2) create (n / PTRS_PER_INDIRECT % PTRS_PER_INDIRECT)
        (andThenBlk (faults 1) create (n / (PTRS_PER_INDIRECT * PTRS_PER_INDIRECT))
          (fs.getInodeBlk (faults 0) inum 11 create true)))
  else (0, fs.fail E_BADARG)

/-! ## Deleting the blocks -/

/-- The body of the loop of `delete_indirect_blocks`: delete what is below one pointer of the
block, and zero the pointer. The buffer of `blk` is written when it is released. -/
def deletePtr (delete : FileSys → ULong → FileSys) (blk : ULong) (fs : FileSys)
    (i : Fin PTRS_PER_INDIRECT) : FileSys :=
  let ptr := (fs.disk blk).word i
  if ptr ≠ 0 then
    let fs := delete fs ptr
    (fs.store blk ((fs.disk blk).setWord i 0)).flush
  else fs

/-- The loop of `delete_indirect_blocks`. -/
def deletePtrs (delete : FileSys → ULong → FileSys) (fs : FileSys) (blk : ULong) : FileSys :=
  (List.finRange PTRS_PER_INDIRECT).foldl (deletePtr delete blk) fs

/-- `delete_indirect_blocks`, on a valid inode. It succeeds. -/
def deleteIndirectBlocks (depth : ℕ) : FileSys → ULong → FileSys :=
  match depth with
  | 0 => deletePtrs freeBlock
  | depth + 1 => deletePtrs (deleteIndirectBlocks depth)

/-- What `delete_inode_data` does to one pointer of the inode. -/
def deleteInodePtr (delete : FileSys → ULong → FileSys) (inum : ULong) (fs : FileSys)
    (k : Fin NR_PTRS) : FileSys :=
  let ptr := (fs.inode inum).data k
  if ptr ≠ 0 then
    let fs := delete fs ptr
    fs.setInode inum ((fs.inode inum).setPtr k 0)
  else fs

/-- `delete_inode_data` as far as the block pointers are concerned. -/
def deleteInodePtrs (fs : FileSys) (inum : ULong) : FileSys :=
  let fs := ([0, 1, 2, 3, 4, 5, 6, 7, 8] : List (Fin NR_PTRS)).foldl (deleteInodePtr freeBlock inum) fs
  let fs := deleteInodePtr (deleteIndirectBlocks 0) inum fs 9
  let fs := deleteInodePtr (deleteIndirectBlocks 1) inum fs 10
  deleteInodePtr (deleteIndirectBlocks 2) inum fs 11

/-- `delete_inode_data`, on a valid inode. It succeeds. -/
def deleteInodeData (fs : FileSys) (inum now : ULong) : FileSys :=
  let fs := fs.deleteInodePtrs inum
  fs.setInode inum { fs.inode inum with size := 0, modtime := now }

/-! ## The forest of the block pointers -/

/-- A way from an inode to a block. -/
abbrev Path := Forest.Path (ULong × Fin NR_PTRS) (Fin PTRS_PER_INDIRECT)

/-- The levels of indirect blocks below a pointer of an inode. -/
def height (r : ULong × Fin NR_PTRS) : ℕ := r.2.val - 8

/-- The block pointers of the inodes the device has room for, and of the blocks. -/
def forest (fs : FileSys) : Forest (ULong × Fin NR_PTRS) (Fin PTRS_PER_INDIRECT) ULong where
  root r := if r.1.toNat < fs.sup.numInodes.toNat then (fs.inode r.1).data r.2 else 0
  child a i := (fs.disk a).word i

/-- The block number a path leads to. -/
def walk (fs : FileSys) (P : Path) : ULong := fs.forest.walk P

/-- Where a block number is kept: in an inode, or in an indirect block. -/
inductive Place where
  | inode (inum : ULong) (k : Fin NR_PTRS)
  | word (blk : ULong) (i : Fin PTRS_PER_INDIRECT)
deriving DecidableEq

/-- Where the last block number of a path is. -/
def place (fs : FileSys) : Path → Place
  | .root (inum, k) => .inode inum k
  | .sub P i => .word (fs.walk P) i

/-- Overwrite a block number. -/
def put (fs : FileSys) (blk : ULong) : Place → FileSys
  | .inode inum k => fs.setInode inum ((fs.inode inum).setPtr k blk)
  | .word a i => fs.store a ((fs.disk a).setWord i blk)

end Vmm386.Fs.FileSys
