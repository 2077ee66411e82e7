import Vmm386.Types

/-!
# Inodes (`vmm/fs.h`)

An inode as it is stored on a device, and the changes the functions of `file.c`, `dir.c`
and `inode.c` make to the copy in memory. None of these changes sleeps on the way, and each
sets `dirty` together with the change.
-/

namespace Vmm386.Fs

/-! ## The record -/

def SINGLE_INDIRECT : ℕ := 9
def DOUBLE_INDIRECT : ℕ := 10
def TRIPLE_INDIRECT : ℕ := 11

def ATTR_MODE_MASK : ULong := 0xff

/-- The number of block pointers in an inode. -/
abbrev NR_PTRS : ℕ := 12

/-- `struct inode`: `data` are nine direct pointers and the single, double and triple
indirect one. -/
@[ext]
structure Inode where
  attr : ULong
  size : ULong
  modtime : ULong
  nlinks : ULong
  data : Fin NR_PTRS → ULong

/-- A zeroed `struct inode`. -/
def Inode.zero : Inode := ⟨0, 0, 0, 0, fun _ => 0⟩

/-- Overwrite one block pointer. -/
def Inode.setPtr (i : Inode) (k : Fin NR_PTRS) (blk : ULong) : Inode :=
  { i with data := Function.update i.data k blk }

/-! ## Changes -/

/-- A change some function makes to an inode in memory. -/
inductive Change where
  /-- `write_file` has moved its position to `pos`, and has written something or not. -/
  | write (pos : ULong) (wrote : Bool) (now : ULong)
  /-- `set_file_size`. -/
  | setSize (size : ULong)
  /-- `set_file_modes`. -/
  | setModes (mode : ULong)
  /-- `make_link`. -/
  | link
  /-- `remove_link` and `remove_directory`. -/
  | unlink
  /-- `create_file`, when it has got its inode. -/
  | clear (now : ULong)
  /-- `create_file`, when it has entered the file in its directory. -/
  | enter (attr : ULong)
  /-- `get_inode_blkno`, when it has allocated a block. -/
  | setPtr (k : Fin NR_PTRS) (blk : ULong)

/-- The changed inode, or nothing if the function leaves it and its `dirty` alone. -/
def Change.apply (i : Inode) : Change → Option Inode
  | .write pos wrote now =>
    let grown := if pos > i.size then { i with size := pos } else i
    if wrote then some { grown with modtime := now }
    else if pos > i.size then some grown
    else none
  | .setSize size => some { i with size }
  | .setModes mode => some { i with attr := (i.attr &&& ~~~ATTR_MODE_MASK) ||| (mode &&& ~~~ATTR_MODE_MASK) }
  | .link => some { i with nlinks := i.nlinks + 1 }
  | .unlink => some { i with nlinks := i.nlinks - 1 }
  | .clear now => some { Inode.zero with modtime := now }
  | .enter attr => some { i with nlinks := i.nlinks + 1, attr }
  | .setPtr k blk => some (i.setPtr k blk)

end Vmm386.Fs
