import Vmm386.Fs.BlockTree

/-!
# Files (`fs/file.c`)

Operations on file handles of valid inodes. A handle knows its inode by number.
-/

namespace Vmm386.Fs

def E_PERM : ℤ := 4

def F_READ : ULong := 1
def F_WRITE : ULong := 2

/-- `struct file`. -/
structure File where
  inum : ULong
  mode : ULong
  pos : ULong

/-- The `type` arguments of `seek_file`. -/
inductive Whence where
  | abs
  | rel
  | eof

/-- The type of an argument that is none of these. -/
abbrev SeekType := Option Whence

namespace FileSys

/-- Make a change to an inode in memory. -/
def change (fs : FileSys) (inum : ULong) (c : Change) : FileSys :=
  match c.apply (fs.inode inum) with
  | some inode => fs.setInode inum inode
  | none => fs

/-- `new_pos`. -/
def newPos (file : File) (size arg : ULong) : Whence → ULong
  | .abs => arg
  | .rel => file.pos + arg
  | .eof => size - arg

/-- `seek_file`. -/
def seekFile (fs : FileSys) (arg : ULong) (type : SeekType) (file : File) : ℤ × File × FileSys :=
  let size := (fs.inode file.inum).size
  match type with
  | none => (-E_BADARG, file, fs.fail E_BADARG)
  | some whence =>
    let pos := newPos file size arg whence
    if pos.toInt < 0 ∨ pos > size then (-E_BADARG, file, fs.fail E_BADARG)
    else (pos.toInt, { file with pos }, fs)

/-! ## Reading -/

/-- `file->pos % FS_BLKSIZ`. -/
def posInBlk (pos : ULong) : ℕ := (pos % BitVec.ofNat 32 FS_BLKSIZ).toNat

/-- How much of `len` bytes from `pos` on is in one block. -/
def inOneBlk (pos : ULong) (len : ℕ) : ℕ := min len (FS_BLKSIZ - posInBlk pos)

theorem posInBlk_lt (pos : ULong) : posInBlk pos < FS_BLKSIZ := by
  rw [posInBlk, BitVec.toNat_umod]
  exact Nat.mod_lt _ (by decide)

theorem inOneBlk_pos (pos : ULong) {len : ℕ} (h : 0 < len) : 0 < inOneBlk pos len := by
  have hlt := posInBlk_lt pos
  rw [inOneBlk]
  omega

/-- `this_read`. -/
def thisRead (pos size : ULong) (len : ℕ) : ℕ :=
  if pos + BitVec.ofNat 32 (inOneBlk pos len) > size then (size - pos).toNat
  else inOneBlk pos len

theorem thisRead_pos {pos size : ULong} {len : ℕ} (hlen : 0 < len) (hpos : pos < size) :
    0 < thisRead pos size len := by
  rw [thisRead]
  split
  · have hlt := BitVec.lt_def.mp hpos
    rw [BitVec.toNat_sub]
    omega
  · exact inOneBlk_pos pos hlen

/-- The loop of `read_file`: the bytes it reads, the new position, and whether it got to its
end without an error. -/
def readLoop (fs : FileSys) (inum pos : ULong) (len : ℕ) : List UChar × ULong × Bool × FileSys :=
  let size := (fs.inode inum).size
  if _h : 0 < len ∧ pos < size then
    let n := thisRead pos size len
    match fs.getDataBlkno noFaults inum (pos / BitVec.ofNat 32 FS_BLKSIZ) false with
    | (blk, fs) =>
      if blk = 0 ∧ fs.errno ≠ E_NOEXIST then ([], pos, false, fs)
      else
        -- a block that does not exist is taken to be full of zeros
        let bytes := (List.range n).map fun i =>
          if blk = 0 then 0 else (fs.disk blk).byte (posInBlk pos + i)
        match fs.readLoop inum (pos + BitVec.ofNat 32 n) (len - n) with
        | (rest, pos, ok, fs) => (bytes ++ rest, pos, ok, fs)
  else ([], pos, true, fs)
termination_by len
decreasing_by
  have hn := thisRead_pos _h.1 _h.2
  have := _h.1
  simp only [size] at hn ⊢
  omega

/-- `read_file` of `len` bytes, together with what it leaves in `buf`. -/
def readFile (fs : FileSys) (len : ULong) (file : File) : ℤ × List UChar × File × FileSys :=
  if file.mode &&& F_READ = 0 then (-E_PERM, [], file, fs.fail E_PERM)
  else
    match fs.readLoop file.inum file.pos len.toNat with
    | (bytes, pos, ok, fs) =>
      (if ok ∨ 0 < bytes.length then bytes.length else -fs.errno, bytes, { file with pos }, fs)

/-! ## Writing -/

/-- Write the bytes of `data` to a block at `off`. The block goes through a buffer that is
dirty when it is released. -/
def writeBlk (fs : FileSys) (blk : ULong) (off : ℕ) (data : List UChar) : FileSys :=
  (fs.store blk ((fs.disk blk).memcpy off (fun i => data.getD i 0) data.length)).flush

/-- `bwrite`. -/
def bwrite (fs : FileSys) (blk : ULong) (data : List UChar) : FileSys :=
  (fs.store blk (Blk.ofBytes fun i => data.getD i 0)).flush

/-- The loop of `write_file`: how much it writes, the new position, and whether it got to its
end without an error. -/
def writeLoop (fs : FileSys) (inum pos : ULong) (data : List UChar) : ℕ × ULong × Bool × FileSys :=
  if _h : 0 < data.length then
    let n := inOneBlk pos data.length
    match fs.getDataBlkno noFaults inum (pos / BitVec.ofNat 32 FS_BLKSIZ) true with
    | (blk, fs) =>
      if blk = 0 then (0, pos, false, fs)
      else
        let fs :=
          if n = FS_BLKSIZ then fs.bwrite blk (data.take n)
          else fs.writeBlk blk (posInBlk pos) (data.take n)
        match fs.writeLoop inum (pos + BitVec.ofNat 32 n) (data.drop n) with
        | (rest, pos, ok, fs) => (n + rest, pos, ok, fs)
  else (0, pos, true, fs)
termination_by data.length
decreasing_by
  have hn := inOneBlk_pos pos _h
  rw [List.length_drop]
  omega

/-- `write_file`. -/
def writeFile (fs : FileSys) (data : List UChar) (now : ULong) (file : File) : ℤ × File × FileSys :=
  if file.mode &&& F_WRITE = 0 then (-E_PERM, file, fs.fail E_PERM)
  else
    match fs.writeLoop file.inum file.pos data with
    | (actual, pos, ok, fs) =>
      let ret : ℤ := if ok ∨ 0 < actual then actual else -fs.errno
      (ret, { file with pos }, fs.change file.inum (.write pos (ret > 0) now))

/-! ## The size -/

/-- `truncate_file`. -/
def truncateFile (fs : FileSys) (now : ULong) (file : File) : FileSys :=
  fs.deleteInodeData file.inum now

/-- `set_file_size`. -/
def setFileSize (fs : FileSys) (size : ULong) (file : File) : FileSys :=
  (fs.change file.inum (.setSize size)).flush

end FileSys

end Vmm386.Fs
