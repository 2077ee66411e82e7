import Vmm386.Fs.FileContents
import Vmm386.Fs.CreateFile
import Vmm386.Fs.MkfsTheorems

/-!
# Directory scans (`fs/dir.c`)

`find_file_entry`, `create_file_entry`, `delete_file_entry` and `directory_empty_p` read a directory
into `tmp_dir_blk`, which has room for one block, and look at the entries that have been read.
-/

namespace Vmm386.Fs.FileSys

open FileTables (DirEntry)

def E_NOMEM : ℤ := 17

/-! ## Entries -/

/-- The string at an offset of `tmp_dir_blk`. -/
def stringAt (buf : Blk) (off : ℕ) : List UChar :=
  ((List.range (FS_BLKSIZ - off)).map fun j => buf.byte (off + j)).takeWhile (· ≠ 0)

/-- `tmp_dir_blk.entries[i]`. -/
def dirEntry (buf : Blk) (i : ℕ) : DirEntry := ⟨stringAt buf (32 * i), (buf.word (8 * i + 7)).toNat⟩

/-- The first `n` entries of `tmp_dir_blk`, with their offsets in a directory of which it holds
the bytes from `pos` on. -/
def dirEntries (buf : Blk) (pos : ULong) (n : ℕ) : List (ULong × DirEntry) :=
  (List.range n).map fun i => (pos + BitVec.ofNat 32 (32 * i), dirEntry buf i)

/-! ## Reading -/

/-- `read_file`, if there are buffers for `blocks` blocks only. -/
def readSome (fs : FileSys) (blocks : Option ℕ) (len : ULong) (file : File) :
    ℤ × List UChar × File × FileSys :=
  match blocks with
  | none => fs.readFile len file
  | some 0 => (-E_NOMEM, [], file, fs.fail E_NOMEM)
  | some (b + 1) =>
    fs.readFile (BitVec.ofNat 32 (min len.toNat (FS_BLKSIZ * (b + 1) - posInBlk file.pos))) file

/-- `max(dir_len, FS_BLKSIZ)`, of `int`s. -/
def scanLen (dirLen : ULong) : ULong := BitVec.ofNat 32 (max dirLen.toInt FS_BLKSIZ).toNat

/-! ## The loop -/

/-- How a scan ends: `dir` is no directory, `read_file` has returned an error or written outside
`tmp_dir_blk`, the function has stopped at an entry, or there are no more entries. -/
inductive ScanEnd (σ β : Type) where
  | notDir
  | failed (tmp : ℤ)
  | outside
  | stopped (b : β)
  | ended (acc : σ)

/-- What a function does with an entry at an offset. -/
abbrev Visit (σ β : Type) := σ → ULong → DirEntry → β ⊕ σ

/-- The inner loop, and the entries that it has looked at. -/
def visitAll {σ β : Type} (visit : Visit σ β) :
    List (ULong × DirEntry) → σ → List ULong × (β ⊕ σ)
  | [], acc => ([], .inr acc)
  | (off, e) :: es, acc =>
    match visit acc off e with
    | .inl b => ([off], .inl b)
    | .inr acc =>
      match visitAll visit es acc with
      | (seen, r) => (off :: seen, r)

/-- The outer loop, as far as `fuel` passes go. Pass `k` has buffers for `blocks k` blocks. -/
def scanLoop {σ β : Type} (visit : Visit σ β) (blocks : ℕ → Option ℕ) :
    ℕ → FileSys → ℕ → ULong → File → Blk → σ → Option (List ULong × ScanEnd σ β)
  | 0, _, _, _, _, _, _ => none
  | fuel + 1, fs, k, dirLen, dir, buf, acc =>
    if dirLen > 0 then
      match fs.readSome (blocks k) (scanLen dirLen) dir with
      | (tmp, bytes, dir', fs) =>
        if FS_BLKSIZ < bytes.length then some ([], .outside)
        else if tmp < 0 then some ([], .failed tmp)
        else
          let buf := buf.memcpy 0 (fun i => bytes.getD i 0) bytes.length
          match visitAll visit (dirEntries buf dir.pos (tmp.toNat / 32)) acc with
          | (seen, .inl b) => some (seen, .stopped b)
          | (seen, .inr acc) =>
            match scanLoop visit blocks fuel fs (k + 1) (dirLen - BitVec.ofInt 32 tmp) dir' buf
              acc with
            | none => none
            | some (seen', e) => some (seen ++ seen', e)
    else some ([], .ended acc)

/-- A scan from the start of a directory. -/
def scanDir {σ β : Type} (visit : Visit σ β) (acc : σ) (fuel : ℕ) (blocks : ℕ → Option ℕ)
    (buf : Blk) (fs : FileSys) (dir : File) : Option (List ULong × ScanEnd σ β) :=
  let dirLen := (fs.inode dir.inum).size
  if (fs.inode dir.inum).attr &&& ATTR_DIRECTORY = 0 then some ([], .notDir)
  else
    match fs.seekFile 0 (some .abs) dir with
    | (_, dir, fs) => scanLoop visit blocks fuel fs 0 dirLen dir buf acc

/-! ## The functions -/

/-- `find_file_entry`: it stops with the inode number of the entry. -/
def findFileEntry (name : List UChar) : ℕ → (ℕ → Option ℕ) → Blk → FileSys → File →
    Option (List ULong × ScanEnd Unit ℕ) :=
  scanDir (fun _ _ e => if e.name ≠ [] ∧ name = e.name then .inl e.inum else .inr ()) ()

/-- `create_file_entry`: it stops at an entry of that name. `free_space` is the offset of the last
free entry, where it goes on to write the new one; without one it writes to the end. -/
def createFileEntry (name : List UChar) : ℕ → (ℕ → Option ℕ) → Blk → FileSys → File →
    Option (List ULong × ScanEnd (Option ULong) Unit) :=
  scanDir (fun freeSpace off e =>
    let freeSpace := if e.name = [] then some off else freeSpace
    if name = e.name then .inl () else .inr freeSpace) none

/-- `delete_file_entry`: it stops with the offset, where it goes on to write a free entry, and the
inode number, which it returns. -/
def deleteFileEntry (name : List UChar) : ℕ → (ℕ → Option ℕ) → Blk → FileSys → File →
    Option (List ULong × ScanEnd Unit (ULong × ℕ)) :=
  scanDir (fun _ off e => if e.name ≠ [] ∧ name = e.name then .inl (off, e.inum) else .inr ()) ()

/-- `directory_empty_p`: it stops at any entry but `.` and `..`. -/
def directoryEmpty : ℕ → (ℕ → Option ℕ) → Blk → FileSys → File →
    Option (List ULong × ScanEnd Unit Unit) :=
  scanDir (fun _ _ e => if e.name ≠ [] ∧ e.name ≠ [0x2e] ∧ e.name ≠ [0x2e, 0x2e] then .inl ()
    else .inr ()) ()

/-! ## What a scan should do -/

/-- The offsets of the entries of a directory. -/
def entryOffsets (size : ℕ) : List ULong :=
  (List.range (size / 32)).map fun i => BitVec.ofNat 32 (32 * i)

/-- A scan of a directory of this size ends, writes nothing outside `tmp_dir_blk`, and if it gets to
the end it has looked at every entry once. -/
def ScansRight {σ β : Type}
    (scan : ℕ → (ℕ → Option ℕ) → Blk → FileSys → File → Option (List ULong × ScanEnd σ β))
    (size : ULong) : Prop :=
  ∀ (fs : FileSys) (dir : File) (blocks : ℕ → Option ℕ) (buf : Blk), Consistent fs →
    dir.inum.toNat < fs.sup.numInodes.toNat → (fs.inode dir.inum).size = size →
    ∃ fuel seen e, scan fuel blocks buf fs dir = some (seen, e) ∧ e ≠ .outside ∧
      ∀ acc, e = .ended acc → seen = entryOffsets size.toNat

end Vmm386.Fs.FileSys
