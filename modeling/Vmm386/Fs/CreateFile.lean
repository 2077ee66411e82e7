import Vmm386.Fs.Inode

/-!
# Creating a file (`fs/dir.c`)

`create_file` with what it takes: a bit of the inode bitmap, an inode in memory, a handle, and
an entry of a directory. The calls of one task, on one device, whose medium stays in its drive;
each call that reads or writes the device may fail. Inodes are known by their numbers, and a
directory is the list of its entries.
-/

namespace Vmm386.Fs.FileTables

def ATTR_DIRECTORY : ULong := 0x00010000

abbrev NAME_MAX : ℕ := 27
abbrev DIR_ENTRIES_PER_BLOCK : ℕ := 32

/-- `struct dir_entry`. The name is what `strcmp` sees of it. -/
structure DirEntry where
  name : List UChar
  inum : ℕ

/-- `struct core_inode`. -/
structure CoreInode where
  inode : Inode
  useCount : ℕ
  dirty : Bool

/-- The inode bitmap and the inodes of the device, the inodes in memory and how many more there
is room for, the free handles and the inodes of the others, and the contents of the directories. -/
structure Tables where
  numInodes : ℕ
  inodeBitmap : ℕ → Bool
  inodes : ℕ → Inode
  core : ℕ → Option CoreInode
  freeInodes : ℕ
  freeFiles : List ℕ
  files : ℕ → Option ℕ
  entries : ℕ → List DirEntry

/-- What the device fails to do. `search` and `enter` are the entries that `find_file_entry` and
`create_file_entry` can read before an error, if there is one. -/
structure Faults where
  readInode : ℕ → Bool
  writeInode : ℕ → Bool
  search : Option ℕ
  alloc : Bool
  /-- `free_inode`, when `close_inode` calls it. -/
  closeFree : Bool
  enter : Option ℕ
  /-- `write_file` of the new entry. -/
  write : Bool
  /-- `free_inode`, when `create_file` calls it. -/
  free : Bool

namespace Tables

variable (s : Tables) (f : Faults)

def setCore (inum : ℕ) (c : Option CoreInode) : Tables :=
  { s with core := Function.update s.core inum c }

/-! ## Inodes -/

/-- The first free inode of the bitmap. -/
def freeInum : Option ℕ := (List.range s.numInodes).find? fun i => !s.inodeBitmap i

/-- `alloc_inode`. -/
def allocInode : Option (ℕ × Tables) :=
  if f.alloc then none
  else s.freeInum.map fun inum =>
    (inum, { s with inodeBitmap := Function.update s.inodeBitmap inum true })

/-- `free_inode`. -/
def freeInode (fails : Bool) (inum : ℕ) : Tables :=
  if fails then s else { s with inodeBitmap := Function.update s.inodeBitmap inum false }

/-- `make_inode`. -/
def makeInode (inum : ℕ) : Option Tables :=
  match s.core inum with
  | some c => some (s.setCore inum (some { c with useCount := c.useCount + 1 }))
  | none =>
    if s.freeInodes = 0 ∨ f.readInode inum then none
    else some ({ s with freeInodes := s.freeInodes - 1 }.setCore inum
      (some ⟨s.inodes inum, 1, false⟩))

/-- `write_inode`. -/
def writeInode (inum : ℕ) : Tables :=
  match s.core inum with
  | some c =>
    if c.dirty ∧ ¬ f.writeInode inum then
      { s with inodes := Function.update s.inodes inum c.inode }.setCore inum
        (some { c with dirty := false })
    else s
  | none => s

/-- `close_inode`, after it has written the inode. -/
def dropInode (inum : ℕ) : Tables :=
  match s.core inum with
  | some c =>
    if c.useCount = 1 then
      let s := { s with freeInodes := s.freeInodes + 1 }.setCore inum none
      if c.inode.nlinks = 0 then s.freeInode f.closeFree inum else s
    else s.setCore inum (some { c with useCount := c.useCount - 1 })
  | none => s

/-- `close_inode`. -/
def closeInode (inum : ℕ) : Tables := (s.writeInode f inum).dropInode f inum

/-! ## Handles -/

/-- `make_file`. -/
def makeFile (inum : ℕ) : Option (ℕ × Tables) :=
  match s.freeFiles, s.core inum with
  | file :: rest, some c =>
    some (file, { s with
      freeFiles := rest, files := Function.update s.files file (some inum) }.setCore inum
        (some { c with useCount := c.useCount + 1 }))
  | _, _ => none

/-- `close_file`. -/
def closeFile (file : ℕ) : Tables :=
  match s.files file with
  | some inum =>
    let s := s.closeInode f inum
    { s with freeFiles := file :: s.freeFiles, files := Function.update s.files file none }
  | none => s

/-! ## Directories -/

/-- `F_IS_DIR`. -/
def isDir (inum : ℕ) : Bool :=
  match s.core inum with
  | some c => c.inode.attr &&& ATTR_DIRECTORY != 0
  | none => false

/-- The entries that can be read of a directory, and whether these are all of it. -/
def readEntries (es : List DirEntry) : Option ℕ → List DirEntry × Bool
  | none => (es, true)
  | some k => if k < es.length then (es.take k, false) else (es, true)

/-- What `read_file` reads into `tmp_dir_blk` is longer than that. -/
def Overruns (dir : ℕ) (fault : Option ℕ) : Prop :=
  s.isDir dir = true ∧ DIR_ENTRIES_PER_BLOCK < (readEntries (s.entries dir) fault).1.length

instance (dir : ℕ) (fault : Option ℕ) : Decidable (s.Overruns dir fault) :=
  inferInstanceAs (Decidable (_ ∧ _))

/-- The inode that `find_file_entry` makes. -/
def findEntry (dir : ℕ) (name : List UChar) : Option DirEntry :=
  if s.isDir dir then
    (readEntries (s.entries dir) f.search).1.find? fun e => e.name ≠ [] ∧ e.name = name
  else none

/-- `file_exists_p`. -/
def fileExists (dir : ℕ) (name : List UChar) : Bool × Tables :=
  match s.findEntry f dir name with
  | some e =>
    match s.makeInode f e.inum with
    | some s => (true, s.closeInode f e.inum)
    | none => (false, s)
  | none => (false, s)

/-- The name of a new entry: `strncpy` ends it if it is shorter than `NAME_MAX`, else `junk` is
what comes next on the stack. -/
def entryName (name junk : List UChar) : List UChar :=
  if name.length < NAME_MAX then name else name.take NAME_MAX ++ junk

/-- The last free slot of a directory, or its end. -/
def entrySlot (es : List DirEntry) : ℕ :=
  ((List.range es.length).reverse.find? fun i => (es[i]?.map (·.name)) = some []).getD es.length

/-- The entry goes into its slot, or to the end. -/
def putEntry (es : List DirEntry) (e : DirEntry) : List DirEntry :=
  if entrySlot es < es.length then es.set (entrySlot es) e else es ++ [e]

/-- `write_file` of an entry. -/
def writeEntry (dir : ℕ) (e : DirEntry) (now : ULong) : Tables :=
  let es := putEntry (s.entries dir) e
  let s := { s with entries := Function.update s.entries dir es }
  match s.core dir with
  | some c =>
    let inode := { c.inode with size := BitVec.ofNat 32 (32 * es.length), modtime := now }
    s.setCore dir (some { c with inode, dirty := true })
  | none => s

/-- `create_file_entry`. After an error of `read_file` it returns the error, which is not
`FALSE`. -/
def createFileEntry (dir : ℕ) (name junk : List UChar) (inum : ℕ) (now : ULong) :
    Bool × Tables :=
  if s.isDir dir then
    match readEntries (s.entries dir) f.enter with
    | (seen, all) =>
      if seen.any (fun e => e.name = name) then (false, s)
      else if !all then (true, s)
      else if f.write then (false, s)
      else (true, s.writeEntry dir ⟨entryName name junk, inum⟩ now)
  else (false, s)

/-! ## `create_file` -/

/-- The end of `find_parent`: the handle of the directory with the inode `dir`, if it got so
far. -/
def findParent (dir : ℕ) : Option ℕ × Tables :=
  match s.makeInode f dir with
  | some s =>
    match s.makeFile dir with
    | some (file, s) => (some file, s.closeInode f dir)
    | none => (none, s.closeInode f dir)
  | none => (none, s)

/-- `memset` of the new inode. -/
def clearInode (inum : ℕ) (now : ULong) : Tables :=
  match s.core inum with
  | some c => s.setCore inum (some { c with inode := { Inode.zero with modtime := now }, dirty := true })
  | none => s

/-- The new inode gets its link and its attributes. -/
def linkInode (inum : ℕ) (attr : ULong) : Tables :=
  match s.core inum with
  | some c => s.setCore inum
      (some { c with inode := { c.inode with nlinks := c.inode.nlinks + 1, attr }, dirty := true })
  | none => s

/-- `create_file`, with the inode and the handle. -/
def enterFile (dir file inum : ℕ) (name junk : List UChar) (attr now : ULong) :
    Option ℕ × Tables :=
  match s.createFileEntry f dir name junk inum now with
  | (true, s) => (some file, (s.linkInode inum attr).writeInode f inum)
  | (false, s) => (some file, s.closeFile f file)

/-- `create_file`, with the bit of the bitmap. No result means that it has written past the end
of `tmp_dir_blk`. -/
def createInode (dir inum : ℕ) (name junk : List UChar) (attr now : ULong) :
    Option (Option ℕ × Tables) :=
  match s.makeInode f inum with
  | some s =>
    let s := s.clearInode inum now
    match s.makeFile inum with
    | some (file, s) =>
      let s := s.closeInode f inum
      if s.Overruns dir f.enter then none
      else some (s.enterFile f dir file inum name junk attr now)
    | none => some (none, (s.closeInode f inum).freeInode f.free inum)
  | none => some (none, s.freeInode f.free inum)

/-- `create_file`, with its directory. -/
def createIn (dir : ℕ) (name junk : List UChar) (attr now : ULong) :
    Option (Option ℕ × Tables) :=
  if name = [] then some (none, s)
  else if s.Overruns dir f.search then none
  else
    match s.fileExists f dir name with
    | (true, s) => some (none, s)
    | (false, s) =>
      match s.allocInode f with
      | none => some (none, s)
      | some (inum, s) => s.createInode f dir inum name junk attr now

/-- `create_file` of `name` in the directory that `find_parent` finds. -/
def createFile (dir : Option ℕ) (name junk : List UChar) (attr now : ULong) :
    Option (Option ℕ × Tables) :=
  match dir with
  | none => some (none, s)
  | some dir =>
    match s.findParent f dir with
    | (none, s) => some (none, s)
    | (some parent, s) =>
      (s.createIn f dir name junk attr now).map fun (file, s) => (file, s.closeFile f parent)

end Tables

end Vmm386.Fs.FileTables
