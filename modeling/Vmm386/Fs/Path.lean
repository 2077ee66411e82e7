import Vmm386.Fs.CreateFile
import Vmm386.Lib.Programs

/-!
# Paths (`fs/dir.c`)

`open_file` and `create_file` with `find_parent` and `read_symlink`, which call each other. They
are programs over the name space as one task sees it: the attributes and the data of the inodes of
all devices, the handles and the references to inodes, and the current directory. A directory is
the list of its entries, as far as they fit into `tmp_dir_blk`. Each call that uses a device or
takes something of a pool may fail, at any time.
-/

namespace Vmm386.Fs.Paths

open Programs
open FileTables (DirEntry)

def ATTR_NO_READ : ULong := 0x00000001
def ATTR_NO_WRITE : ULong := 0x00000002
def ATTR_SYMLINK : ULong := 0x00020000

def F_READ : ULong := 1
def F_WRITE : ULong := 2
def F_CREATE : ULong := 4
def F_TRUNCATE : ULong := 8
def F_ALLOW_DIR : ULong := 16
def F_DONT_LINK : ULong := 32

def E_NOEXIST : ℤ := 1
def E_NODEV : ℤ := 2
def E_EXISTS : ℤ := 3
def E_PERM : ℤ := 4
def E_NOTDIR : ℤ := 5
def E_ISDIR : ℤ := 6
def E_BADARG : ℤ := 15
def E_NOMEM : ℤ := 17
def E_INVALID : ℤ := 18
def E_NOTLINK : ℤ := 20
def E_MAXLINKS : ℤ := 21

abbrev MAX_SYMLINK_DEPTH : ℤ := 8
abbrev ROOT_INUM : ℕ := 0

def slash : UChar := 0x2f
def colon : UChar := 0x3a

/-! ## The name space -/

/-- An inode, by its device and its number. -/
structure Node where
  dev : ℕ
  inum : ℕ
  deriving DecidableEq

/-- `struct file`. -/
structure Handle where
  id : ℕ
  node : Node
  mode : ULong
  deriving DecidableEq

/-- A device of `device_list`. -/
structure Device where
  name : List UChar
  id : ℕ

/-- `root_dir`: the name of a device, with the `:`. -/
structure RootDir where
  path : List UChar
  fits : path.length < 40
  noSlash : path.head? ≠ some slash

/-- An error of a device or of a pool. A scan of a directory has read `seen` entries before it. -/
structure Fault where
  errno : ℤ
  seen : ℕ

structure NameSpace where
  attr : Node → ULong
  nlinks : Node → ULong
  /-- The bytes of a file or of a symbolic link. -/
  content : Node → List UChar
  entries : Node → List DirEntry
  /-- The inode bitmaps. -/
  inUse : Node → Bool
  numInodes : ℕ → ℕ
  devices : List Device
  /-- `dev->root` is not `NULL`. -/
  mounted : ℕ → Bool
  rootDir : RootDir
  currentDir : Option Handle
  symlinkNesting : ℤ
  errno : ℤ
  useCount : Node → ℤ
  /-- The handles that are not in the pool. -/
  files : List ℕ
  nextFile : ℕ
  /-- What goes wrong, call by call. -/
  faults : ℕ → Option Fault
  /-- What comes on the stack after a buffer, call by call. -/
  junk : ℕ → List UChar
  clock : ℕ
  /-- How much `find_parent` has copied to its buffer, each time. -/
  copies : List ℕ
  /-- `symlink_nesting`, each time that `read_symlink` has not been too deep. -/
  activations : List ℤ
  /-- How often `read_symlink` has been too deep. -/
  refused : ℕ

namespace NameSpace

variable (s : NameSpace)

/-- `F_IS_DIR`. -/
def isDir (node : Node) : Bool := s.attr node &&& FileTables.ATTR_DIRECTORY != 0

/-- `F_IS_SYMLINK`. -/
def isSymlink (node : Node) : Bool := s.attr node &&& ATTR_SYMLINK != 0

def addRef (node : Node) (n : ℤ) : NameSpace :=
  { s with useCount := Function.update s.useCount node (s.useCount node + n) }

/-- The data blocks of an inode go. -/
def clearData (node : Node) : NameSpace :=
  { s with
    content := Function.update s.content node []
    entries := Function.update s.entries node [] }

/-- The data of an inode, and its bit of the bitmap. -/
def deleteInode (node : Node) : NameSpace :=
  { s.clearData node with inUse := Function.update s.inUse node false }

end NameSpace

abbrev Op (α : Type) := Prog NameSpace α

/-- A function with the type of `open_file`. -/
abbrev Opener := List UChar → ULong → Op (Option Handle)

def setErrno (e : ℤ) : Op Unit := modify fun s => { s with errno := e }

/-- The next call may fail. -/
def fault : Op (Option Fault) := fun s =>
  let s' := { s with clock := s.clock + 1 }
  match s.faults s.clock with
  | some f => some (some f, { s' with errno := f.errno })
  | none => some (none, s')

def fails : Op Bool := do
  let f ← fault
  pure f.isSome

/-! ## Inodes and handles -/

/-- `make_inode`. -/
def makeInode (node : Node) : Op Bool := do
  if ← fails then pure false
  else
    modify (·.addRef node 1)
    pure true

/-- `write_inode`. -/
def writeInode : Op Unit := do
  let _ ← fails
  pure ()

/-- `close_inode`. -/
def closeInode (node : Node) : Op Unit := do
  writeInode
  modify (·.addRef node (-1))
  let s ← get
  if s.useCount node = 0 ∧ s.nlinks node = 0 then
    if ← fails then pure () else modify (·.deleteInode node)
  else pure ()

/-- `make_file`. -/
def makeFile (node : Node) : Op (Option Handle) := do
  if ← fails then pure none
  else
    let s ← get
    modify fun s =>
      { s.addRef node 1 with files := s.nextFile :: s.files, nextFile := s.nextFile + 1 }
    pure (some ⟨s.nextFile, node, F_READ ||| F_WRITE⟩)

/-- `close_file`. -/
def closeFile (file : Handle) : Op Unit := do
  let _ ← fails
  closeInode file.node
  modify fun s => { s with files := s.files.erase file.id }

/-- `dup_file`. -/
def dupFile (file : Option Handle) : Op (Option Handle) :=
  match file with
  | none => do
    setErrno E_BADARG
    pure none
  | some file => do
    match ← makeFile file.node with
    | none => pure none
    | some new => pure (some { new with mode := file.mode })

/-- `truncate_file`. -/
def truncateFile (file : Handle) : Op Unit := do
  if ← fails then pure () else modify (·.clearData file.node)

/-! ## Directories -/

/-- The entries that `read_file` gets of a directory, and whether these are all of it. -/
def readEntries (dir : Handle) : Op (List DirEntry × Bool) := do
  let s ← get
  if s.entries dir.node = [] then pure ([], true)
  else if dir.mode &&& F_READ = 0 then
    setErrno E_PERM
    pure ([], false)
  else
    match ← fault with
    | some f => pure ((s.entries dir.node).dropLast.take f.seen, false)
    | none => pure (s.entries dir.node, true)

/-- `find_file_entry`. -/
def findFileEntry (dir : Handle) (name : List UChar) : Op (Option Node) := do
  let s ← get
  if s.isDir dir.node then
    let (es, all) ← readEntries dir
    match es.find? fun e => e.name ≠ [] ∧ e.name = name with
    | some e =>
      if ← makeInode ⟨dir.node.dev, e.inum⟩ then pure (some ⟨dir.node.dev, e.inum⟩)
      else pure none
    | none =>
      if all then setErrno E_NOEXIST else pure ()
      pure none
  else
    setErrno E_NOTDIR
    pure none

/-- `write_file` of a new entry. -/
def writeEntry (dir : Handle) (name : List UChar) (inum : ℕ) : Op Bool := do
  if dir.mode &&& F_WRITE = 0 then
    setErrno E_PERM
    pure false
  else if ← fails then pure false
  else
    modify fun s =>
      let e := ⟨FileTables.Tables.entryName name (s.junk s.clock), inum⟩
      let es := FileTables.Tables.putEntry (s.entries dir.node) e
      { s with entries := Function.update s.entries dir.node es }
    pure true

/-- `create_file_entry`. After an error of `read_file` it returns the error, which is not
`FALSE`. -/
def createFileEntry (dir : Handle) (name : List UChar) (inum : ℕ) : Op Bool := do
  let s ← get
  if s.isDir dir.node then
    let (es, all) ← readEntries dir
    if es.any fun e => e.name = name then
      setErrno E_EXISTS
      pure false
    else if all then writeEntry dir name inum
    else pure true
  else
    setErrno E_NOTDIR
    pure false

/-- `file_exists_p` of a name in a directory. -/
def fileExistsP (dir : Handle) (name : List UChar) : Op Bool := do
  match ← findFileEntry dir name with
  | some inode =>
    closeInode inode
    pure true
  | none => pure false

/-- `swap_current_dir`. -/
def swapCurrentDir (dir : Option Handle) : Op (Option Handle) := do
  let tmp := (← get).currentDir
  match dir with
  | none =>
    modify fun s => { s with currentDir := none }
    pure tmp
  | some dir =>
    if ← fails then pure none
    else
      let s ← get
      if s.isDir dir.node then
        modify fun s => { s with currentDir := some dir }
        pure tmp
      else
        setErrno E_NOTDIR
        pure none

/-! ## `find_parent` -/

/-- `strchr`: what stands before the first `c`, and after it. -/
def strchr : List UChar → UChar → Option (List UChar × List UChar)
  | [], _ => none
  | d :: name, c =>
    if d = c then some ([], name)
    else (strchr name c).map fun (before, after) => (d :: before, after)

/-- `memcpy` to `buf` of `find_parent`, and the zero after it. -/
def copyToBuf (len : ℕ) : Op Unit := modify fun s => { s with copies := len :: s.copies }

/-- `TO_UPPER`. -/
def toUpper (c : UChar) : UChar := if 0x61 ≤ c ∧ c ≤ 0x7a then c + 0x20 else c

/-- `get_device`. -/
def getDevice (name : List UChar) (devices : List Device) : Option Device :=
  devices.find? fun dev => dev.name.map toUpper = name.map toUpper

/-- `read_file` of what a link says, as `open_file` reads it. -/
def readLink (link : Handle) : Op (Option (List UChar)) := do
  let s ← get
  if link.mode &&& F_READ = 0 then
    setErrno E_PERM
    pure none
  else if ← fails then pure none
  else if s.content link.node = [] then pure none
  else pure (some ((s.content link.node ++ s.junk s.clock).takeWhile (· ≠ 0)))

/-- `symlink_nesting` goes up for as long as `m` takes. -/
def nested {α : Type} (m : Op α) : Op α := do
  modify fun s => { s with symlinkNesting := s.symlinkNesting + 1 }
  let dest ← m
  modify fun s => { s with symlinkNesting := s.symlinkNesting - 1 }
  pure dest

section Bodies

variable (openFile : Opener)

/-- `open_file` of what a link says. -/
def openLink (link : Handle) : Op (Option Handle) := do
  match ← readLink link with
  | none => pure none
  | some buf => openFile buf link.mode

/-- `read_symlink`. -/
def readSymlink (link : Handle) : Op (Option Handle) :=
  nested do
    let s ← get
    if s.symlinkNesting ≤ MAX_SYMLINK_DEPTH then
      modify fun s => { s with activations := s.symlinkNesting :: s.activations }
      if s.isSymlink link.node then
        if (s.content link.node).length < 256 then openLink openFile link
        else
          setErrno E_NOMEM
          pure none
      else
        setErrno E_NOTLINK
        pure none
    else
      modify fun s => { s with refused := s.refused + 1 }
      setErrno E_MAXLINKS
      pure none

/-- Where the path begins. -/
def startDir (name : List UChar) : Op (Option Handle × List UChar) := do
  let s ← get
  if name.head? = some slash then
    let dir ← openFile s.rootDir.path (F_READ ||| F_WRITE ||| F_ALLOW_DIR)
    pure (dir, name.tail)
  else
    match strchr name colon with
    | some ([], rest) =>
      match s.currentDir.filter fun dir => s.mounted dir.node.dev with
      | some cur =>
        let dir ← makeFile ⟨cur.node.dev, ROOT_INUM⟩
        pure (dir, rest)
      | none =>
        setErrno E_INVALID
        pure (none, rest)
    | some (buf, rest) =>
      copyToBuf buf.length
      match getDevice buf s.devices with
      | none =>
        setErrno E_NODEV
        pure (none, rest)
      | some dev =>
        if s.mounted dev.id then
          let dir ← makeFile ⟨dev.id, ROOT_INUM⟩
          pure (dir, rest)
        else
          setErrno E_INVALID
          pure (none, rest)
    | none =>
      let dir ← dupFile s.currentDir
      pure (dir, name)

/-- The handle for a component of the path. -/
def enterChild (child : Node) : Op (Option Handle) := do
  let s ← get
  if s.isSymlink child then
    let link ← makeFile child
    closeInode child
    match link with
    | none => pure none
    | some link =>
      let dir ← readSymlink openFile { link with mode := link.mode ||| F_ALLOW_DIR }
      closeFile link
      pure dir
  else
    let dir ← makeFile child
    closeInode child
    pure dir

/-- The loop of `find_parent`, as far as `fuel` passes go. -/
def walk : ℕ → Handle → List UChar → Op (Option Handle × List UChar)
  | 0, _, _ => failure
  | fuel + 1, dir, name => do
    let s ← get
    if s.isDir dir.node then
      match strchr name slash with
      | none => pure (some dir, name)
      | some (buf, rest) =>
        copyToBuf buf.length
        let child ← findFileEntry dir buf
        closeFile dir
        match child with
        | none => pure (none, rest)
        | some child =>
          match ← enterChild openFile child with
          | none => pure (none, rest)
          | some dir => walk fuel dir rest
    else pure (some dir, name)

/-- `find_parent`, with the name that is left. -/
def findParent (name : List UChar) : Op (Option Handle × List UChar) := do
  match ← startDir openFile name with
  | (none, name) => pure (none, name)
  | (some dir, name) => walk openFile (name.length + 1) dir name

/-! ## `create_file` -/

/-- `memset` of a new inode. -/
def clearInode (node : Node) : Op Unit :=
  modify fun s =>
    { s.clearData node with
      attr := Function.update s.attr node 0
      nlinks := Function.update s.nlinks node 0 }

/-- The new inode gets its link and its attributes. -/
def linkInode (node : Node) (attr : ULong) : Op Unit :=
  modify fun s =>
    { s with
      attr := Function.update s.attr node attr
      nlinks := Function.update s.nlinks node (s.nlinks node + 1) }

/-- `alloc_inode`. -/
def allocInode (dev : ℕ) : Op (Option ℕ) := do
  if ← fails then pure none
  else
    let s ← get
    match (List.range (s.numInodes dev)).find? fun i => !s.inUse ⟨dev, i⟩ with
    | none => pure none
    | some inum =>
      modify fun s => { s with inUse := Function.update s.inUse ⟨dev, inum⟩ true }
      pure (some inum)

/-- `free_inode`. -/
def freeInode (node : Node) : Op Unit := do
  if ← fails then pure ()
  else modify fun s => { s with inUse := Function.update s.inUse node false }

/-- `create_file`: the handle of a new inode. -/
def newFile (node : Node) : Op (Option Handle) := do
  if ← makeInode node then
    clearInode node
    let file ← makeFile node
    closeInode node
    pure file
  else pure none

/-- `create_file`: the entry of the new file. If there can be none, the handle is closed, and
returned. -/
def enterFile (dir file : Handle) (name : List UChar) (attr : ULong) : Op (Option Handle) := do
  if ← createFileEntry dir name file.node.inum then
    linkInode file.node attr
    writeInode
    pure (some file)
  else
    closeFile file
    pure (some file)

/-- `create_file`, in its directory. -/
def createIn (dir : Handle) (name : List UChar) (attr : ULong) : Op (Option Handle) := do
  if ← fileExistsP dir name then
    setErrno E_EXISTS
    pure none
  else
    match ← allocInode dir.node.dev with
    | none => pure none
    | some inum =>
      match ← newFile ⟨dir.node.dev, inum⟩ with
      | some file => enterFile dir file name attr
      | none =>
        freeInode ⟨dir.node.dev, inum⟩
        pure none

/-- `create_file`. -/
def createFile (name : List UChar) (attr : ULong) : Op (Option Handle) := do
  match ← findParent openFile name with
  | (none, _) => pure none
  | (some dir, []) =>
    closeFile dir
    pure none
  | (some dir, name) =>
    let file ← createIn dir name attr
    closeFile dir
    pure file

/-! ## `open_file` -/

/-- `open_file` of an inode that it has found. -/
def openInode (inode : Node) (mode : ULong) : Op (Option Handle) := do
  let s ← get
  if mode &&& F_DONT_LINK = 0 ∧ s.isSymlink inode then
    match ← makeFile inode with
    | none => pure none
    | some link =>
      let file ← readSymlink openFile { link with mode := F_READ ||| mode }
      closeFile link
      pure file
  else if (mode &&& F_READ ≠ 0 ∧ s.attr inode &&& ATTR_NO_READ ≠ 0) ∨
      (mode &&& F_WRITE ≠ 0 ∧ s.attr inode &&& ATTR_NO_WRITE ≠ 0) then
    setErrno E_PERM
    pure none
  else if s.isDir inode ∧ mode &&& F_ALLOW_DIR = 0 then
    setErrno E_ISDIR
    pure none
  else makeFile inode

/-- `open_file` of a name in a directory that it has found. -/
def openIn (dir : Handle) (name : List UChar) (mode : ULong) : Op (Option Handle) := do
  match ← findFileEntry dir name with
  | none =>
    if mode &&& F_CREATE ≠ 0 then
      let oldDir ← swapCurrentDir (some dir)
      let file ← createFile openFile name 0
      let _ ← swapCurrentDir oldDir
      pure file
    else pure none
  | some inode =>
    let file ← openInode openFile inode mode
    closeInode inode
    pure file

/-- `open_file`: what it does to a file that it has opened. -/
def setMode (file : Handle) (mode : ULong) : Op Handle := do
  if mode &&& F_TRUNCATE ≠ 0 then truncateFile file else pure ()
  writeInode
  pure { file with mode }

/-- `open_file`, with the function that it calls for `root_dir` and for links. -/
def openBody (name : List UChar) (mode : ULong) : Op (Option Handle) := do
  match ← findParent openFile name with
  | (none, _) => pure none
  | (some dir, []) => pure (some dir)
  | (some dir, name) =>
    match ← openIn openFile dir name mode with
    | none =>
      closeFile dir
      pure none
    | some file =>
      let file ← setMode file mode
      closeFile dir
      pure (some file)

end Bodies

/-- `open_file`, as far as `fuel` calls of it go inside one another. -/
def openFile : ℕ → Opener
  | 0 => fun _ _ => failure
  | fuel + 1 => openBody (openFile fuel)

end Vmm386.Fs.Paths
