import Vmm386.Fs.Buffer
import Vmm386.Lib.Runs

/-!
# The inodes in memory (`fs/inode.c`, `fs/dev.c`)

The pool of inodes is divided between the open list and the free list. `make_inode`,
`close_inode` and `validate_device` sleep while they read or write the device, and
`test_media` enters them again on the way. What is between two sleeps is one step; which of
the activities that sleep goes on is left to the label. The device driver and the buffer
cache decide whether a read succeeds.
-/

namespace Vmm386.Fs.InodeCache

/-! ## Data -/

abbrev NR_INODES : ℕ := 30

def ROOT_INUM : ULong := 0

/-- An element of `inode_pool`. -/
abbrev InodeId := Fin NR_INODES

/-- `struct core_inode`, without its link and its contents. -/
structure CoreInode where
  useCount : ℤ
  dev : DevId
  inum : ULong
  invalid : Bool
  locked : Bool

/-- The fields of `struct fs_device` that the inode layer uses. -/
structure Device where
  root : Option InodeId
  invalid : Bool
  useCount : ℤ

/-- The static data of `inode.c`, and the devices. -/
structure Tables where
  openList : List InodeId
  freeList : List InodeId
  pool : InodeId → CoreInode
  dev : DevId → Device

/-- Who has called `make_inode`: some function that keeps the inode, or `validate_device`,
which makes it the root of the device. -/
inductive Origin where
  | caller
  | validate
  deriving DecidableEq

/-- A call that sleeps. -/
inductive Act where
  /-- `make_inode` has found its inode locked. -/
  | waiting (dev : DevId) (inum : ULong) (k : Origin)
  /-- `make_inode` reads the inode. -/
  | making (x : InodeId) (k : Origin)
  /-- `close_inode` writes the inode. -/
  | closing (x : InodeId)
  /-- `close_inode` has unlinked the inode, and deletes the file. -/
  | deleting (x : InodeId)
  /-- `validate_device` reads the super block. -/
  | reading (dev : DevId)
  /-- `validate_device` calls `make_inode` for the root, which calls `test_media` first. -/
  | validated (dev : DevId)
  deriving DecidableEq

/-- The tables, the calls that sleep, and how many references to an inode the callers of
`make_inode` and `dup_inode` have not given to `close_inode` yet. -/
structure Sys where
  tab : Tables
  acts : List Act
  held : InodeId → ℕ

inductive Label where
  | makeInode (dev : DevId) (inum : ULong)
  | dupInode (x : InodeId)
  /-- `nolinks` tells whether the inode has no links (left). -/
  | closeInode (x : InodeId) (nolinks : Bool)
  | invalidateDevice (dev : DevId)
  | validateDevice (dev : DevId)
  /-- The call goes on; `ok` tells whether its read has succeeded. -/
  | resume (a : Act) (ok nolinks : Bool)

/-! ## The tables -/

namespace Tables

def set (t : Tables) (x : InodeId) (i : CoreInode) : Tables :=
  { t with pool := Function.update t.pool x i }

def setDev (t : Tables) (d : DevId) (v : Device) : Tables :=
  { t with dev := Function.update t.dev d v }

/-- The search of `make_inode` through the open list. -/
def find (t : Tables) (dev : DevId) (inum : ULong) : Option InodeId :=
  t.openList.find? fun x =>
    (t.pool x).inum == inum && (t.pool x).dev == dev && !(t.pool x).invalid

/-- `inode->use_count++`. -/
def addUse (t : Tables) (x : InodeId) : Tables :=
  t.set x { t.pool x with useCount := (t.pool x).useCount + 1 }

/-- `--inode->use_count`. -/
def dropUse (t : Tables) (x : InodeId) : Tables :=
  t.set x { t.pool x with useCount := (t.pool x).useCount - 1 }

/-- `release_device`. The reference of `add_device` stays, so the last one is never
released (`Inv.mounted`). -/
def releaseDevice (t : Tables) (d : DevId) : Tables :=
  t.setDev d { t.dev d with useCount := (t.dev d).useCount - 1 }

/-- `make_inode` puts the first free inode at the head of the open list. -/
def insert (t : Tables) (dev : DevId) (inum : ULong) (x : InodeId) : Tables where
  openList := x :: t.openList
  freeList := t.freeList.tail
  pool := Function.update t.pool x
    { useCount := 1, dev, inum, invalid := false, locked := true }
  dev := Function.update t.dev dev { t.dev dev with useCount := (t.dev dev).useCount + 1 }

/-- `make_inode` after a successful read. -/
def makeDone (t : Tables) (x : InodeId) : Tables := t.set x { t.pool x with locked := false }

/-- `make_inode` after a failed read: the open list becomes what follows the inode in it. -/
def makeFailed (t : Tables) (x : InodeId) : Tables :=
  { t with
    openList := (t.openList.dropWhile (· != x)).tail
    freeList := x :: t.freeList }.releaseDevice (t.pool x).dev

/-- `close_inode` takes the inode out of the open list. -/
def unlink (t : Tables) (x : InodeId) : Tables := { t with openList := t.openList.erase x }

/-- The end of `close_inode`. -/
def freeInode (t : Tables) (x : InodeId) : Tables :=
  let t := t.releaseDevice (t.pool x).dev
  { t with freeList := x :: t.freeList }

/-- `invalidate_device_inodes`. -/
def invalidateDeviceInodes (t : Tables) (d : DevId) : Tables :=
  { t with pool := fun x =>
      if x ∈ t.openList ∧ (t.pool x).dev = d then { t.pool x with invalid := true } else t.pool x }

end Tables

/-! ## The functions, cut at the points where they sleep -/

namespace Sys

/-- `make_inode` returns to its caller. -/
def deliver (s : Sys) (dev : DevId) (r : Option InodeId) : Origin → Sys
  | .caller => match r with
    | some x => { s with held := Function.update s.held x (s.held x + 1) }
    | none => s
  | .validate => { s with tab := s.tab.setDev dev { s.tab.dev dev with root := r } }

/-- `make_inode` from the label `again` up to its read. -/
def lookup (s : Sys) (dev : DevId) (inum : ULong) (k : Origin) : Sys :=
  match s.tab.find dev inum with
  | some x =>
    if (s.tab.pool x).locked then { s with acts := .waiting dev inum k :: s.acts }
    else { s with tab := s.tab.addUse x }.deliver dev (some x) k
  | none =>
    match s.tab.freeList with
    | x :: _ => { s with tab := s.tab.insert dev inum x, acts := .making x k :: s.acts }
    | [] => s.deliver dev none k

/-- `close_inode` after it has written the inode. -/
def drop (s : Sys) (x : InodeId) (nolinks : Bool) : Sys :=
  let t := s.tab.dropUse x
  if (t.pool x).useCount = 0 then
    let t := t.unlink x
    if !(t.pool x).invalid && nolinks then { s with tab := t, acts := .deleting x :: s.acts }
    else { s with tab := t.freeInode x }
  else { s with tab := t }

/-- `invalidate_device` drops the root inode. -/
def dropRoot (s : Sys) (dev : DevId) : Sys :=
  match (s.tab.dev dev).root with
  | some r =>
    { s with tab := s.tab.set r { s.tab.pool r with invalid := true } }.drop r false
  | none => s

/-- `invalidate_device`. -/
def invalidateDevice (s : Sys) (dev : DevId) : Sys :=
  if (s.tab.dev dev).invalid then s
  else
    let s := s.dropRoot dev
    let t := s.tab.setDev dev { s.tab.dev dev with root := none, invalid := true }
    { s with tab := t.invalidateDeviceInodes dev }

/-- A call that slept goes on. -/
def resume (s : Sys) (ok nolinks : Bool) : Act → Sys
  | .waiting dev inum k => s.lookup dev inum k
  | .making x k =>
    let dev := (s.tab.pool x).dev
    if ok then { s with tab := s.tab.makeDone x }.deliver dev (some x) k
    else { s with tab := s.tab.makeFailed x }.deliver dev none k
  | .closing x => s.drop x nolinks
  | .deleting x => { s with tab := s.tab.freeInode x }
  | .reading dev =>
    if ok then
      { s with
        tab := s.tab.setDev dev { s.tab.dev dev with invalid := false }
        acts := .validated dev :: s.acts }
    else s
  | .validated dev => s.lookup dev ROOT_INUM .validate

/-- Somebody holds a reference to the inode. -/
def Referenced (s : Sys) (x : InodeId) : Prop :=
  0 < s.held x ∨ (s.tab.dev (s.tab.pool x).dev).root = some x

instance (s : Sys) (x : InodeId) : Decidable (s.Referenced x) :=
  inferInstanceAs (Decidable (0 < s.held x ∨ _))

/-- One step. References are copied by those who have one, and closed by those who hold
one. -/
def step (s : Sys) : Label → Option Sys
  | .makeInode dev inum => some (s.lookup dev inum .caller)
  | .dupInode x =>
    if s.Referenced x then
      some ({ s with tab := s.tab.addUse x }.deliver (s.tab.pool x).dev (some x) .caller)
    else none
  | .closeInode x nolinks =>
    if s.held x = 0 then none
    else
      let s := { s with held := Function.update s.held x (s.held x - 1) }
      if (s.tab.pool x).invalid then some (s.drop x nolinks)
      else some { s with acts := .closing x :: s.acts }
  | .invalidateDevice dev => some (s.invalidateDevice dev)
  | .validateDevice dev =>
    if (s.tab.dev dev).invalid then some { s with acts := .reading dev :: s.acts } else some s
  | .resume a ok nolinks =>
    if a ∈ s.acts then some ({ s with acts := s.acts.erase a }.resume ok nolinks a) else none

/-- `init_inodes` has run, and every device has been entered by `add_device`, which has not
yet called `validate_device`. -/
def init : Sys where
  tab :=
    { openList := []
      freeList := List.finRange NR_INODES
      pool := fun _ => ⟨0, 0, 0, false, false⟩
      dev := fun _ => ⟨none, true, 1⟩ }
  acts := []
  held := fun _ => 0

end Sys

/-! ## The property -/

/-- The inode a `close_inode` has unlinked and not yet freed. -/
def Act.unlinked : Act → Option InodeId
  | .deleting x => some x
  | _ => none

/-- The inodes in use: the open ones, and those that are being deleted. -/
def Sys.inCore (s : Sys) : List InodeId := s.tab.openList ++ s.acts.filterMap Act.unlinked

/-- No inode is lost or on two lists (where no `close_inode` is deleting a file, the open
list and the free list partition the pool); an inode with a live reference is on the open
list; there is at most one inode that is not invalid for each inode number of a device. -/
structure Intact (s : Sys) : Prop where
  partition : ∀ x, s.inCore.count x + s.tab.freeList.count x = 1
  live : ∀ x, 0 < s.held x ∨ (∃ d, (s.tab.dev d).root = some x) ∨ .closing x ∈ s.acts ∨
    (∃ k, .making x k ∈ s.acts) → x ∈ s.tab.openList
  unique : ∀ x ∈ s.inCore, ∀ y ∈ s.inCore, (s.tab.pool x).invalid = false →
    (s.tab.pool y).invalid = false → (s.tab.pool x).dev = (s.tab.pool y).dev →
    (s.tab.pool x).inum = (s.tab.pool y).inum → x = y

/-! ## The condition -/

/-- The step makes `make_inode` look for the inode. -/
def Label.looksUp : Label → Option (DevId × ULong)
  | .makeInode dev inum => some (dev, inum)
  | .resume (.waiting dev inum _) _ _ => some (dev, inum)
  | .resume (.validated dev) _ _ => some (dev, ROOT_INUM)
  | _ => none

/-- What the state before a step has to satisfy: a `make_inode` whose read has failed finds
its inode at the head of the open list, and none makes an inode that is being deleted. -/
structure StepOk (s : Sys) (l : Label) : Prop where
  atHead : ∀ x k nolinks, l = .resume (.making x k) false nolinks →
    s.tab.openList.head? = some x
  notDeleted : ∀ dev inum, l.looksUp = some (dev, inum) → ∀ x, .deleting x ∈ s.acts →
    ¬ ((s.tab.pool x).invalid = false ∧ (s.tab.pool x).dev = dev ∧ (s.tab.pool x).inum = inum)

end Vmm386.Fs.InodeCache
