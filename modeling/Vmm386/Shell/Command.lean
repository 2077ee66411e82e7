import Vmm386.Types
import Vmm386.Lib.Linked
import Vmm386.Lib.Runs

/-!
# The commands of the shell

The allocation of command structures and the hash table of `shell/command.c`. Structures are numbered:
block `b` of the allocator has those from `32 * b + 1` to `32 * b + 32`, and zero is the null pointer.
Memory for a block is always found.
-/

namespace Vmm386.Shell

abbrev NULL : ℕ := 0

abbrev CMD_BLK_SIZE : ℕ := 32

abbrev CMD_HASH_SIZE : ℕ := 31

/-- A string: the bytes before its zero. -/
abbrev Name := {s : List UChar // ∀ c ∈ s, c ≠ 0}

/-- `hash_string`, where a `char` is signed. -/
def hashString (string : Name) : ULong :=
  string.1.foldl (fun value c => value * 33 + c.signExtend 32) 0

/-- The index into `command_table`. -/
def slot (name : Name) : ℕ := (hashString name).toNat % CMD_HASH_SIZE

/-- `struct command`, with functions `φ` and documentation `δ`. -/
structure Command (φ δ : Type*) where
  next : ℕ
  name : Name
  hashValue : ULong
  func : φ
  doc : δ

/-- All structures, the number of blocks in `block_list`, `free_list` and `command_table`. -/
structure Commands (φ δ : Type*) where
  cells : ℕ → Command φ δ
  blocks : ℕ
  freeList : ℕ
  table : ℕ → ℕ

variable {φ δ : Type*}

namespace Commands

/-- `p->next`. -/
def next (s : Commands φ δ) (p : ℕ) : ℕ := (s.cells p).next

/-- `p->next = v`. -/
def setNext (s : Commands φ δ) (p v : ℕ) : Commands φ δ :=
  { s with cells := Function.update s.cells p { s.cells p with next := v } }

/-- The first `k` structures from `new` on, each linked to the one behind it. -/
def linkCells (s : Commands φ δ) (new k : ℕ) : Commands φ δ :=
  (List.range k).foldl (fun s i => s.setNext (new + i) (new + (i + 1))) s

/-- `alloc_command` with an empty free list: a new block, all of whose structures are free. -/
def newBlock (s : Commands φ δ) : Commands φ δ :=
  let new := CMD_BLK_SIZE * s.blocks + 1
  let s := { s with blocks := s.blocks + 1 }
  let s := s.linkCells new (CMD_BLK_SIZE - 1)
  let s := s.setNext (new + (CMD_BLK_SIZE - 1)) NULL
  { s with freeList := new }

/-- `alloc_command`. -/
def allocCommand (s : Commands φ δ) : ℕ × Commands φ δ :=
  let s := if s.freeList = NULL then s.newBlock else s
  (s.freeList, { s with freeList := s.next s.freeList })

/-- `free_command`. -/
def freeCommand (s : Commands φ δ) (cmd : ℕ) : Commands φ δ :=
  { s.setNext cmd s.freeList with freeList := cmd }

/-- `add_command`. -/
def addCommand (s : Commands φ δ) (name : Name) (func : φ) (doc : δ) : Commands φ δ :=
  let (newCmd, s) := s.allocCommand
  let cmd : Command φ δ :=
    { next := s.next newCmd, name := name, func := func, doc := doc, hashValue := hashString name }
  let s := { s with cells := Function.update s.cells newCmd cmd }
  let s := s.setNext newCmd (s.table (slot name))
  { s with table := Function.update s.table (slot name) newCmd }

/-- `*itemp`, where `itemp` points to an entry of the table or to the `next` of a structure. -/
def getPlace (s : Commands φ δ) (i : ℕ) : Option ℕ → ℕ
  | none => s.table i
  | some p => s.next p

/-- `*itemp = v`. -/
def setPlace (s : Commands φ δ) (i : ℕ) (itemp : Option ℕ) (v : ℕ) : Commands φ δ :=
  match itemp with
  | none => { s with table := Function.update s.table i v }
  | some p => s.setNext p v

/-- The loop of `remove_command`, with at most `fuel` tests of its condition. -/
def removeLoop (s : Commands φ δ) (name : Name) : ℕ → Option ℕ → Option (Bool × Commands φ δ)
  | 0, _ => none
  | fuel + 1, itemp =>
    let item := s.getPlace (slot name) itemp
    if item = NULL then some (false, s)
    else if (s.cells item).hashValue = hashString name ∧ (s.cells item).name = name then
      some (true, (s.setPlace (slot name) itemp (s.next item)).freeCommand item)
    else s.removeLoop name fuel (some item)

/-- More tests than a walk over the structures of all blocks takes. -/
def fuel (s : Commands φ δ) : ℕ := CMD_BLK_SIZE * s.blocks + 1

/-- `remove_command`. -/
def removeCommand (s : Commands φ δ) (name : Name) : Option (Bool × Commands φ δ) :=
  s.removeLoop name s.fuel none

/-- The loop of `find_command`. -/
def findLoop (s : Commands φ δ) (name : Name) : ℕ → ℕ → Option ℕ
  | 0, _ => none
  | fuel + 1, item =>
    if item = NULL then some item
    else if (s.cells item).hashValue = hashString name ∧ (s.cells item).name = name then some item
    else s.findLoop name fuel (s.next item)

/-- `find_command`. -/
def findCommand (s : Commands φ δ) (name : Name) : Option ℕ :=
  s.findLoop name s.fuel (s.table (slot name))

/-- `add_cmd_list`, with the entries before the one without a name. -/
def addCmdList (s : Commands φ δ) (cmds : List (Name × φ × δ)) : Commands φ δ :=
  cmds.foldl (fun s (name, func, doc) => s.addCommand name func doc) s

/-- `remove_cmd_list`. -/
def removeCmdList (s : Commands φ δ) : List (Name × φ × δ) → Option (Commands φ δ)
  | [] => some s
  | (name, _) :: cmds => (s.removeCommand name).bind fun (_, s') => s'.removeCmdList cmds

/-- Before the first command. -/
def init (cells : ℕ → Command φ δ) : Commands φ δ where
  cells := cells
  blocks := 0
  freeList := NULL
  table _ := NULL

end Commands

/-! ## Runs -/

/-- A call that changes the table. -/
inductive Op (φ δ : Type*) where
  | addCommand (name : Name) (func : φ) (doc : δ)
  | removeCommand (name : Name)
  | addCmdList (cmds : List (Name × φ × δ))
  | removeCmdList (cmds : List (Name × φ × δ))

/-- What a call does; a loop that does not end has no result. -/
def step (s : Commands φ δ) : Op φ δ → Option (Commands φ δ)
  | .addCommand name func doc => some (s.addCommand name func doc)
  | .removeCommand name => (s.removeCommand name).map Prod.snd
  | .addCmdList cmds => some (s.addCmdList cmds)
  | .removeCmdList cmds => s.removeCmdList cmds

/-! ## Stacks of definitions -/

/-- The definitions of each name, the last added first. -/
abbrev Stacks (φ δ : Type*) := Name → List (φ × δ)

def Stacks.push (A : Stacks φ δ) (name : Name) (d : φ × δ) : Stacks φ δ :=
  Function.update A name (d :: A name)

def Stacks.pop (A : Stacks φ δ) (name : Name) : Stacks φ δ := Function.update A name (A name).tail

/-- What a call does to the stacks. -/
def stackStep (A : Stacks φ δ) : Op φ δ → Stacks φ δ
  | .addCommand name func doc => A.push name (func, doc)
  | .removeCommand name => A.pop name
  | .addCmdList cmds => cmds.foldl (fun A (name, func, doc) => A.push name (func, doc)) A
  | .removeCmdList cmds => cmds.foldl (fun A (name, _) => A.pop name) A

end Vmm386.Shell
