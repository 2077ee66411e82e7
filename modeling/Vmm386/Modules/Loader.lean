import Vmm386.Tasks.Semaphore

/-!
# Modules

`kernel/modules/module.c` and `load_module` of `load.c`. A task that holds `forbid()` is not
preempted, so a step goes from one point at which the task may sleep to the next: `wait`, the
calls of the file system, and the functions `init` and `expunge` of a module, which may open,
close and expunge modules themselves.

A module is freed when it is expunged or its `init` fails. Its address is never given to
another one.
-/

namespace Vmm386.Modules

open Tasks

/-- `short`. -/
abbrev Short := BitVec 16

/-- `struct module` at the address `addr`. Of the four functions the model has whether they
are there. -/
structure Module (N : Type*) where
  addr : ℕ
  name : N
  version : UShort
  openCount : Short
  hasInit : Bool
  hasOpen : Bool
  hasClose : Bool
  hasExpunge : Bool
  isStatic : Bool

/-- The module in a file. -/
structure Image (N : Type*) where
  name : N
  version : UShort
  hasInit : Bool
  hasOpen : Bool
  hasClose : Bool
  hasExpunge : Bool

/-- `struct module` as it is linked into the chain, at the address. -/
def Image.toModule {N : Type*} (i : Image N) (addr : ℕ) : Module N where
  addr
  name := i.name
  version := i.version
  openCount := -1
  hasInit := i.hasInit
  hasOpen := i.hasOpen
  hasClose := i.hasClose
  hasExpunge := i.hasExpunge
  isStatic := false

/-- What `load_module` finds: no file, a file that cannot be read or is not a module (or no
memory for it), or a module. -/
inductive FileResult (N : Type*) where
  | noFile
  | noModule
  | module (image : Image N)

/-- What the function `open` of a module does: whether it returns the module, and the
`open_count` it leaves. -/
structure OpenAnswer where
  opened : Bool
  count : Short

/-- Where a task is. Of a task in `load_module`, `release` tells whether its `open_module` has
taken `load_sem`. -/
inductive LoadPc (N : Type*) where
  /-- In its own code, or in that of an `init` or `expunge`. -/
  | code
  /-- Asleep in `wait(&load_sem)`. -/
  | waiting (name : N) (version : UShort)
  /-- Woken up by `signal(&load_sem)`. -/
  | woken (name : N) (version : UShort)
  /-- In the file system, before `add_module`. -/
  | loading (name : N) (version : UShort) (release : Bool)
  /-- In `fs->close`, before `load_module` returns. -/
  | closing (mod : Option ℕ) (version : UShort) (release : Bool)

/-- A call under the code that a task runs. -/
inductive Frame (N : Type*) where
  | initing (addr : ℕ) (name : N) (version : UShort) (release : Bool)
  | expunging (addr : ℕ)

/-- A task; the innermost call comes first. -/
structure TaskState (N : Type*) where
  pc : LoadPc N
  stack : List (Frame N)

/-- What has happened. -/
inductive Event (N T : Type*) where
  /-- `load_module` starts to load the file of the module. -/
  | load (name : N)
  /-- `load_module` returns NULL. -/
  | failed (name : N)
  /-- The function `init` is called. -/
  | init (name : N)
  /-- The initialisation of the module at the address is over. -/
  | ready (addr : ℕ)
  | expunged (name : N)
  /-- `open_module` returns the module at the address to the task. -/
  | obtained (task : T) (addr : ℕ)

/-- The modules and the tasks that open them. `kernelCount` is `kernel->base.open_count`,
`next` the next address that `malloc` returns. -/
structure Loader (N T : Type*) where
  modChain : List (Module N)
  loadSem : Semaphore T
  ownerTask : Option T
  kernelCount : Short
  task : T → TaskState N
  next : ℕ
  history : List (Event N T)

namespace Loader

variable {N T : Type*} [DecidableEq N] [DecidableEq T] (s : Loader N T) (t : T)

def setTask (st : TaskState N) : Loader N T := { s with task := Function.update s.task t st }

def setPc (pc : LoadPc N) : Loader N T := s.setTask t { s.task t with pc }

def record (e : Event N T) : Loader N T := { s with history := e :: s.history }

/-! ## The chain -/

/-- `add_module`. -/
def addModule (m : Module N) : Loader N T := { s with modChain := m :: s.modChain }

/-- `remove_module`. -/
def removeModule (a : ℕ) : Loader N T := { s with modChain := s.modChain.eraseP (·.addr = a) }

/-- `find_module`. -/
def findModule (name : N) : Option (Module N) := s.modChain.find? (·.name = name)

/-- The module at the address, unless it has been freed. -/
def moduleAt (a : ℕ) : Option (Module N) := s.modChain.find? (·.addr = a)

def setOpenCount (a : ℕ) (f : Module N → Short) : Loader N T :=
  { s with
    modChain := s.modChain.map fun m => if m.addr = a then { m with openCount := f m } else m }

/-! ## `open_module` -/

/-- The end of `open_module`. A module that was expunged while its file was closed has been
freed; what the code finds there is left open. -/
def answer (mod : Option ℕ) (version : UShort) (ans : OpenAnswer) : Loader N T :=
  match mod with
  | none => s
  | some a =>
    match s.moduleAt a with
    | none => if ans.opened then s.record (.obtained t a) else s
    | some m =>
      if m.openCount = -1 ∨ m.version < version then s
      else if m.hasOpen then
        let s := s.setOpenCount a fun _ => ans.count
        if ans.opened then s.record (.obtained t a) else s
      else (s.setOpenCount a fun m => m.openCount + 1).record (.obtained t a)

/-- The end of `open_module`, and the return to its caller. -/
def endOpen (mod : Option ℕ) (version : UShort) (ans : OpenAnswer) : Loader N T :=
  (s.setPc t .code).answer t mod version ans

/-- The start of `load_module`. -/
def startLoad (name : N) (version : UShort) (release : Bool) : Loader N T :=
  (s.setPc t (.loading name version release)).record (.load name)

/-- `owner_task = NULL; signal(&load_sem);` -/
def unlock : Loader N T :=
  let s := { s with ownerTask := none }
  match s.loadSem.waiting with
  | [] => { s with loadSem := { s.loadSem with blocked := false } }
  | u :: rest =>
    let s := { s with loadSem := { s.loadSem with waiting := rest } }
    match (s.task u).pc with
    | .waiting name version => s.setPc u (.woken name version)
    | _ => s

/-- `open_module` after `wait(&load_sem)`. -/
def locked (name : N) (version : UShort) (ans : OpenAnswer) : Loader N T :=
  let s := { s with ownerTask := some t }
  match s.findModule name with
  | some m => s.unlock.endOpen t (some m.addr) version ans
  | none => s.startLoad t name version true

/-- `open_module`, up to the first point at which it sleeps. -/
def openModule (name : N) (version : UShort) (ans : OpenAnswer) : Loader N T :=
  match s.findModule name with
  | some m => s.endOpen t (some m.addr) version ans
  | none =>
    if s.ownerTask = some t then s.startLoad t name version false
    else if s.loadSem.blocked then
      { s with loadSem := s.loadSem.addTaskList t }.setPc t (.waiting name version)
    else { s with loadSem := { s.loadSem with blocked := true } }.locked t name version ans

/-- `open_module` after `load_module`. -/
def loadReturned (mod : Option ℕ) (version : UShort) (release : Bool) (ans : OpenAnswer) :
    Loader N T :=
  (if release then s.unlock else s).endOpen t mod version ans

/-! ## `load_module` -/

/-- `load_module` when the file is in memory, up to `init` or to `fs->close`. -/
def fileRead (name : N) (version : UShort) (release : Bool) (ans : OpenAnswer) :
    FileResult N → Loader N T
  | .noFile => (s.record (.failed name)).loadReturned t none version release ans
  | .noModule => (s.record (.failed name)).setPc t (.closing none version release)
  | .module i =>
    let a := s.next
    let s := { s with kernelCount := s.kernelCount + 1, next := s.next + 1 }.addModule (i.toModule a)
    if i.hasInit then
      (s.setTask t ⟨.code, .initing a name version release :: (s.task t).stack⟩).record
        (.init i.name)
    else
      ((s.record (.ready a)).setOpenCount a fun m => m.openCount + 1).setPc t
        (.closing (some a) version release)

/-- `load_module` after `init`. -/
def initReturned (a : ℕ) (name : N) (version : UShort) (release : Bool) (rest : List (Frame N))
    (ok : Bool) : Loader N T :=
  if ok then
    ((s.record (.ready a)).setOpenCount a fun m => m.openCount + 1).setTask t
      ⟨.closing (some a) version release, rest⟩
  else
    ((s.record (.failed name)).removeModule a).setTask t ⟨.closing none version release, rest⟩

/-! ## `close_module` and `expunge_module` -/

/-- `close_module`; a function `close` leaves the `open_count` it chooses. -/
def closeModule (a : ℕ) (count : Short) : Loader N T :=
  s.setOpenCount a fun m => if m.hasClose then count else m.openCount - 1

/-- `expunge_module`, up to the function `expunge` of the module. -/
def expungeModule (name : N) : Loader N T :=
  match s.findModule name with
  | none => s
  | some m =>
    if m.openCount = -1 ∨ m.hasExpunge = false then s
    else s.setTask t ⟨.code, .expunging m.addr :: (s.task t).stack⟩

/-- `expunge_module` after the function `expunge`. -/
def expungeReturned (a : ℕ) (rest : List (Frame N)) (ok : Bool) : Loader N T :=
  let s := s.setTask t ⟨.code, rest⟩
  if ok then
    match s.moduleAt a with
    | none => { s with kernelCount := s.kernelCount - 1 }
    | some m =>
      ({ s with kernelCount := s.kernelCount - 1 }.record (.expunged m.name)).removeModule a
  else s

end Loader

/-- What happens next, with the answers of the code that the loader calls. -/
inductive LoaderOp (N T : Type*) where
  | openModule (t : T) (name : N) (version : UShort) (ans : OpenAnswer)
  /-- `wait(&load_sem)` returns. -/
  | resume (t : T) (ans : OpenAnswer)
  | fileRead (t : T) (r : FileResult N) (ans : OpenAnswer)
  | initReturned (t : T) (ok : Bool)
  | fileClosed (t : T) (ans : OpenAnswer)
  | closeModule (t : T) (addr : ℕ) (count : Short)
  | expungeModule (t : T) (name : N)
  | expungeReturned (t : T) (ok : Bool)

/-- The modules that are linked into the kernel, initialised before there are any tasks. -/
structure StaticModules (N : Type*) where
  mods : List (Module N)
  next : ℕ
  names_nodup : (mods.map (·.name)).Nodup
  addrs_nodup : (mods.map (·.addr)).Nodup
  addr_lt : ∀ m ∈ mods, m.addr < next

/-- The loader when the kernel has started. -/
def Loader.boot {N T : Type*} (statics : StaticModules N) : Loader N T where
  modChain := statics.mods
  loadSem := .init false
  ownerTask := none
  kernelCount := 0
  task _ := ⟨.code, []⟩
  next := statics.next
  history := []

section Step

variable {N T : Type*} [DecidableEq N] [DecidableEq T]

/-- One step of a task. Only a module that some task has obtained is closed. -/
def loaderStep (s : Loader N T) : LoaderOp N T → Option (Loader N T)
  | .openModule t name version ans =>
    match (s.task t).pc with
    | .code => some (s.openModule t name version ans)
    | _ => none
  | .resume t ans =>
    match (s.task t).pc with
    | .woken name version => some (s.locked t name version ans)
    | _ => none
  | .fileRead t r ans =>
    match (s.task t).pc with
    | .loading name version release => some (s.fileRead t name version release ans r)
    | _ => none
  | .initReturned t ok =>
    match s.task t with
    | ⟨.code, .initing a name version release :: rest⟩ =>
      some (s.initReturned t a name version release rest ok)
    | _ => none
  | .fileClosed t ans =>
    match (s.task t).pc with
    | .closing mod version release => some (s.loadReturned t mod version release ans)
    | _ => none
  | .closeModule t a count =>
    match (s.task t).pc with
    | .code =>
      if s.history.any fun | .obtained _ b => b = a | _ => false then
        some (s.closeModule a count)
      else none
    | _ => none
  | .expungeModule t name =>
    match (s.task t).pc with
    | .code => some (s.expungeModule t name)
    | _ => none
  | .expungeReturned t ok =>
    match s.task t with
    | ⟨.code, .expunging a :: rest⟩ => some (s.expungeReturned t a rest ok)
    | _ => none

end Step

end Vmm386.Modules
