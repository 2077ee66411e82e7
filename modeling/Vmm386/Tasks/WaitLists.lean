import Vmm386.Mm.PageTheorems
import Vmm386.Tasks.Semaphore

/-!
# Lists of sleeping tasks in memory

The elements of the task lists of `kernel/tasks/sched.c` are local variables of the tasks that
sleep. The lists, the stacks they run through, and what `kill_task` does to a stack.
-/

namespace Vmm386.Tasks

open Mm Runs

/-- Where a task is in `sleep_in_task_list`. -/
inductive SleepPc where
  | idle
  /-- Its element is on a list, and it is not suspended yet. -/
  | added
  /-- Before `schedule` returns. -/
  | asleep
deriving DecidableEq

/-- The tasks, the lists with the heads `H` (in semaphores, requests and elsewhere), and the
memory of their elements: `next`, `task` and `eltPid` are the fields of the `struct task_list`
at an address. `elt` is the address of a task's own element. -/
structure WaitSys (H : Type*) where
  pid : TaskId → ULong
  flags : TaskId → Flags
  stack0 : TaskId → ULong
  stack : TaskId → ULong
  pc : TaskId → SleepPc
  elt : TaskId → ULong
  nextPid : ULong
  mem : PageSys
  head : H → ULong
  next : ULong → ULong
  task : ULong → TaskId
  eltPid : ULong → ULong

namespace WaitSys

variable {H : Type*} (s : WaitSys H)

/-- The page is one of the stacks of the task. -/
def IsStack (t : TaskId) (p : ULong) : Prop := p = s.stack0 t ∨ p = s.stack t

/-- The address lies on one of the stacks of the task. -/
def OnStack (t : TaskId) (a : ULong) : Prop := s.IsStack t (a &&& PAGE_MASK)

instance (t : TaskId) (a : ULong) : Decidable (s.OnStack t a) :=
  inferInstanceAs (Decidable (_ ∨ _))

/-- The list with the head `h`, as linked cells. -/
def links (h : H) : Links ULong := ⟨s.head h, s.next⟩

/-- `wake_task`. -/
def wakeTask (t : TaskId) : WaitSys H :=
  { s with flags := Function.update s.flags t (s.flags t).wake }

/-- The body of the wake-up loops: the task is woken if it is still the one that went to
sleep. -/
def wakeElt (a : ULong) : WaitSys H :=
  if s.pid (s.task a) = s.eltPid a then s.wakeTask (s.task a) else s

/-- `wake_up_task_list`: the loop. -/
def wakeLoop : ℕ → ULong → WaitSys H → WaitSys H
  | 0, _, s => s
  | k + 1, a, s => if a ≠ NULL then wakeLoop k (s.next a) (s.wakeElt a) else s

variable [DecidableEq H]

def setLinks (h : H) (m : Links ULong) : WaitSys H :=
  { s with head := Function.update s.head h m.head, next := m.next }

/-- `add_task_list`. -/
def addTaskList (h : H) (a : ULong) : WaitSys H :=
  let m := s.links h
  let last := m.lastPlace NULL ADDRESSES none
  s.setLinks h ((m.set (some a) (m.get last)).set last a)

/-- `sleep_in_task_list` up to the call of `suspend_task`, with the variable `tl` at `a`. -/
def sleepInTaskList (t : TaskId) (h : H) (a : ULong) : WaitSys H :=
  let s := { s with
    task := Function.update s.task a t
    eltPid := Function.update s.eltPid a (s.pid t)
    elt := Function.update s.elt t a
    pc := Function.update s.pc t .added }
  s.addTaskList h a

/-- `wake_up_task_list`. -/
def wakeUpTaskList (h : H) : WaitSys H :=
  let s := wakeLoop ADDRESSES (s.head h) s
  { s with head := Function.update s.head h NULL }

/-- `wake_up_first_task`. -/
def wakeUpFirstTask (h : H) : WaitSys H :=
  let a := s.head h
  if a ≠ NULL then wakeElt { s with head := Function.update s.head h (s.next a) } a else s

end WaitSys

/-- The pages that a call takes back. -/
def freed : PageOp → List ULong
  | .freePage p => [p]
  | .freePages p n => pagesFrom p n.toNat
  | _ => []

/-- What happens next. -/
inductive WaitOp (H : Type*) where
  /-- `add_task` makes a task. -/
  | add (t : TaskId) (immortal : Bool)
  | sleepInTaskList (t : TaskId) (h : H) (a : ULong)
  | suspend (t : TaskId)
  /-- `schedule` returns in a task that has slept. -/
  | resume (t : TaskId)
  | wakeUpFirstTask (h : H)
  | wakeUpTaskList (h : H)
  | kill (t : TaskId)
  /-- A task writes to its stack. -/
  | write (t : TaskId) (a next : ULong) (task : TaskId) (pid : ULong)
  /-- The other users of pages. -/
  | page (op : PageOp)

section Step

variable {H : Type*} [DecidableEq H] (s : WaitSys H)

/-- `add_task`: the stacks are allocated, and the task is filled in. -/
def WaitSys.addTask (t : TaskId) (immortal : Bool) : Option (WaitSys H) :=
  let stack0 := s.mem.pages.allocPage.1
  (pageStep s.mem .allocPage).bind fun mem =>
    let stack := mem.pages.allocPage.1
    (pageStep mem .allocPage).bind fun mem =>
      if stack0 ≠ NULL ∧ stack ≠ NULL then
        some { s with
          pid := Function.update s.pid t s.nextPid
          flags := Function.update s.flags t { Flags.runnable with immortal }
          stack0 := Function.update s.stack0 t stack0
          stack := Function.update s.stack t stack
          pc := Function.update s.pc t .idle
          nextPid := s.nextPid + 1
          mem }
      else none

/-- `kill_task` of a task that is not the current one: `remove_task` and `reclaim_task`. -/
def WaitSys.killTask (t : TaskId) : Option (WaitSys H) :=
  if (s.flags t).immortal then some s
  else
    (pageStep s.mem (.freePage (s.stack0 t))).bind fun mem =>
      (pageStep mem (.freePage (s.stack t))).bind fun mem =>
        some { s with
          flags := Function.update s.flags t { s.flags t with zombie := true, running := false }
          pid := Function.update s.pid t 0
          mem }

/-- Tasks have pids other than 0; their variables are on their stacks, and a task that sleeps
does not write to its own element; pages that are a stack are not freed but by `kill_task`. -/
def waitStep : WaitOp H → Option (WaitSys H)
  | .add t immortal => if s.pid t = 0 ∧ s.nextPid ≠ 0 then s.addTask t immortal else none
  | .sleepInTaskList t h a =>
    if s.pid t ≠ 0 ∧ s.pc t = .idle ∧ s.OnStack t a then some (s.sleepInTaskList t h a) else none
  | .suspend t =>
    if s.pid t ≠ 0 ∧ s.pc t = .added then
      some { s with
        flags := Function.update s.flags t (s.flags t).suspend
        pc := Function.update s.pc t .asleep }
    else none
  | .resume t =>
    if s.pid t ≠ 0 ∧ s.pc t = .asleep ∧ (s.flags t).running then
      some { s with pc := Function.update s.pc t .idle }
    else none
  | .wakeUpFirstTask h => some (s.wakeUpFirstTask h)
  | .wakeUpTaskList h => some (s.wakeUpTaskList h)
  | .kill t => if s.pid t ≠ 0 then s.killTask t else none
  | .write t a next task pid =>
    if s.pid t ≠ 0 ∧ s.OnStack t a ∧ (s.pc t = .idle ∨ a ≠ s.elt t) then
      some { s with
        next := Function.update s.next a next
        task := Function.update s.task a task
        eltPid := Function.update s.eltPid a pid }
    else none
  | .page op =>
    if ∀ t, s.pid t ≠ 0 → s.stack0 t ∉ freed op ∧ s.stack t ∉ freed op then
      (pageStep s.mem op).bind fun mem => some { s with mem }
    else none

/-- Before the first task: there is no memory yet. -/
def WaitSys.init (H : Type*) : WaitSys H where
  pid _ := 0
  flags _ := freeTask.flags
  stack0 _ := NULL
  stack _ := NULL
  pc _ := .idle
  elt _ := NULL
  nextPid := 1
  mem := PageSys.init
  head _ := NULL
  next _ := NULL
  task _ := 0
  eltPid _ := 0

end Step

end Vmm386.Tasks
