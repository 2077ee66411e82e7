import Vmm386.Tasks.TaskFlags

/-!
# Semaphores

`signal` and `wait` of `vmm/tasks.h`, and the task lists of `kernel/tasks/sched.c` under them.
Only the sections with interrupts masked are steps; the rest of the code may be interrupted
between any two of them.
-/

namespace Vmm386.Tasks

open Runs

/-- `struct semaphore`. The list holds the tasks of the elements, in their order. -/
structure Semaphore (T : Type*) where
  blocked : Bool
  waiting : List T

namespace Semaphore

variable {T : Type*}

/-- `add_task_list`. -/
def addTaskList (sem : Semaphore T) (t : T) : Semaphore T :=
  { sem with waiting := sem.waiting ++ [t] }

/-- `set_sem_blocked`, or `set_sem_clear`. -/
def init (blocked : Bool) : Semaphore T := { blocked, waiting := [] }

end Semaphore

/-- Where a task is in `wait` or `signal`. -/
inductive SemPc where
  /-- In neither. -/
  | idle
  /-- `wait` has exchanged TRUE for TRUE: before `add_task_list`. -/
  | addTaskList
  /-- Before `suspend_task` tests the flags. -/
  | suspendTask
  /-- Before `suspend_task` masks interrupts. -/
  | suspendSection
  /-- Before `schedule` returns. -/
  | schedule
  /-- `signal` has found nobody waiting: before the semaphore is set to FALSE. -/
  | clear
  /-- `signal` has found somebody waiting: before `wake_up_first_task`. -/
  | wakeUp
deriving DecidableEq

/-- The tasks that use a semaphore. `passed` and `signals` count the calls of `wait` that have
got the semaphore and of `signal`; `granted` are the tasks that a signal has taken off the list
and that have not returned from `wait` since. -/
structure SemSys (T : Type*) where
  sem : Semaphore T
  flags : T → Flags
  pc : T → SemPc
  passed : ℕ
  signals : ℕ
  granted : List T

namespace SemSys

variable {T : Type*} [DecidableEq T] (s : SemSys T) (t : T)

def setPc (pc : SemPc) : SemSys T := { s with pc := Function.update s.pc t pc }

/-- `wake_up_first_task`; the tasks that wait have kept their pids. -/
def wakeUpFirstTask : SemSys T :=
  match s.sem.waiting with
  | [] => s
  | u :: rest =>
    { s with
      sem := { s.sem with waiting := rest }
      flags := Function.update s.flags u (s.flags u).wake
      granted := u :: s.granted }

/-- `signal`, the branch for nobody waiting. -/
def clear : SemSys T :=
  { s with sem := { s.sem with blocked := false }, signals := s.signals + 1 }

/-- `signal`, the branch for somebody waiting. -/
def wakeUp : SemSys T := { s.wakeUpFirstTask with signals := s.signals + 1 }

/-- `signal` from an interrupt handler. -/
def irqSignal : SemSys T := if s.sem.waiting = [] then s.clear else s.wakeUp

/-- `wait`, the exchange. -/
def xchg : SemSys T :=
  if s.sem.blocked then s.setPc t .addTaskList
  else { s with sem := { s.sem with blocked := true }, passed := s.passed + 1 }

/-- `signal`, the test. -/
def signalTest : SemSys T :=
  if s.sem.waiting = [] then s.setPc t .clear else s.setPc t .wakeUp

/-- The rest of `wait` and of `signal`. -/
def go : Option (SemSys T) :=
  match s.pc t with
  | .idle => none
  | .addTaskList => some ({ s with sem := s.sem.addTaskList t }.setPc t .suspendTask)
  | .suspendTask => some (s.setPc t .suspendSection)
  | .suspendSection =>
    some ({ s with flags := Function.update s.flags t (s.flags t).suspend }.setPc t .schedule)
  | .schedule =>
    some ({ s with passed := s.passed + 1, granted := s.granted.erase t }.setPc t .idle)
  | .clear => some (s.clear.setPc t .idle)
  | .wakeUp => some (s.wakeUp.setPc t .idle)

end SemSys

/-- What happens next: a task calls `wait` or `signal` or goes on with it, or an interrupt
handler calls `signal`. -/
inductive SemOp (T : Type*) where
  | wait (t : T)
  | signal (t : T)
  | go (t : T)
  | irqSignal

section Step

variable {T : Type*} [DecidableEq T]

/-- A suspended task does nothing. -/
def semStep (s : SemSys T) : SemOp T → Option (SemSys T)
  | .wait t => if (s.flags t).running ∧ s.pc t = .idle then some (s.xchg t) else none
  | .signal t => if (s.flags t).running ∧ s.pc t = .idle then some (s.signalTest t) else none
  | .go t => if (s.flags t).running then s.go t else none
  | .irqSignal => some s.irqSignal

/-- The semaphore is new, and all tasks run. -/
def SemSys.init (T : Type*) (blocked : Bool) : SemSys T where
  sem := .init blocked
  flags _ := Flags.runnable
  pc _ := .idle
  passed := 0
  signals := 0
  granted := []

end Step

end Vmm386.Tasks
