import Vmm386.Types
import Vmm386.Lib.NodeList
import Vmm386.Lib.Runs

/-!
# The scheduler

`kernel/tasks/sched.c`, with what `kernel/tasks/task.c` and the timer interrupt do to its
data. The lists of tasks are doubly linked through the task structures.
-/

namespace Vmm386.Tasks

/-- `task.flags`. -/
structure Flags where
  /-- `TASK_RUNNING`: running, not suspended. -/
  running : Bool
  /-- `TASK_FROZEN`: stopped for good. -/
  frozen : Bool
  /-- `TASK_ZOMBIE`: dead, but resources not reclaimed. -/
  zombie : Bool
  /-- `TASK_IMMORTAL`: can't be killed. -/
  immortal : Bool
deriving DecidableEq

/-- The fields of `struct task` that the scheduler uses. -/
structure Task where
  pid : ULong
  flags : Flags
  pri : ℤ
  cpuTime : ULong
  lastSched : ULong
  quantum : ULong
  timeLeft : ℤ
  schedCount : ULong
  forbidCount : ℤ

abbrev MAX_TASKS : ℕ := 16

/-- A task is known by its place in `TaskArray`. -/
abbrev TaskId := Fin MAX_TASKS

/-- `running_tasks`, `suspended_tasks` and `zombie_tasks`. -/
inductive TaskQueue where
  | running
  | suspended
  | zombie
deriving DecidableEq

abbrev TaskNode := ListNode TaskQueue TaskId

structure Sched where
  task : TaskId → Task
  nodes : Nodes TaskNode
  currentTask : TaskId
  needResched : Bool
  zombies : ℕ
  intrNestCount : ℕ
  timerTicks : ULong

namespace Sched

variable (s : Sched)

/-- A field of the task `t` is changed. -/
def setTask (t : TaskId) (task : Task) : Sched :=
  { s with task := Function.update s.task t task }

def setFlags (t : TaskId) (flags : Flags) : Sched := s.setTask t { s.task t with flags }

/-- `remove_node(&task->node)`. -/
def removeNode (t : TaskId) : Sched := { s with nodes := s.nodes.removeNode (.elem t) }

/-- `append_node(list, &task->node)`. -/
def appendNode (list : TaskQueue) (t : TaskId) : Sched :=
  { s with nodes := s.nodes.appendNode (.tail list) (.elem t) }

/-- The loops of `enqueue_task`: from the node `x` on, go past the tasks that satisfy `p`. A
list has fewer nodes than the loop may make steps. -/
def skip (p : Task → Bool) : ℕ → TaskNode → TaskNode
  | 0, x => x
  | k + 1, x =>
    match s.nodes.succ x, x with
    | some y, .elem t => if p (s.task t) then skip p k y else x
    | _, _ => x

/-- `enqueue_task`. -/
def enqueueTask (list : TaskQueue) (t : TaskId) : Sched :=
  let task := s.task t
  match s.nodes.succ (.head list) with
  | none => s
  | some x =>
    let x :=
      if task.timeLeft ≤ 0 then s.skip (fun u => task.pri ≤ u.pri) (MAX_TASKS + 1) x
      else
        s.skip (fun u => u.pri = task.pri ∧ 0 < u.timeLeft) (MAX_TASKS + 1)
          (s.skip (fun u => task.pri < u.pri) (MAX_TASKS + 1) x)
    let x := (s.nodes.pred x).getD x
    { s with nodes := s.nodes.insertNode (.elem t) x }

/-- `reclaim_task`: the place in `TaskArray` is free again. -/
def reclaimTask (t : TaskId) : Sched := s.setTask t { s.task t with pid := 0 }

/-- `schedule`: the loop that reclaims the dead tasks. -/
def reclaimZombies : ℕ → Sched → Sched
  | 0, s => s
  | k + 1, s =>
    match s.nodes.succ (.head .zombie) with
    | some (.elem t) => reclaimZombies k { (s.removeNode t).reclaimTask t with zombies := k }
    | _ => s

/-- `schedule`: the next task gets a new quantum. -/
def refill (next : TaskId) : Sched :=
  if (s.task next).timeLeft ≤ 0 then
    s.setTask next { s.task next with timeLeft := (s.task next).quantum.toInt }
  else s

/-- `schedule`: the time the task `cur` has had the processor. -/
def charge (cur : TaskId) : Sched :=
  s.setTask cur
    { s.task cur with cpuTime := (s.task cur).cpuTime + (s.timerTicks - (s.task cur).lastSched) }

/-- `schedule`: a dead task waits to be reclaimed. -/
def appendZombie (cur : TaskId) : Sched :=
  if (s.task cur).flags.zombie then { s.appendNode .zombie cur with zombies := s.zombies + 1 }
  else s

/-- `schedule`: `next` becomes the current task. -/
def switchToTask (next : TaskId) : Sched :=
  let s := s.setTask next
    { s.task next with
      schedCount := (s.task next).schedCount + 1
      lastSched := s.timerTicks }
  { s with currentTask := next }

/-- `schedule`: to the first task of the run queue. -/
def switch : Sched :=
  match s.nodes.succ (.head .running) with
  | some (.elem next) =>
    let s := s.refill next
    if s.currentTask ≠ next then
      ((s.charge s.currentTask).appendZombie s.currentTask).switchToTask next
    else s
  | _ => s

/-- `schedule` does not take the processor from the current task. -/
def Forbidden : Prop :=
  0 < (s.task s.currentTask).forbidCount ∧ (s.task s.currentTask).flags.running

instance : Decidable s.Forbidden := inferInstanceAs (Decidable (_ ∧ _))

/-- `schedule`. -/
def schedule : Sched :=
  let s := reclaimZombies s.zombies s
  if s.Forbidden then s
  else
    let s := { s with needResched := false }
    let s :=
      if (s.task s.currentTask).flags.running then
        (s.removeNode s.currentTask).enqueueTask .running s.currentTask
      else s
    s.switch

/-- A task of priority `pri` has become runnable: it gets the processor as soon as is safe. -/
def preempt (pri : ℤ) : Sched :=
  if (s.task s.currentTask).pri < pri then
    if s.intrNestCount = 0 then s.schedule else { s with needResched := true }
  else s

/-- `append_task`. -/
def appendTask (t : TaskId) : Sched :=
  if (s.task t).flags.running then (s.enqueueTask .running t).preempt (s.task t).pri
  else s.appendNode .suspended t

/-- `remove_task`. -/
def removeTask (t : TaskId) : Sched :=
  (s.setFlags t { (s.task t).flags with zombie := true, running := false }).removeNode t

/-- `suspend_task`: what it does with interrupts masked. -/
def suspendSection (t : TaskId) : Sched :=
  let s := (s.removeNode t).appendNode .suspended t
  { s.setFlags t { (s.task t).flags with running := false } with needResched := true }

/-- `suspend_task`. -/
def suspendTask (t : TaskId) : Sched :=
  if (s.task t).flags.running then s.suspendSection t else s

/-- `wake_task`: what it does with interrupts masked. -/
def wakeSection (t : TaskId) : Sched :=
  let s := s.removeNode t
  let s := s.setFlags t { (s.task t).flags with running := true }
  (s.enqueueTask .running t).preempt (s.task t).pri

/-- `wake_task`. -/
def wakeTask (t : TaskId) : Sched :=
  let flags := (s.task t).flags
  if ¬flags.running ∧ ¬flags.frozen ∧ ¬flags.zombie then s.wakeSection t else s

/-- `kill_task`, after the current directory is closed. -/
def killTask (t : TaskId) : Sched :=
  if (s.task t).flags.immortal then s
  else
    let s := s.removeTask t
    if s.currentTask ≠ t then s.reclaimTask t else s.schedule

/-- `cmos_timer`: the quantum of the current task runs down. -/
def tick : Sched :=
  let cur := s.currentTask
  let timeLeft := (s.task cur).timeLeft - 1
  let s := { s.setTask cur { s.task cur with timeLeft } with timerTicks := s.timerTicks + 1 }
  if timeLeft ≤ 0 then { s with needResched := true } else s

end Sched

/-! ## Sequences of calls -/

/-- The task is in use and not dead. -/
def Sched.Live (s : Sched) (t : TaskId) : Prop := (s.task t).pid ≠ 0 ∧ ¬(s.task t).flags.zombie

instance (s : Sched) (t : TaskId) : Decidable (s.Live t) := inferInstanceAs (Decidable (_ ∧ _))

/-- The calls, and what else happens to the data of the scheduler. `suspend_task` and
`wake_task` test the flags before they mask interrupts, so that the rest of either may find
them changed in between (`suspendSection`, `wakeSection`). -/
inductive SchedOp where
  /-- `add_task` has filled in a place of `TaskArray`. -/
  | append (t : TaskId) (task : Task)
  | suspend (t : TaskId)
  | suspendSection (t : TaskId)
  | wake (t : TaskId)
  | wakeSection (t : TaskId)
  | remove (t : TaskId)
  | kill (t : TaskId)
  | schedule
  /-- A timer interrupt. -/
  | tick
  /-- `forbid` and `permit` of the current task. -/
  | setForbid (count : ℤ)
  /-- Interrupts begin and end. -/
  | setNest (count : ℕ)
  /-- The shell commands `freeze` and `thaw`. -/
  | setFrozen (t : TaskId) (frozen : Bool)

/-- A call. New tasks go to free places; a task that is suspended or woken is in use, and one
that is removed or killed is alive. -/
def schedStep (s : Sched) : SchedOp → Option Sched
  | .append t task =>
    if (s.task t).pid = 0 ∧ task.pid ≠ 0 ∧ ¬task.flags.zombie then
      some ((s.setTask t task).appendTask t)
    else none
  | .suspend t => if (s.task t).pid ≠ 0 then some (s.suspendTask t) else none
  | .suspendSection t => if s.Live t then some (s.suspendSection t) else none
  | .wake t => if (s.task t).pid ≠ 0 then some (s.wakeTask t) else none
  | .wakeSection t => if s.Live t then some (s.wakeSection t) else none
  | .remove t => if s.Live t then some (s.removeTask t) else none
  | .kill t => if s.Live t then some (s.killTask t) else none
  | .schedule => some s.schedule
  | .tick => some s.tick
  | .setForbid count =>
    some (s.setTask s.currentTask { s.task s.currentTask with forbidCount := count })
  | .setNest count => some { s with intrNestCount := count }
  | .setFrozen t frozen => some (s.setFlags t { (s.task t).flags with frozen })

/-- The idle task, which `add_initial_task` makes. -/
def idle (pid timerTicks : ULong) : Task where
  pid
  flags := { running := true, frozen := false, zombie := false, immortal := true }
  pri := -80
  cpuTime := 0
  lastSched := timerTicks
  quantum := 51
  timeLeft := 0
  schedCount := 0
  forbidCount := 0

/-- A free place in `TaskArray`. -/
def freeTask : Task where
  pid := 0
  flags := { running := false, frozen := false, zombie := false, immortal := false }
  pri := 0
  cpuTime := 0
  lastSched := 0
  quantum := 0
  timeLeft := 0
  schedCount := 0
  forbidCount := 0

/-- The scheduler after `init_sched` and `add_initial_task`. -/
def Sched.init : Sched :=
  Sched.appendTask
    { task := Function.update (fun _ => freeTask) 0 (idle 1 0)
      nodes := Nodes.initLists
      currentTask := 0
      needResched := false
      zombies := 0
      intrNestCount := 0
      timerTicks := 0 }
    0

end Vmm386.Tasks
