import Vmm386.Tasks.Sched

/-!
# Creating and killing tasks (`kernel/tasks/task.c`)

The tasks that are there call `add_task` and `kill_task`. A step goes from one access of the
data that they share to the next; only what stands between `cli` and `load_flags` is one step.
Pages are numbers. A page is free when it has been given back as often as it has been taken.
-/

namespace Vmm386.Tasks

abbrev FIRST_TSS : ℕ := 5

/-- The fields of `struct task` that its creation and its end use. -/
structure TaskSlot where
  pid : ULong
  ppid : ULong
  tssSel : ℕ
  pageDir : Option ℕ
  stack0 : Option ℕ
  stack : Option ℕ
  immortal : Bool

/-- `memset`. -/
def TaskSlot.zero : TaskSlot := ⟨0, 0, 0, none, none, none, false⟩

/-- The pages of a task. -/
def TaskSlot.pages (x : TaskSlot) : List ℕ := x.pageDir.toList ++ x.stack0.toList ++ x.stack.toList

/-- Where a task is in a call of `add_task` or `kill_task`. -/
inductive CallPc where
  | idle
  /-- `add_task` has seen `TaskCount != MAX_TASKS`. -/
  | checked
  /-- `add_task` has its slot. -/
  | allocated (i : TaskId)
  | gotDir (i : TaskId)
  | gotStack0 (i : TaskId)
  /-- `create_tss` has got no `stack`. -/
  | noStack (i : TaskId)
  /-- `create_tss` has failed. -/
  | noTss (i : TaskId)
  /-- `add_task` has failed, but for `free_task`. -/
  | failing (i : TaskId)
  | gotStack (i : TaskId)
  /-- The descriptor is in the GDT. -/
  | gotTss (i : TaskId)
  /-- The task has got `next_pid`, which is still to be incremented. -/
  | gotPid (i : TaskId)
  | appending (i : TaskId)
  /-- `append_task` has been called, `TaskCount` is still to be incremented. -/
  | counting
  /-- `kill_task` is in `fs->close`, or just after it. -/
  | killing (i : TaskId)
  /-- The task has killed itself and waits for `schedule` to reclaim it. -/
  | zombie
deriving DecidableEq

/-- `TaskArray`, the TSS descriptors of `GDT` with the slots they are for, `TaskCount`,
`next_pid`, how often each page has been taken and given back, the tasks that have been
appended and not been reclaimed, and their calls. -/
structure TaskSys where
  tasks : TaskId → TaskSlot
  gdt : ℕ → Option TaskId
  taskCount : ℤ
  nextPid : ULong
  pagesTaken : ℕ → ℕ
  pagesGiven : ℕ → ℕ
  alive : List TaskId
  call : TaskId → CallPc

namespace TaskSys

/-- After `add_initial_task`. Page 0 is `logical_kernel_pd`. -/
def init : TaskSys where
  tasks := Function.update (fun _ => TaskSlot.zero) 0
    { pid := 1, ppid := 0, tssSel := FIRST_TSS * 8, pageDir := some 0, stack0 := some 1
      stack := none, immortal := true }
  gdt := Function.update (fun _ => none) FIRST_TSS (some 0)
  taskCount := 1
  nextPid := 2
  pagesTaken p := if p < 2 then 1 else 0
  pagesGiven _ := 0
  alive := [0]
  call _ := .idle

variable (s : TaskSys) (t : TaskId)

def setCall (pc : CallPc) : TaskSys := { s with call := Function.update s.call t pc }

def setTask (i : TaskId) (x : TaskSlot) : TaskSys := { s with tasks := Function.update s.tasks i x }

/-- A page that the allocator has returned. -/
def takePage (p : ℕ) : TaskSys :=
  { s with pagesTaken := Function.update s.pagesTaken p (s.pagesTaken p + 1) }

/-- `free_page`. -/
def givePage (p : ℕ) : TaskSys :=
  { s with pagesGiven := Function.update s.pagesGiven p (s.pagesGiven p + 1) }

/-- Those of the pages that are not `NULL` are freed. -/
def givePages (ps : List ℕ) : TaskSys := ps.foldl givePage s

/-- What the allocator may return: `NULL`, or a page that is free. -/
def Available (page : Option ℕ) : Prop := ∀ p ∈ page, s.pagesTaken p = s.pagesGiven p

instance (page : Option ℕ) : Decidable (s.Available page) :=
  inferInstanceAs (Decidable (∀ p ∈ page, _))

/-! ## `add_task` -/

/-- The loop of `alloc_task`. -/
def freeSlot : Option TaskId :=
  (List.finRange MAX_TASKS).find? fun i => (s.tasks i).pid = 0

/-- The loop of `add_tss_gdt`. -/
def freeTss : ℕ :=
  ((List.range' FIRST_TSS MAX_TASKS).find? fun g => (s.gdt g).isNone).getD (FIRST_TSS + MAX_TASKS)

/-- The test at the start of `add_task`. -/
def addTask : TaskSys := if s.taskCount ≠ MAX_TASKS then s.setCall t .checked else s

/-- `alloc_task`. -/
def allocTask : TaskSys :=
  match s.freeSlot with
  | none => s.setCall t .idle
  | some i => (s.setTask i .zero).setCall t (.allocated i)

/-- `make_task_page_dir`. -/
def makePageDir (i : TaskId) : Option ℕ → TaskSys
  | none => (s.setTask i { s.tasks i with pageDir := none }).setCall t (.failing i)
  | some p => ((s.takePage p).setTask i { s.tasks i with pageDir := some p }).setCall t (.gotDir i)

/-- `create_tss`, the first page. -/
def allocStack0 (i : TaskId) : Option ℕ → TaskSys
  | none => (s.setTask i { s.tasks i with stack0 := none }).setCall t (.noTss i)
  | some p => ((s.takePage p).setTask i { s.tasks i with stack0 := some p }).setCall t (.gotStack0 i)

/-- `create_tss`, the second page. -/
def allocStack (i : TaskId) : Option ℕ → TaskSys
  | none => (s.setTask i { s.tasks i with stack := none }).setCall t (.noStack i)
  | some p => ((s.takePage p).setTask i { s.tasks i with stack := some p }).setCall t (.gotStack i)

/-- `create_tss` frees the first page again. -/
def freeStack0 (i : TaskId) : TaskSys :=
  (s.givePages (s.tasks i).stack0.toList).setCall t (.noTss i)

/-- `delete_page_dir`. -/
def deletePageDir (i : TaskId) : TaskSys :=
  (s.givePages (s.tasks i).pageDir.toList).setCall t (.failing i)

/-- `free_task`. -/
def freeTask (i : TaskId) : TaskSys :=
  (s.setTask i { s.tasks i with pid := 0 }).setCall t .idle

/-- `add_tss_gdt`. -/
def addTssGdt (i : TaskId) : TaskSys :=
  ({ s with gdt := Function.update s.gdt s.freeTss (some i) }.setTask i
    { s.tasks i with tssSel := s.freeTss * 8 }).setCall t (.gotTss i)

/-- `new_task->pid = next_pid`. -/
def setPid (i : TaskId) : TaskSys :=
  (s.setTask i { s.tasks i with pid := s.nextPid }).setCall t (.gotPid i)

/-- `next_pid++`. -/
def incPid (i : TaskId) : TaskSys :=
  { s with nextPid := s.nextPid + 1 }.setCall t (.appending i)

/-- The rest of the fields, and `append_task`. -/
def appendTask (i : TaskId) (immortal : Bool) : TaskSys :=
  { s.setTask i { s.tasks i with ppid := (s.tasks t).pid, immortal } with
    alive := i :: s.alive }.setCall t .counting

/-- `TaskCount++`. -/
def countTask : TaskSys := { s with taskCount := s.taskCount + 1 }.setCall t .idle

/-! ## `kill_task` -/

/-- The test at the start of `kill_task`. -/
def killTask (i : TaskId) : TaskSys :=
  if (s.tasks i).immortal then s else s.setCall t (.killing i)

/-- `kill_current_task`, up to `fs->close`. -/
def killCurrentTask : TaskSys :=
  (s.setTask t { s.tasks t with immortal := false }).setCall t (.killing t)

/-- `reclaim_task`. -/
def reclaimTask (i : TaskId) : TaskSys :=
  let x := s.tasks i
  let s := { s with gdt := Function.update s.gdt (x.tssSel / 8) none }
  let s := s.givePages (x.stack0.toList ++ x.stack.toList ++ x.pageDir.toList)
  ({ s with taskCount := s.taskCount - 1, alive := s.alive.erase i }.setTask i
    { x with pid := 0 }).setCall i .idle

/-- The end of `kill_task`, with the interrupts off. -/
def killed (i : TaskId) : TaskSys :=
  if i = t then s.setCall t .zombie else (s.setCall t .idle).reclaimTask i

end TaskSys

/-- What happens next, with the answer of the allocator. -/
inductive TaskOp where
  | addTask (t : TaskId)
  | allocTask (t : TaskId)
  | makePageDir (t : TaskId) (page : Option ℕ)
  | allocStack0 (t : TaskId) (page : Option ℕ)
  | allocStack (t : TaskId) (page : Option ℕ)
  | freeStack0 (t : TaskId)
  | deletePageDir (t : TaskId)
  | freeTask (t : TaskId)
  | addTssGdt (t : TaskId)
  | setPid (t : TaskId)
  | incPid (t : TaskId)
  | appendTask (t : TaskId) (immortal : Bool)
  | countTask (t : TaskId)
  | killTask (t i : TaskId)
  | killCurrentTask (t : TaskId)
  | killed (t : TaskId)
  | reclaimTask (i : TaskId)

/-- A task starts a call. -/
def TaskSys.starts (s : TaskSys) (t : TaskId) (s' : TaskSys) : Option TaskSys :=
  if t ∈ s.alive ∧ s.call t = .idle then some s' else none

def taskStep (s : TaskSys) : TaskOp → Option TaskSys
  | .addTask t => s.starts t (s.addTask t)
  | .allocTask t =>
    match s.call t with
    | .checked => some (s.allocTask t)
    | _ => none
  | .makePageDir t page =>
    match s.call t with
    | .allocated i => if s.Available page then some (s.makePageDir t i page) else none
    | _ => none
  | .allocStack0 t page =>
    match s.call t with
    | .gotDir i => if s.Available page then some (s.allocStack0 t i page) else none
    | _ => none
  | .allocStack t page =>
    match s.call t with
    | .gotStack0 i => if s.Available page then some (s.allocStack t i page) else none
    | _ => none
  | .freeStack0 t =>
    match s.call t with
    | .noStack i => some (s.freeStack0 t i)
    | _ => none
  | .deletePageDir t =>
    match s.call t with
    | .noTss i => some (s.deletePageDir t i)
    | _ => none
  | .freeTask t =>
    match s.call t with
    | .failing i => some (s.freeTask t i)
    | _ => none
  | .addTssGdt t =>
    match s.call t with
    | .gotStack i => some (s.addTssGdt t i)
    | _ => none
  | .setPid t =>
    match s.call t with
    | .gotTss i => some (s.setPid t i)
    | _ => none
  | .incPid t =>
    match s.call t with
    | .gotPid i => some (s.incPid t i)
    | _ => none
  | .appendTask t immortal =>
    match s.call t with
    | .appending i => some (s.appendTask t i immortal)
    | _ => none
  | .countTask t =>
    match s.call t with
    | .counting => some (s.countTask t)
    | _ => none
  | .killTask t i => s.starts t (s.killTask t i)
  | .killCurrentTask t => s.starts t (s.killCurrentTask t)
  | .killed t =>
    match s.call t with
    | .killing i => some (s.killed t i)
    | _ => none
  | .reclaimTask i =>
    match s.call i with
    | .zombie => some (s.reclaimTask i)
    | _ => none

end Vmm386.Tasks
