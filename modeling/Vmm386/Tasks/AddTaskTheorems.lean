import Vmm386.Tasks.AddTask

/-!
# What the tasks and the calls in progress hold

A slot belongs to a task that has been appended, or to a call of `add_task` that has chosen it.
Its pages, its descriptor and its pid come one after the other. `TaskOk` is what is wanted of a
state; what a step must not do is `Safe`.
-/

namespace Vmm386.Tasks

namespace CallPc

/-- The slot that a call of `add_task` has chosen. -/
def slot : CallPc → Option TaskId
  | allocated i | gotDir i | gotStack0 i | noStack i | noTss i | failing i | gotStack i | gotTss i
  | gotPid i | appending i => some i
  | _ => none

/-- The slot for which it has put a descriptor into the GDT. -/
def tssSlot : CallPc → Option TaskId
  | gotTss i | gotPid i | appending i => some i
  | _ => none

/-- The slot to which it has given a pid. -/
def pidSlot : CallPc → Option TaskId
  | gotPid i | appending i => some i
  | _ => none

/-- The pages that it has taken. -/
def pages (tasks : TaskId → TaskSlot) : CallPc → List ℕ
  | gotDir i | noTss i => (tasks i).pageDir.toList
  | gotStack0 i | noStack i => (tasks i).pageDir.toList ++ (tasks i).stack0.toList
  | gotStack i | gotTss i | gotPid i | appending i => (tasks i).pages
  | _ => []

theorem slot_of_tssSlot {pc : CallPc} {i : TaskId} (h : pc.tssSlot = some i) :
    pc.slot = some i := by
  cases pc <;> first | exact h | cases h

theorem tssSlot_of_pidSlot {pc : CallPc} {i : TaskId} (h : pc.pidSlot = some i) :
    pc.tssSlot = some i := by
  cases pc <;> first | exact h | cases h

theorem of_slot_eq_none {pc : CallPc} (h : pc.slot = none) (tasks : TaskId → TaskSlot) :
    pc.pidSlot = none ∧ pc.tssSlot = none ∧ pc.pages tasks = [] := by
  cases pc <;> first | exact ⟨rfl, rfl, rfl⟩ | cases h

/-- Only the pages of its own slot count. -/
theorem pages_update {pc : CallPc} {i : TaskId} (h : pc.slot ≠ some i)
    (tasks : TaskId → TaskSlot) (x : TaskSlot) :
    pc.pages (Function.update tasks i x) = pc.pages tasks := by
  cases pc <;> try rfl
  all_goals
    rename_i j
    have hj : j ≠ i := fun hj => h (congrArg some hj)
    simp only [pages, Function.update_of_ne hj]

end CallPc

namespace TaskSys

/-- How many of the tasks and calls hold the page `p`. -/
def holders (alive : List TaskId) (tasks : TaskId → TaskSlot) (call : TaskId → CallPc) (p : ℕ) :
    ℕ :=
  (alive.map fun i => (tasks i).pages.count p).sum + ∑ t, ((call t).pages tasks).count p

/-- How many tasks have been appended and not counted. -/
def counting (call : TaskId → CallPc) : ℕ := ∑ t, if call t = .counting then 1 else 0

/-- The slot has been given away. -/
def InUse (s : TaskSys) (i : TaskId) : Prop := i ∈ s.alive ∨ ∃ t, (s.call t).slot = some i

end TaskSys

/-- Distinct tasks have distinct slots, selectors, pids and pages. `TaskCount` is their number,
but for the calls that are about to count one. Descriptors are in their range of the GDT. What
no task and no call in progress has is free: its slot, its descriptor, and its pages, which have
been given back as often as they have been taken. -/
structure TaskOk (s : TaskSys) : Prop where
  slots : s.alive.Nodup
  selectors : ∀ i ∈ s.alive, ∀ j ∈ s.alive, (s.tasks i).tssSel = (s.tasks j).tssSel → i = j
  pids : ∀ i ∈ s.alive, ∀ j ∈ s.alive, (s.tasks i).pid = (s.tasks j).pid → i = j
  pages : (s.alive.flatMap fun i => (s.tasks i).pages).Nodup
  count : s.taskCount + TaskSys.counting s.call = s.alive.length
  max : s.taskCount ≤ MAX_TASKS
  gdt : ∀ g i, s.gdt g = some i → FIRST_TSS ≤ g ∧ g < FIRST_TSS + MAX_TASKS ∧
    (s.tasks i).tssSel = g * 8 ∧ s.InUse i
  descriptor : ∀ i ∈ s.alive, s.gdt ((s.tasks i).tssSel / 8) = some i
  released : ∀ i, (s.tasks i).pid ≠ 0 → s.InUse i
  balance : ∀ p, s.pagesTaken p = s.pagesGiven p + TaskSys.holders s.alive s.tasks s.call p

/-- `alloc_task` does not choose a slot that another call has chosen; `next_pid` is a pid that
nobody has; `kill_task` reclaims tasks that are there, have not been killed, and are not in
`add_task` with a slot of their own. -/
def Safe (s : TaskSys) : TaskOp → Prop
  | .allocTask _ => ∀ i, s.freeSlot = some i → ∀ u, (s.call u).slot ≠ some i
  | .setPid _ => s.nextPid ≠ 0 ∧ ∀ j, (s.tasks j).pid ≠ s.nextPid
  | .killed t => ∀ i, s.call t = .killing i → i ∈ s.alive ∧ s.call i ≠ .zombie ∧
      (s.call i).slot = none ∧ s.call i ≠ .counting
  | _ => True

instance (s : TaskSys) (op : TaskOp) : Decidable (Safe s op) := by
  cases op <;> unfold Safe <;> infer_instance

/-- The steps of `add_task` after which it may still fail. -/
def TaskOp.MayFail : TaskOp → Prop
  | .addTask _ | .allocTask _ | .makePageDir _ _ | .allocStack0 _ _ | .allocStack _ _
  | .freeStack0 _ | .deletePageDir _ | .freeTask _ => True
  | _ => False

/-- Nothing has changed but the pages that are free, and slots in which there is no task. -/
structure SameTasks (s s' : TaskSys) : Prop where
  gdt : s'.gdt = s.gdt
  taskCount : s'.taskCount = s.taskCount
  nextPid : s'.nextPid = s.nextPid
  alive : s'.alive = s.alive
  tasks : ∀ i, (s.tasks i).pid ≠ 0 → s'.tasks i = s.tasks i

/-! ## The invariant, for each thing that a slot comes with -/

namespace TaskSys

/-- Nobody has a slot that somebody else has. -/
structure SlotsInv (alive : List TaskId) (call : TaskId → CallPc) : Prop where
  nodup : alive.Nodup
  notAlive : ∀ t i, (call t).slot = some i → i ∉ alive
  unique : ∀ t u i, (call t).slot = some i → (call u).slot = some i → t = u
  zombie : ∀ t, call t = .zombie → t ∈ alive

/-- The slots with a pid are those that should have one, and the pids are distinct. -/
structure PidsInv (alive : List TaskId) (tasks : TaskId → TaskSlot) (call : TaskId → CallPc) :
    Prop where
  owner : ∀ i, (tasks i).pid ≠ 0 ↔ i ∈ alive ∨ ∃ t, (call t).pidSlot = some i
  unique : ∀ i j, (tasks i).pid ≠ 0 → (tasks i).pid = (tasks j).pid → i = j

/-- The descriptors in the GDT are those of the slots that should have one. -/
structure GdtInv (gdt : ℕ → Option TaskId) (alive : List TaskId) (tasks : TaskId → TaskSlot)
    (call : TaskId → CallPc) : Prop where
  range : ∀ g i, gdt g = some i → FIRST_TSS ≤ g ∧ g < FIRST_TSS + MAX_TASKS
  owner : ∀ g i, gdt g = some i ↔
    (tasks i).tssSel = g * 8 ∧ (i ∈ alive ∨ ∃ t, (call t).tssSlot = some i)
  selector : ∀ i, (i ∈ alive ∨ ∃ t, (call t).tssSlot = some i) → ∃ g, (tasks i).tssSel = g * 8

/-- A page that is held has been taken once more than it has been given back. -/
structure PagesInv (s : TaskSys) : Prop where
  balance : ∀ p, s.pagesTaken p = s.pagesGiven p + holders s.alive s.tasks s.call p
  once : ∀ p, s.pagesTaken p ≤ s.pagesGiven p + 1

structure TaskInv (s : TaskSys) : Prop where
  slots : SlotsInv s.alive s.call
  pids : PidsInv s.alive s.tasks s.call
  gdt : GdtInv s.gdt s.alive s.tasks s.call
  pages : PagesInv s
  count : s.taskCount + counting s.call = s.alive.length

/-! ### When one call goes on -/

/-- Sums that differ in one term. -/
theorem sum_eq_of_ne {f g : TaskId → ℕ} (t : TaskId) (h : ∀ u, u ≠ t → f u = g u) :
    ∑ u, f u + g t = ∑ u, g u + f t := by
  have hrest : ∑ u ∈ Finset.univ.erase t, f u = ∑ u ∈ Finset.univ.erase t, g u :=
    Finset.sum_congr rfl fun u hu => h u (Finset.ne_of_mem_erase hu)
  have hf := Finset.sum_erase_add Finset.univ f (Finset.mem_univ t)
  have hg := Finset.sum_erase_add Finset.univ g (Finset.mem_univ t)
  omega

variable {alive : List TaskId} {tasks : TaskId → TaskSlot} {call : TaskId → CallPc}
  {gdt : ℕ → Option TaskId} {t i : TaskId} {pc : CallPc} {x : TaskSlot}

theorem counting_update (call : TaskId → CallPc) (t : TaskId) (pc : CallPc) :
    counting (Function.update call t pc) + (if call t = .counting then 1 else 0) =
      counting call + if pc = .counting then 1 else 0 := by
  have h := sum_eq_of_ne (f := fun u => if Function.update call t pc u = .counting then 1 else 0)
    (g := fun u => if call u = .counting then 1 else 0) t fun u hu => by
      rw [Function.update_of_ne hu]
  rw [Function.update_self] at h
  exact h

theorem holders_update (hi : i ∉ alive) (hfree : ∀ u, u ≠ t → (call u).slot ≠ some i) (p : ℕ) :
    holders alive (Function.update tasks i x) (Function.update call t pc) p +
        ((call t).pages tasks).count p =
      holders alive tasks call p + (pc.pages (Function.update tasks i x)).count p := by
  have halive : alive.map (fun j => (Function.update tasks i x j).pages.count p) =
      alive.map fun j => (tasks j).pages.count p := by
    apply List.map_congr_left
    intro j hj
    have hne : j ≠ i := fun heq => hi (heq ▸ hj)
    rw [Function.update_of_ne hne]
  have hcalls := sum_eq_of_ne
    (f := fun u => ((Function.update call t pc u).pages (Function.update tasks i x)).count p)
    (g := fun u => ((call u).pages tasks).count p) t fun u hu => by
      rw [Function.update_of_ne hu, CallPc.pages_update (hfree u hu)]
  rw [Function.update_self] at hcalls
  unfold holders
  rw [halive]
  omega

/-- Only the pages of the calls count. -/
theorem holders_congr {call' : TaskId → CallPc}
    (hcall : ∀ u, (call' u).pages tasks = (call u).pages tasks) (p : ℕ) :
    holders alive tasks call' p = holders alive tasks call p := by
  unfold holders
  rw [Finset.sum_congr rfl fun u _ => congrArg (List.count p) (hcall u)]

theorem SlotsInv.update (h : SlotsInv alive call)
    (hslot : ∀ i, pc.slot = some i → i ∉ alive ∧ ∀ u, u ≠ t → (call u).slot ≠ some i)
    (hzombie : pc = .zombie → t ∈ alive) : SlotsInv alive (Function.update call t pc) where
  nodup := h.nodup
  notAlive u j hu := by
    by_cases hut : u = t
    · rw [hut, Function.update_self] at hu
      exact (hslot j hu).1
    · rw [Function.update_of_ne hut] at hu
      exact h.notAlive u j hu
  unique u v j hu hv := by
    by_cases hut : u = t
    · rw [hut, Function.update_self] at hu
      by_cases hvt : v = t
      · rw [hut, hvt]
      · rw [Function.update_of_ne hvt] at hv
        exact absurd hv ((hslot j hu).2 v hvt)
    · rw [Function.update_of_ne hut] at hu
      by_cases hvt : v = t
      · rw [hvt, Function.update_self] at hv
        exact absurd hu ((hslot j hv).2 u hut)
      · rw [Function.update_of_ne hvt] at hv
        exact h.unique u v j hu hv
  zombie u hu := by
    by_cases hut : u = t
    · rw [hut, Function.update_self] at hu
      exact hut ▸ hzombie hu
    · rw [Function.update_of_ne hut] at hu
      exact h.zombie u hu

theorem PidsInv.congr (h : PidsInv alive tasks call) {tasks' : TaskId → TaskSlot}
    {call' : TaskId → CallPc} (htasks : ∀ j, (tasks' j).pid = (tasks j).pid)
    (hcall : ∀ u, (call' u).pidSlot = (call u).pidSlot) : PidsInv alive tasks' call' where
  owner j := by
    simp only [htasks, hcall]
    exact h.owner j
  unique j k hj hjk := by
    rw [htasks] at hj
    rw [htasks, htasks] at hjk
    exact h.unique j k hj hjk

theorem GdtInv.congr (h : GdtInv gdt alive tasks call) {tasks' : TaskId → TaskSlot}
    {call' : TaskId → CallPc}
    (htasks : ∀ j, (j ∈ alive ∨ ∃ u, (call u).tssSlot = some j) →
      (tasks' j).tssSel = (tasks j).tssSel)
    (hcall : ∀ u, (call' u).tssSlot = (call u).tssSlot) : GdtInv gdt alive tasks' call' where
  range := h.range
  owner g j := by
    simp only [hcall]
    rw [h.owner g j]
    refine and_congr_left fun hj => ?_
    rw [htasks j hj]
  selector j hj := by
    simp only [hcall] at hj
    rw [htasks j hj]
    exact h.selector j hj

theorem pidSlot_update (hpc : pc.pidSlot = (call t).pidSlot) (u : TaskId) :
    (Function.update call t pc u).pidSlot = (call u).pidSlot := by
  by_cases hu : u = t
  · rw [hu, Function.update_self, hpc]
  · rw [Function.update_of_ne hu]

theorem tssSlot_update (hpc : pc.tssSlot = (call t).tssSlot) (u : TaskId) :
    (Function.update call t pc u).tssSlot = (call u).tssSlot := by
  by_cases hu : u = t
  · rw [hu, Function.update_self, hpc]
  · rw [Function.update_of_ne hu]

theorem pid_update (hx : x.pid = (tasks i).pid) (j : TaskId) :
    (Function.update tasks i x j).pid = (tasks j).pid := by
  by_cases hj : j = i
  · rw [hj, Function.update_self, hx]
  · rw [Function.update_of_ne hj]

variable {s s' : TaskSys}

/-- A call of `add_task` goes on with its own slot `i`. -/
structure CallStep (s s' : TaskSys) (t i : TaskId) (pc : CallPc) (x : TaskSlot) : Prop where
  notAlive : i ∉ s.alive
  others : ∀ u, u ≠ t → (s.call u).slot ≠ some i
  slot : ∀ j, pc.slot = some j → j = i
  zombie : pc ≠ .zombie
  tasks : s'.tasks = Function.update s.tasks i x
  call : s'.call = Function.update s.call t pc
  alive : s'.alive = s.alive

namespace CallStep

/-- The slot is not one that `alloc_task` has just chosen. -/
theorem of_slot (h : TaskInv s) (hslot : (s.call t).slot = some i)
    (hpc : ∀ j, pc.slot = some j → j = i) (hz : pc ≠ .zombie)
    (htasks : s'.tasks = Function.update s.tasks i x)
    (hcall : s'.call = Function.update s.call t pc) (halive : s'.alive = s.alive) :
    CallStep s s' t i pc x :=
  ⟨h.slots.notAlive t i hslot, fun u hu heq => hu (h.slots.unique u t i heq hslot), hpc, hz,
    htasks, hcall, halive⟩

theorem slots (hc : CallStep s s' t i pc x) (h : TaskInv s) : SlotsInv s'.alive s'.call := by
  rw [hc.alive, hc.call]
  refine h.slots.update ?_ fun hz => absurd hz hc.zombie
  intro j hj
  cases hc.slot j hj
  exact ⟨hc.notAlive, hc.others⟩

theorem count (hc : CallStep s s' t i pc x) (h : TaskInv s) (hcount : s'.taskCount = s.taskCount)
    (hold : s.call t ≠ .counting) (hnew : pc ≠ .counting) :
    s'.taskCount + counting s'.call = s'.alive.length := by
  have hcounting := counting_update s.call t pc
  rw [if_neg hold, if_neg hnew] at hcounting
  have hcounted := h.count
  rw [hcount, hc.alive, hc.call]
  omega

/-- What is taken and given back is what the call holds more, or less. -/
theorem pages (hc : CallStep s s' t i pc x) (h : TaskInv s)
    (hpages : ∀ p, s'.pagesTaken p + s.pagesGiven p + ((s.call t).pages s.tasks).count p =
      s.pagesTaken p + s'.pagesGiven p + (pc.pages s'.tasks).count p)
    (honce : ∀ p, s'.pagesTaken p ≤ s'.pagesGiven p + 1) : PagesInv s' where
  balance p := by
    have hbalance := h.pages.balance p
    have hpages := hpages p
    rw [hc.alive, hc.tasks, hc.call]
    rw [hc.tasks] at hpages
    have hholders : holders s.alive (Function.update s.tasks i x) (Function.update s.call t pc) p +
        _ = _ := holders_update hc.notAlive hc.others p
    omega
  once := honce

end CallStep

end TaskSys

end Vmm386.Tasks
