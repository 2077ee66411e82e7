import Vmm386.Modules.Loader

/-!
# `load_sem` and `owner_task`

The task that has taken `load_sem` is `owner_task`, and it alone is in `load_module`, as often
as the functions `init` have led it back there. The outermost of these calls releases the
semaphore.
-/

namespace Vmm386.Modules

variable {N T : Type*} {s s' : Loader N T} {t u : T}

/-! ## The invariant -/

def LoadPc.isWoken : LoadPc N → Prop
  | .woken _ _ => True
  | _ => False

/-- The flags `release` of a task's calls of `load_module`, the innermost one first. -/
def LoadPc.loads : LoadPc N → List Bool
  | .loading _ _ release => [release]
  | .closing _ _ release => [release]
  | _ => []

def Frame.loads : Frame N → List Bool
  | .initing _ _ _ release => [release]
  | .expunging _ => []

def TaskState.loads (st : TaskState N) : List Bool := st.pc.loads ++ st.stack.flatMap Frame.loads

/-- Just the outermost call releases the semaphore. -/
def Proper : List Bool → Prop
  | [] => True
  | true :: rest => rest = []
  | false :: rest => rest ≠ [] ∧ Proper rest

/-- Who has `load_sem`: the owner, or the task that has just been woken up. -/
structure LockInv (s : Loader N T) : Prop where
  owner : ∀ t, s.ownerTask = some t ↔ (s.task t).loads ≠ []
  proper : ∀ t, Proper (s.task t).loads
  woken : ∀ t, (s.task t).pc.isWoken → s.ownerTask = none ∧ ∀ u, (s.task u).pc.isWoken → u = t
  free : s.loadSem.blocked = false → s.ownerTask = none ∧ ∀ t, ¬(s.task t).pc.isWoken

/-- The task has the semaphore, and none of its calls of `load_module` are left but the one it
is about to leave or to enter. -/
structure Alone (s : Loader N T) (t : T) : Prop where
  blocked : s.loadSem.blocked = true
  others : ∀ u, u ≠ t → ¬(s.task u).pc.isWoken ∧ (s.task u).loads = []
  stack : (s.task t).stack.flatMap Frame.loads = []

namespace LockInv

theorem congr (h : LockInv s) (howner : s'.ownerTask = s.ownerTask)
    (hsem : s'.loadSem.blocked = s.loadSem.blocked) (htask : s'.task = s.task) : LockInv s' := by
  constructor
  · rw [howner, htask]
    exact h.owner
  · rw [htask]
    exact h.proper
  · rw [howner, htask]
    exact h.woken
  · rw [howner, hsem, htask]
    exact h.free

/-- Only one task is in `load_module`. -/
theorem owner_unique (h : LockInv s) (ht : (s.task t).loads ≠ []) (hu : (s.task u).loads ≠ []) :
    u = t := by
  have ht' := (h.owner t).mpr ht
  have hu' := (h.owner u).mpr hu
  exact Option.some.inj (hu'.symm.trans ht')

/-- The outermost call of `load_module` is about to return. -/
theorem alone_of_release (h : LockInv s) {rest : List Bool}
    (hloads : (s.task t).loads = true :: rest)
    (hstack : (s.task t).stack.flatMap Frame.loads = rest) : Alone s t := by
  have hproper := h.proper t
  rw [hloads] at hproper
  have hne : (s.task t).loads ≠ [] := by
    rw [hloads]
    exact List.cons_ne_nil _ _
  have howner := (h.owner t).mpr hne
  constructor
  · by_contra hfree
    rw [Bool.not_eq_true] at hfree
    exact absurd (howner.symm.trans (h.free hfree).1) (Option.some_ne_none t)
  · intro u hu
    constructor
    · intro hw
      exact absurd (howner.symm.trans (h.woken u hw).1) (Option.some_ne_none t)
    · by_contra hlu
      exact hu (h.owner_unique hne hlu)
  · exact hstack.trans hproper

/-- The task that has been woken up is alone. -/
theorem alone_of_woken (h : LockInv s) (hw : (s.task t).pc.isWoken) : Alone s t := by
  obtain ⟨hnone, hall⟩ := h.woken t hw
  have hloads : ∀ u, (s.task u).loads = [] := by
    intro u
    by_contra hne
    exact absurd (hnone.symm.trans ((h.owner u).mpr hne)) (Option.some_ne_none u).symm
  constructor
  · by_contra hfree
    rw [Bool.not_eq_true] at hfree
    exact (h.free hfree).2 t hw
  · exact fun u hu => ⟨fun hwu => hu (hall u hwu), hloads u⟩
  · exact (List.append_eq_nil_iff.mp (hloads t)).2

/-- So is the one that takes the free semaphore. -/
theorem alone_of_free (h : LockInv s) (hfree : s.loadSem.blocked = false) :
    Alone { s with loadSem := { s.loadSem with blocked := true } } t := by
  obtain ⟨hnone, hall⟩ := h.free hfree
  have hloads : ∀ u, (s.task u).loads = [] := by
    intro u
    by_contra hne
    exact absurd (hnone.symm.trans ((h.owner u).mpr hne)) (Option.some_ne_none u).symm
  constructor
  · rfl
  · exact fun u _ => ⟨hall u, hloads u⟩
  · exact (List.append_eq_nil_iff.mp (hloads t)).2

end LockInv

/-! ## One task moves -/

variable [DecidableEq T]

namespace Loader

@[simp] theorem setTask_task_self (st : TaskState N) : (s.setTask t st).task t = st :=
  Function.update_self ..

theorem setTask_task_of_ne (st : TaskState N) (h : u ≠ t) : (s.setTask t st).task u = s.task u :=
  Function.update_of_ne h ..

theorem setPc_stack (pc : LoadPc N) (u : T) : ((s.setPc t pc).task u).stack = (s.task u).stack := by
  unfold setPc
  by_cases hu : u = t
  · rw [hu, setTask_task_self]
  · rw [setTask_task_of_ne _ hu]

theorem setPc_pc_self (pc : LoadPc N) : ((s.setPc t pc).task t).pc = pc := by
  unfold setPc
  rw [setTask_task_self]

theorem setPc_pc_of_ne (pc : LoadPc N) (h : u ≠ t) :
    ((s.setPc t pc).task u).pc = (s.task u).pc := by
  unfold setPc
  rw [setTask_task_of_ne _ h]

end Loader

namespace LockInv

/-- A task that neither enters nor leaves `load_module`. -/
theorem setTask (h : LockInv s) {st : TaskState N} (hloads : st.loads = (s.task t).loads)
    (hwoken : st.pc.isWoken → (s.task t).pc.isWoken) : LockInv (s.setTask t st) := by
  have hl : ∀ u, ((s.setTask t st).task u).loads = (s.task u).loads := by
    intro u
    by_cases hu : u = t
    · rw [hu, Loader.setTask_task_self, hloads]
    · rw [Loader.setTask_task_of_ne st hu]
  have hw : ∀ u, ((s.setTask t st).task u).pc.isWoken → (s.task u).pc.isWoken := by
    intro u
    by_cases hu : u = t
    · rw [hu, Loader.setTask_task_self]
      exact hwoken
    · rw [Loader.setTask_task_of_ne st hu]
      exact id
  constructor
  · intro u
    rw [hl u]
    exact h.owner u
  · intro u
    rw [hl u]
    exact h.proper u
  · intro u hu
    obtain ⟨hnone, hall⟩ := h.woken u (hw u hu)
    exact ⟨hnone, fun v hv => hall v (hw v hv)⟩
  · intro hfree
    obtain ⟨hnone, hall⟩ := h.free hfree
    exact ⟨hnone, fun u hu => hall u (hw u hu)⟩

/-- The owner enters `load_module` once more. -/
theorem enter (h : LockInv s) (howner : s.ownerTask = some t) {st : TaskState N}
    (hloads : st.loads = false :: (s.task t).loads) (hwoken : ¬st.pc.isWoken) :
    LockInv (s.setTask t st) := by
  have hne := (h.owner t).mp howner
  constructor
  · intro u
    by_cases hu : u = t
    · rw [hu, Loader.setTask_task_self, hloads]
      exact ⟨fun _ => List.cons_ne_nil _ _, fun _ => howner⟩
    · rw [Loader.setTask_task_of_ne st hu]
      exact h.owner u
  · intro u
    by_cases hu : u = t
    · rw [hu, Loader.setTask_task_self, hloads]
      exact ⟨hne, h.proper t⟩
    · rw [Loader.setTask_task_of_ne st hu]
      exact h.proper u
  · intro u hu
    by_cases hut : u = t
    · rw [hut, Loader.setTask_task_self] at hu
      exact absurd hu hwoken
    · rw [Loader.setTask_task_of_ne st hut] at hu
      exact absurd (howner.symm.trans (h.woken u hu).1) (Option.some_ne_none t)
  · intro hfree
    exact absurd (howner.symm.trans (h.free hfree).1) (Option.some_ne_none t)

/-- The owner leaves a call of `load_module` that is not its outermost one. -/
theorem leave (h : LockInv s) {st : TaskState N} (hloads : (s.task t).loads = false :: st.loads)
    (hwoken : ¬st.pc.isWoken) : LockInv (s.setTask t st) := by
  have hproper := h.proper t
  rw [hloads] at hproper
  obtain ⟨hne, hrest⟩ := hproper
  have howner : s.ownerTask = some t := by
    rw [h.owner t, hloads]
    exact List.cons_ne_nil _ _
  constructor
  · intro u
    by_cases hu : u = t
    · rw [hu, Loader.setTask_task_self]
      exact ⟨fun _ => hne, fun _ => howner⟩
    · rw [Loader.setTask_task_of_ne st hu]
      exact h.owner u
  · intro u
    by_cases hu : u = t
    · rw [hu, Loader.setTask_task_self]
      exact hrest
    · rw [Loader.setTask_task_of_ne st hu]
      exact h.proper u
  · intro u hu
    by_cases hut : u = t
    · rw [hut, Loader.setTask_task_self] at hu
      exact absurd hu hwoken
    · rw [Loader.setTask_task_of_ne st hut] at hu
      exact absurd (howner.symm.trans (h.woken u hu).1) (Option.some_ne_none t)
  · intro hfree
    exact absurd (howner.symm.trans (h.free hfree).1) (Option.some_ne_none t)

end LockInv

/-! ## The semaphore changes hands -/

namespace Loader

theorem unlock_ownerTask : s.unlock.ownerTask = none := by
  unfold unlock
  dsimp only
  split
  · rfl
  · split <;> rfl

theorem unlock_modChain : s.unlock.modChain = s.modChain := by
  unfold unlock
  dsimp only
  split
  · rfl
  · split <;> rfl

theorem unlock_history : s.unlock.history = s.history := by
  unfold unlock
  dsimp only
  split
  · rfl
  · split <;> rfl

/-- `signal` changes one task at most: the first one that waits is woken up. -/
theorem unlock_task (u : T) :
    s.unlock.task u = s.task u ∨
      ∃ name version, (s.task u).pc = .waiting name version ∧
        s.unlock.task u = { s.task u with pc := .woken name version } ∧
        s.unlock.loadSem.blocked = s.loadSem.blocked ∧ s.loadSem.waiting.head? = some u := by
  unfold unlock
  dsimp only
  split
  · exact Or.inl rfl
  · rename_i v rest hwaiting
    split
    · rename_i name version hpc
      by_cases hu : u = v
      · right
        refine ⟨name, version, hu ▸ hpc, ?_, rfl, ?_⟩
        · unfold setPc
          rw [hu, setTask_task_self]
        · rw [hwaiting, hu]
          rfl
      · left
        unfold setPc
        rw [setTask_task_of_ne _ hu]
    · exact Or.inl rfl

theorem unlock_stack (u : T) : (s.unlock.task u).stack = (s.task u).stack := by
  rcases s.unlock_task u with heq | ⟨name, version, -, heq, -⟩ <;> rw [heq]

theorem unlock_loads (u : T) : (s.unlock.task u).loads = (s.task u).loads := by
  rcases s.unlock_task u with heq | ⟨name, version, hpc, heq, -⟩
  · rw [heq]
  · unfold TaskState.loads
    rw [heq, hpc]
    rfl

theorem unlock_woken (h : (s.unlock.task u).pc.isWoken) :
    (s.task u).pc.isWoken ∨
      (s.unlock.loadSem.blocked = s.loadSem.blocked ∧ s.loadSem.waiting.head? = some u) := by
  rcases s.unlock_task u with heq | ⟨name, version, hpc, heq, hsem, hhead⟩
  · rw [heq] at h
    exact Or.inl h
  · exact Or.inr ⟨hsem, hhead⟩

end Loader

namespace Alone

/-- It becomes the owner and enters `load_module`. -/
theorem start (h : Alone s t) {pc : LoadPc N} (hloads : pc.loads = [true]) (hwoken : ¬pc.isWoken) :
    LockInv ({ s with ownerTask := some t }.setPc t pc) := by
  have hself : (({ s with ownerTask := some t }.setPc t pc).task t).loads = [true] := by
    unfold Loader.setPc TaskState.loads
    rw [Loader.setTask_task_self]
    exact congrArg₂ (· ++ ·) hloads h.stack
  have hother : ∀ u, u ≠ t → ({ s with ownerTask := some t }.setPc t pc).task u = s.task u :=
    fun u hu => Loader.setTask_task_of_ne _ hu
  have hnotwoken : ∀ u, ¬(({ s with ownerTask := some t }.setPc t pc).task u).pc.isWoken := by
    intro u
    by_cases hu : u = t
    · rw [hu]
      unfold Loader.setPc
      rw [Loader.setTask_task_self]
      exact hwoken
    · rw [hother u hu]
      exact (h.others u hu).1
  constructor
  · intro u
    by_cases hu : u = t
    · rw [hu, hself]
      exact ⟨fun _ => List.cons_ne_nil _ _, fun _ => rfl⟩
    · rw [hother u hu, (h.others u hu).2]
      constructor
      · intro heq
        exact absurd (Option.some.inj heq).symm hu
      · intro hne
        exact absurd rfl hne
  · intro u
    by_cases hu : u = t
    · rw [hu, hself]
      rfl
    · rw [hother u hu, (h.others u hu).2]
      trivial
  · exact fun u hu => absurd hu (hnotwoken u)
  · intro hfree
    exact absurd (h.blocked.symm.trans hfree) (by decide)

/-- It gives the semaphore back. -/
theorem unlock (h : Alone s t) {pc : LoadPc N} (hloads : pc.loads = []) (hwoken : ¬pc.isWoken) :
    LockInv (s.unlock.setPc t pc) := by
  have hstack : (s.unlock.task t).stack = (s.task t).stack := Loader.unlock_stack t
  have hempty : ∀ u, ((s.unlock.setPc t pc).task u).loads = [] := by
    intro u
    unfold Loader.setPc
    by_cases hu : u = t
    · rw [hu, Loader.setTask_task_self]
      unfold TaskState.loads
      rw [hloads, hstack, h.stack]
      rfl
    · rw [Loader.setTask_task_of_ne _ hu, Loader.unlock_loads]
      exact (h.others u hu).2
  -- who is woken now was the first of the list
  have hhead : ∀ u, ((s.unlock.setPc t pc).task u).pc.isWoken →
      s.unlock.loadSem.blocked = true ∧ s.loadSem.waiting.head? = some u := by
    intro u hw
    unfold Loader.setPc at hw
    by_cases hu : u = t
    · rw [hu, Loader.setTask_task_self] at hw
      exact absurd hw hwoken
    · rw [Loader.setTask_task_of_ne _ hu] at hw
      rcases Loader.unlock_woken hw with hold | ⟨hsem, hfirst⟩
      · exact absurd hold (h.others u hu).1
      · exact ⟨hsem.trans h.blocked, hfirst⟩
  constructor
  · intro u
    rw [hempty u]
    have hnone : (s.unlock.setPc t pc).ownerTask = none := Loader.unlock_ownerTask
    rw [hnone]
    simp
  · intro u
    rw [hempty u]
    trivial
  · intro u hw
    refine ⟨Loader.unlock_ownerTask, ?_⟩
    intro v hv
    exact Option.some.inj ((hhead v hv).2.symm.trans (hhead u hw).2)
  · intro hfree
    refine ⟨Loader.unlock_ownerTask, ?_⟩
    intro u hw
    exact absurd ((hhead u hw).1.symm.trans hfree) (by decide)

end Alone

end Vmm386.Modules
