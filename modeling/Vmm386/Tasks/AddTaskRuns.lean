import Vmm386.Tasks.AddTaskSteps

/-!
# Creating and killing tasks, over whole runs

As long as every step is `Safe`, no slot, selector, pid or page has two tasks, and all that is
not held by a task or a call in progress is free.
-/

namespace Vmm386.Tasks

open Runs TaskSys

variable {s s' : TaskSys}

theorem TaskSys.TaskInv.taskOk (h : TaskInv s) : TaskOk s where
  slots := h.slots.nodup
  selectors i hi j hj hij := by
    obtain ⟨g, hg⟩ := h.gdt.selector i (Or.inl hi)
    have hgi := (h.gdt.owner g i).mpr ⟨hg, Or.inl hi⟩
    have hgj := (h.gdt.owner g j).mpr ⟨hij.symm.trans hg, Or.inl hj⟩
    exact Option.some_injective _ (hgi.symm.trans hgj)
  pids i hi j _ hij := h.pids.unique i j ((h.pids.owner i).mpr (Or.inl hi)) hij
  pages := by
    rw [List.nodup_iff_count_le_one]
    intro p
    have hbalance := h.pages.balance p
    have honce := h.pages.once p
    unfold holders at hbalance
    rw [List.count_flatMap]
    show (s.alive.map fun i => (s.tasks i).pages.count p).sum ≤ 1
    omega
  count := h.count
  max := by
    have hlength : s.alive.length ≤ MAX_TASKS := by
      have hcard := h.slots.nodup.length_le_card
      rwa [Fintype.card_fin] at hcard
    have hcount := h.count
    omega
  gdt g i hg := by
    obtain ⟨hlo, hhi⟩ := h.gdt.range g i hg
    obtain ⟨hsel, hown⟩ := (h.gdt.owner g i).mp hg
    exact ⟨hlo, hhi, hsel, hown.imp_right fun ⟨u, hu⟩ => ⟨u, CallPc.slot_of_tssSlot hu⟩⟩
  descriptor i hi := by
    obtain ⟨g, hg⟩ := h.gdt.selector i (Or.inl hi)
    have hdiv : (s.tasks i).tssSel / 8 = g := by omega
    rw [hdiv]
    exact (h.gdt.owner g i).mpr ⟨hg, Or.inl hi⟩
  released i hi := ((h.pids.owner i).mp hi).imp_right
    fun ⟨u, hu⟩ => ⟨u, CallPc.slot_of_tssSlot (CallPc.tssSlot_of_pidSlot hu)⟩
  balance := h.pages.balance

theorem tasks_init {i : TaskId} (hi : i ≠ 0) : TaskSys.init.tasks i = TaskSlot.zero := by
  simp only [TaskSys.init, Function.update_of_ne hi]

theorem taskInv_init : TaskInv TaskSys.init where
  slots := ⟨List.nodup_singleton 0, nofun, nofun, nofun⟩
  pids := by
    constructor
    · intro i
      by_cases hi : i = 0
      · rw [hi]
        exact ⟨fun _ => Or.inl (List.mem_singleton_self 0), fun _ => by decide⟩
      · rw [tasks_init hi]
        refine ⟨fun hne => absurd rfl hne, ?_⟩
        rintro (hi' | ⟨u, hu⟩)
        · exact absurd (List.mem_singleton.mp hi') hi
        · cases hu
    · have hpid : ∀ i, (TaskSys.init.tasks i).pid ≠ 0 → i = 0 := by
        intro i hi
        by_contra hne
        rw [tasks_init hne] at hi
        exact hi rfl
      intro i j hi hij
      rw [hpid i hi, hpid j (hij ▸ hi)]
  gdt := by
    have hgdt : ∀ g i, TaskSys.init.gdt g = some i ↔ g = FIRST_TSS ∧ i = 0 := by
      intro g i
      show Function.update (fun _ => none) FIRST_TSS (some 0) g = some i ↔ _
      by_cases hg : g = FIRST_TSS
      · rw [hg, Function.update_self]
        exact ⟨fun hi => ⟨rfl, (Option.some_injective _ hi).symm⟩, fun hi => by rw [hi.2]⟩
      · rw [Function.update_of_ne hg]
        exact ⟨nofun, fun hi => absurd hi.1 hg⟩
    constructor
    · intro g i hg
      rw [((hgdt g i).mp hg).1]
      decide
    · intro g i
      rw [hgdt]
      constructor
      · rintro ⟨rfl, rfl⟩
        exact ⟨rfl, Or.inl (List.mem_singleton_self 0)⟩
      · rintro ⟨hsel, hi | ⟨u, hu⟩⟩
        · cases List.mem_singleton.mp hi
          exact ⟨(Nat.eq_of_mul_eq_mul_right (by decide) hsel).symm, rfl⟩
        · cases hu
    · rintro i (hi | ⟨u, hu⟩)
      · cases List.mem_singleton.mp hi
        exact ⟨FIRST_TSS, rfl⟩
      · cases hu
  pages := by
    have hholders : ∀ p, holders TaskSys.init.alive TaskSys.init.tasks TaskSys.init.call p =
        [0, 1].count p := by
      intro p
      have hcalls : ∑ t, ((TaskSys.init.call t).pages TaskSys.init.tasks).count p = 0 :=
        Finset.sum_eq_zero fun t _ => List.count_nil
      unfold holders
      rw [hcalls]
      rfl
    have htaken : ∀ p, TaskSys.init.pagesTaken p = [0, 1].count p := by
      intro p
      match p with
      | 0 => rfl
      | 1 => rfl
      | p + 2 => rfl
    constructor
    · intro p
      rw [hholders, htaken]
      exact (Nat.zero_add _).symm
    · intro p
      show (if p < 2 then 1 else 0) ≤ 0 + 1
      split <;> omega
  count := by
    have hcounting : counting TaskSys.init.call = 0 := Finset.sum_eq_zero fun t _ => if_neg nofun
    rw [hcounting]
    rfl

theorem TaskSys.starts_eq_some {t : TaskId} {r : TaskSys} (h : s.starts t r = some s') :
    s.call t = .idle ∧ r = s' := by
  unfold TaskSys.starts at h
  split at h
  · rename_i ht
    exact ⟨ht.2, Option.some_injective _ h⟩
  · cases h

/-- One step keeps the invariant, and before the descriptor it leaves the tasks alone. -/
theorem TaskSys.TaskInv.step (h : TaskInv s) {op : TaskOp} (hsafe : Safe s op)
    (hstep : taskStep s op = some s') : TaskInv s' ∧ (op.MayFail → SameTasks s s') := by
  have hearly : TaskInv s' ∧ SameTasks s s' → TaskInv s' ∧ (op.MayFail → SameTasks s s') :=
    fun ⟨hinv, hsame⟩ => ⟨hinv, fun _ => hsame⟩
  cases op with
  | addTask t =>
    obtain ⟨ht, rfl⟩ := starts_eq_some hstep
    exact hearly (h.addTask ht)
  | allocTask t =>
    simp only [taskStep] at hstep
    split at hstep
    · cases hstep
      exact hearly (h.allocTask ‹_› hsafe)
    · cases hstep
  | makePageDir t page =>
    simp only [taskStep] at hstep
    split at hstep
    · split at hstep
      · cases hstep
        exact hearly (h.makePageDir ‹_› ‹_›)
      · cases hstep
    · cases hstep
  | allocStack0 t page =>
    simp only [taskStep] at hstep
    split at hstep
    · split at hstep
      · cases hstep
        exact hearly (h.allocStack0 ‹_› ‹_›)
      · cases hstep
    · cases hstep
  | allocStack t page =>
    simp only [taskStep] at hstep
    split at hstep
    · split at hstep
      · cases hstep
        exact hearly (h.allocStack ‹_› ‹_›)
      · cases hstep
    · cases hstep
  | freeStack0 t =>
    simp only [taskStep] at hstep
    split at hstep
    · cases hstep
      exact hearly (h.freeStack0 ‹_›)
    · cases hstep
  | deletePageDir t =>
    simp only [taskStep] at hstep
    split at hstep
    · cases hstep
      exact hearly (h.deletePageDir ‹_›)
    · cases hstep
  | freeTask t =>
    simp only [taskStep] at hstep
    split at hstep
    · cases hstep
      exact hearly (h.freeTask ‹_›)
    · cases hstep
  | addTssGdt t =>
    simp only [taskStep] at hstep
    split at hstep
    · cases hstep
      exact ⟨h.addTssGdt ‹_›, nofun⟩
    · cases hstep
  | setPid t =>
    simp only [taskStep] at hstep
    split at hstep
    · cases hstep
      exact ⟨h.setPid ‹_› hsafe, nofun⟩
    · cases hstep
  | incPid t =>
    simp only [taskStep] at hstep
    split at hstep
    · cases hstep
      exact ⟨h.incPid ‹_›, nofun⟩
    · cases hstep
  | appendTask t immortal =>
    simp only [taskStep] at hstep
    split at hstep
    · cases hstep
      exact ⟨h.appendTask ‹_› immortal, nofun⟩
    · cases hstep
  | countTask t =>
    simp only [taskStep] at hstep
    split at hstep
    · cases hstep
      exact ⟨h.countTask ‹_›, nofun⟩
    · cases hstep
  | killTask t i =>
    obtain ⟨ht, rfl⟩ := starts_eq_some hstep
    exact ⟨h.killTask ht i, nofun⟩
  | killCurrentTask t =>
    obtain ⟨ht, rfl⟩ := starts_eq_some hstep
    exact ⟨h.killCurrentTask ht, nofun⟩
  | killed t =>
    simp only [taskStep] at hstep
    split at hstep
    · rename_i i ht
      cases hstep
      exact ⟨h.killed ht (hsafe i ht), nofun⟩
    · cases hstep
  | reclaimTask i =>
    simp only [taskStep] at hstep
    split at hstep
    · rename_i hz
      cases hstep
      refine ⟨h.reclaimTask (h.slots.zombie i hz) ?_ ?_, nofun⟩
      · rw [hz]
        rfl
      · rw [hz]
        exact nofun
    · cases hstep

/-! ## Runs -/

/-- The steps of an `add_task` that gets the pages `d`, `a` and `b`. -/
def addTaskOps (t : TaskId) (d a b : ℕ) : List TaskOp :=
  [.addTask t, .allocTask t, .makePageDir t (some d), .allocStack0 t (some a),
    .allocStack t (some b), .addTssGdt t, .setPid t, .incPid t, .appendTask t false, .countTask t]

end Vmm386.Tasks
