import Vmm386.Tasks.AddTaskTheorems

/-!
# The steps of `add_task` and `kill_task` and their invariant

A call of `add_task` fails before it has put anything into the GDT or taken a pid.
-/

namespace Vmm386.Tasks.TaskSys

variable {s s' : TaskSys} {t i : TaskId} {pc : CallPc} {x : TaskSlot} {p : ℕ}

/-! ## Pages -/

theorem pagesGiven_givePages (ps : List ℕ) (s : TaskSys) (q : ℕ) :
    (s.givePages ps).pagesGiven q = s.pagesGiven q + ps.count q := by
  unfold givePages
  induction ps generalizing s with
  | nil => rfl
  | cons p ps ih =>
    rw [List.foldl_cons, ih]
    show Function.update s.pagesGiven p (s.pagesGiven p + 1) q + _ = _
    by_cases hq : q = p
    · rw [hq, Function.update_self, List.count_cons_self]
      omega
    · rw [Function.update_of_ne hq, List.count_cons_of_ne (Ne.symm hq)]

/-- Giving pages back changes nothing else. -/
theorem givePages_eq (ps : List ℕ) (s : TaskSys) :
    s.givePages ps = { s with pagesGiven := (s.givePages ps).pagesGiven } := by
  unfold givePages
  induction ps generalizing s with
  | nil => rfl
  | cons p ps ih => exact ih (s.givePage p)

namespace CallStep

theorem pages_same (hc : CallStep s s' t i pc x) (h : TaskInv s)
    (htaken : s'.pagesTaken = s.pagesTaken) (hgiven : s'.pagesGiven = s.pagesGiven)
    (hnew : pc.pages s'.tasks = (s.call t).pages s.tasks) : PagesInv s' := by
  apply hc.pages h
  · intro p
    rw [htaken, hgiven, hnew]
  · rw [htaken, hgiven]
    exact h.pages.once

theorem pages_take (hc : CallStep s s' t i pc x) (h : TaskInv s)
    (hfree : s.pagesTaken p = s.pagesGiven p) (htaken : s'.pagesTaken = (s.takePage p).pagesTaken)
    (hgiven : s'.pagesGiven = s.pagesGiven)
    (hnew : pc.pages s'.tasks = (s.call t).pages s.tasks ++ [p]) : PagesInv s' := by
  have htaken : ∀ q, s'.pagesTaken q = s.pagesTaken q + [p].count q := by
    intro q
    rw [htaken]
    show Function.update s.pagesTaken p (s.pagesTaken p + 1) q = _
    by_cases hq : q = p
    · rw [hq, Function.update_self, List.count_singleton_self]
    · rw [Function.update_of_ne hq, List.count_singleton, beq_eq_false_iff_ne.mpr (Ne.symm hq)]
      rfl
  apply hc.pages h
  · intro q
    rw [htaken, hgiven, hnew, List.count_append]
    omega
  · intro q
    have honce := h.pages.once q
    rw [htaken, hgiven]
    by_cases hq : q = p
    · rw [hq, List.count_singleton_self]
      omega
    · rw [List.count_singleton, beq_eq_false_iff_ne.mpr (Ne.symm hq)]
      exact honce

theorem pages_give (hc : CallStep s s' t i pc x) (h : TaskInv s) (ps : List ℕ)
    (htaken : s'.pagesTaken = s.pagesTaken) (hgiven : s'.pagesGiven = (s.givePages ps).pagesGiven)
    (hnew : (s.call t).pages s.tasks = pc.pages s'.tasks ++ ps) : PagesInv s' := by
  apply hc.pages h
  · intro q
    rw [htaken, hgiven, hnew, pagesGiven_givePages, List.count_append]
    omega
  · intro q
    have honce := h.pages.once q
    rw [htaken, hgiven, pagesGiven_givePages]
    omega

/-! ## Before the descriptor -/

/-- A step after which `add_task` may still fail. -/
theorem mayFail (hc : CallStep s s' t i pc x) (h : TaskInv s)
    (hold : (s.call t).pidSlot = none ∧ (s.call t).tssSlot = none ∧ s.call t ≠ .counting)
    (hnew : pc.pidSlot = none ∧ pc.tssSlot = none ∧ pc ≠ .counting)
    (hpid : x.pid = (s.tasks i).pid)
    (hsame : s'.gdt = s.gdt ∧ s'.taskCount = s.taskCount ∧ s'.nextPid = s.nextPid)
    (hpages : PagesInv s') : TaskInv s' ∧ SameTasks s s' := by
  obtain ⟨hgdt, hcount, hnext⟩ := hsame
  have hfree : ¬ (i ∈ s.alive ∨ ∃ u, (s.call u).tssSlot = some i) := by
    intro hi
    rcases hi with hi | ⟨u, hu⟩
    · exact hc.notAlive hi
    · by_cases hut : u = t
      · rw [hut, hold.2.1] at hu
        cases hu
      · exact hc.others u hut (CallPc.slot_of_tssSlot hu)
  constructor
  · constructor
    · exact hc.slots h
    · rw [hc.alive, hc.tasks, hc.call]
      exact h.pids.congr (pid_update hpid) (pidSlot_update (hnew.1.trans hold.1.symm))
    · rw [hgdt, hc.alive, hc.tasks, hc.call]
      refine h.gdt.congr ?_ (tssSlot_update (hnew.2.1.trans hold.2.1.symm))
      intro j hj
      have hji : j ≠ i := fun heq => hfree (heq ▸ hj)
      rw [Function.update_of_ne hji]
    · exact hpages
    · exact hc.count h hcount hold.2.2 hnew.2.2
  · refine ⟨hgdt, hcount, hnext, hc.alive, ?_⟩
    intro j hj
    have hji : j ≠ i := by
      intro heq
      rw [heq, h.pids.owner] at hj
      exact hfree (hj.imp_right fun ⟨u, hu⟩ => ⟨u, CallPc.tssSlot_of_pidSlot hu⟩)
    rw [hc.tasks, Function.update_of_ne hji]

end CallStep

/-- A call without a slot goes on. -/
theorem TaskInv.setCall (h : TaskInv s) (hold : (s.call t).slot = none ∧ s.call t ≠ .counting)
    (hnew : pc.slot = none ∧ pc ≠ .counting) (hzombie : pc = .zombie → t ∈ s.alive) :
    TaskInv (s.setCall t pc) := by
  obtain ⟨hpid, htss, hpages⟩ := CallPc.of_slot_eq_none hold.1 s.tasks
  obtain ⟨hpid', htss', hpages'⟩ := CallPc.of_slot_eq_none hnew.1 s.tasks
  constructor
  · refine h.slots.update ?_ hzombie
    intro j hj
    rw [hnew.1] at hj
    cases hj
  · exact h.pids.congr (fun _ => rfl) (pidSlot_update (hpid'.trans hpid.symm))
  · exact h.gdt.congr (fun _ _ => rfl) (tssSlot_update (htss'.trans htss.symm))
  · refine ⟨fun p => (h.pages.balance p).trans ?_, h.pages.once⟩
    refine congrArg (s.pagesGiven p + ·) (holders_congr ?_ p).symm
    intro u
    show (Function.update s.call t pc u).pages s.tasks = _
    by_cases hu : u = t
    · rw [hu, Function.update_self, hpages', hpages]
    · rw [Function.update_of_ne hu]
  · have hcounting := counting_update s.call t pc
    rw [if_neg hold.2, if_neg hnew.2] at hcounting
    rw [show (s.setCall t pc).call = Function.update s.call t pc from rfl,
      Nat.add_right_cancel hcounting]
    exact h.count

theorem SameTasks.setCall : SameTasks s (s.setCall t pc) :=
  ⟨rfl, rfl, rfl, rfl, fun _ _ => rfl⟩

theorem SameTasks.refl : SameTasks s s :=
  ⟨rfl, rfl, rfl, rfl, fun _ _ => rfl⟩

theorem TaskInv.addTask (h : TaskInv s) (ht : s.call t = .idle) :
    TaskInv (s.addTask t) ∧ SameTasks s (s.addTask t) := by
  unfold TaskSys.addTask
  split
  · refine ⟨h.setCall ?_ ⟨rfl, nofun⟩ nofun, SameTasks.setCall⟩
    rw [ht]
    exact ⟨rfl, nofun⟩
  · exact ⟨h, SameTasks.refl⟩

/-- `alloc_task` has found a slot without a pid that no other call has chosen. -/
theorem TaskInv.allocTask (h : TaskInv s) (ht : s.call t = .checked)
    (hsafe : ∀ i, s.freeSlot = some i → ∀ u, (s.call u).slot ≠ some i) :
    TaskInv (s.allocTask t) ∧ SameTasks s (s.allocTask t) := by
  unfold TaskSys.allocTask
  cases hfree : s.freeSlot with
  | none =>
    refine ⟨h.setCall ?_ ⟨rfl, nofun⟩ nofun, SameTasks.setCall⟩
    rw [ht]
    exact ⟨rfl, nofun⟩
  | some i =>
    have hfind : (List.finRange MAX_TASKS).find? (fun i => (s.tasks i).pid = 0) = some i := hfree
    have hfound := List.find?_some hfind
    have hpid : (s.tasks i).pid = 0 := of_decide_eq_true hfound
    have hdead : i ∉ s.alive := fun hi => (h.pids.owner i).mpr (Or.inl hi) hpid
    have hc : CallStep s ((s.setTask i .zero).setCall t (.allocated i)) t i (.allocated i) .zero :=
      ⟨hdead, fun u _ => hsafe i hfree u, fun j hj => (Option.some_injective _ hj).symm, nofun, rfl,
        rfl, rfl⟩
    apply hc.mayFail h
    · rw [ht]
      exact ⟨rfl, rfl, nofun⟩
    · exact ⟨rfl, rfl, nofun⟩
    · exact hpid.symm
    · exact ⟨rfl, rfl, rfl⟩
    · apply hc.pages_same h rfl rfl
      rw [ht]
      rfl

theorem TaskInv.makePageDir (h : TaskInv s) (ht : s.call t = .allocated i) {page : Option ℕ}
    (hpage : s.Available page) :
    TaskInv (s.makePageDir t i page) ∧ SameTasks s (s.makePageDir t i page) := by
  have hslot : (s.call t).slot = some i := by rw [ht]; rfl
  have hold : (s.call t).pidSlot = none ∧ (s.call t).tssSlot = none ∧ s.call t ≠ .counting := by
    rw [ht]
    exact ⟨rfl, rfl, nofun⟩
  cases page with
  | none =>
    have hc : CallStep s (s.makePageDir t i none) t i (.failing i) { s.tasks i with pageDir := none } :=
      CallStep.of_slot h hslot (fun j hj => (Option.some_injective _ hj).symm) nofun rfl rfl rfl
    apply hc.mayFail h hold ⟨rfl, rfl, nofun⟩ rfl ⟨rfl, rfl, rfl⟩
    apply hc.pages_same h rfl rfl
    rw [ht]
    rfl
  | some p =>
    have hc : CallStep s (s.makePageDir t i (some p)) t i (.gotDir i)
        { s.tasks i with pageDir := some p } :=
      CallStep.of_slot h hslot (fun j hj => (Option.some_injective _ hj).symm) nofun rfl rfl rfl
    apply hc.mayFail h hold ⟨rfl, rfl, nofun⟩ rfl ⟨rfl, rfl, rfl⟩
    apply hc.pages_take h (hpage p rfl) rfl rfl
    rw [ht, hc.tasks]
    simp only [CallPc.pages, Function.update_self]
    rfl

theorem TaskInv.allocStack0 (h : TaskInv s) (ht : s.call t = .gotDir i) {page : Option ℕ}
    (hpage : s.Available page) :
    TaskInv (s.allocStack0 t i page) ∧ SameTasks s (s.allocStack0 t i page) := by
  have hslot : (s.call t).slot = some i := by rw [ht]; rfl
  have hold : (s.call t).pidSlot = none ∧ (s.call t).tssSlot = none ∧ s.call t ≠ .counting := by
    rw [ht]
    exact ⟨rfl, rfl, fun hc => by cases hc⟩
  cases page with
  | none =>
    have hc : CallStep s (s.allocStack0 t i none) t i (.noTss i) { s.tasks i with stack0 := none } :=
      CallStep.of_slot h hslot (fun j hj => (Option.some_injective _ hj).symm)
        (fun hc => by cases hc) rfl rfl rfl
    apply hc.mayFail h hold ⟨rfl, rfl, fun hc => by cases hc⟩ rfl ⟨rfl, rfl, rfl⟩
    apply hc.pages_same h rfl rfl
    rw [ht, hc.tasks]
    simp only [CallPc.pages, Function.update_self]
  | some p =>
    have hc : CallStep s (s.allocStack0 t i (some p)) t i (.gotStack0 i)
        { s.tasks i with stack0 := some p } :=
      CallStep.of_slot h hslot (fun j hj => (Option.some_injective _ hj).symm)
        (fun hc => by cases hc) rfl rfl rfl
    apply hc.mayFail h hold ⟨rfl, rfl, fun hc => by cases hc⟩ rfl ⟨rfl, rfl, rfl⟩
    apply hc.pages_take h (hpage p rfl) rfl rfl
    rw [ht, hc.tasks]
    simp only [CallPc.pages, Function.update_self]
    rfl

theorem TaskInv.allocStack (h : TaskInv s) (ht : s.call t = .gotStack0 i) {page : Option ℕ}
    (hpage : s.Available page) :
    TaskInv (s.allocStack t i page) ∧ SameTasks s (s.allocStack t i page) := by
  have hslot : (s.call t).slot = some i := by rw [ht]; rfl
  have hold : (s.call t).pidSlot = none ∧ (s.call t).tssSlot = none ∧ s.call t ≠ .counting := by
    rw [ht]
    exact ⟨rfl, rfl, fun hc => by cases hc⟩
  cases page with
  | none =>
    have hc : CallStep s (s.allocStack t i none) t i (.noStack i) { s.tasks i with stack := none } :=
      CallStep.of_slot h hslot (fun j hj => (Option.some_injective _ hj).symm)
        (fun hc => by cases hc) rfl rfl rfl
    apply hc.mayFail h hold ⟨rfl, rfl, fun hc => by cases hc⟩ rfl ⟨rfl, rfl, rfl⟩
    apply hc.pages_same h rfl rfl
    rw [ht, hc.tasks]
    simp only [CallPc.pages, Function.update_self]
  | some p =>
    have hc : CallStep s (s.allocStack t i (some p)) t i (.gotStack i)
        { s.tasks i with stack := some p } :=
      CallStep.of_slot h hslot (fun j hj => (Option.some_injective _ hj).symm)
        (fun hc => by cases hc) rfl rfl rfl
    apply hc.mayFail h hold ⟨rfl, rfl, fun hc => by cases hc⟩ rfl ⟨rfl, rfl, rfl⟩
    apply hc.pages_take h (hpage p rfl) rfl rfl
    rw [ht, hc.tasks]
    simp only [CallPc.pages, Function.update_self]
    rfl

theorem TaskInv.freeStack0 (h : TaskInv s) (ht : s.call t = .noStack i) :
    TaskInv (s.freeStack0 t i) ∧ SameTasks s (s.freeStack0 t i) := by
  have hslot : (s.call t).slot = some i := by rw [ht]; rfl
  have heq := givePages_eq (s.tasks i).stack0.toList s
  unfold TaskSys.freeStack0
  have hc : CallStep s ((s.givePages (s.tasks i).stack0.toList).setCall t (.noTss i)) t i (.noTss i)
      (s.tasks i) := by
    refine CallStep.of_slot h hslot (fun j hj => ?_) nofun ?_ ?_ ?_
    · exact (Option.some_injective _ hj).symm
    · rw [heq, Function.update_eq_self]
      rfl
    · rw [heq]
      rfl
    · rw [heq]
      rfl
  apply hc.mayFail h
  · rw [ht]
    exact ⟨rfl, rfl, nofun⟩
  · exact ⟨rfl, rfl, nofun⟩
  · rfl
  · rw [heq]
    exact ⟨rfl, rfl, rfl⟩
  · apply hc.pages_give h (s.tasks i).stack0.toList
    · rw [heq]
      rfl
    · rfl
    · rw [ht, hc.tasks, Function.update_eq_self]
      rfl

theorem TaskInv.deletePageDir (h : TaskInv s) (ht : s.call t = .noTss i) :
    TaskInv (s.deletePageDir t i) ∧ SameTasks s (s.deletePageDir t i) := by
  have hslot : (s.call t).slot = some i := by rw [ht]; rfl
  have heq := givePages_eq (s.tasks i).pageDir.toList s
  unfold TaskSys.deletePageDir
  have hc : CallStep s ((s.givePages (s.tasks i).pageDir.toList).setCall t (.failing i)) t i
      (.failing i) (s.tasks i) := by
    refine CallStep.of_slot h hslot (fun j hj => ?_) nofun ?_ ?_ ?_
    · exact (Option.some_injective _ hj).symm
    · rw [heq, Function.update_eq_self]
      rfl
    · rw [heq]
      rfl
    · rw [heq]
      rfl
  apply hc.mayFail h
  · rw [ht]
    exact ⟨rfl, rfl, nofun⟩
  · exact ⟨rfl, rfl, nofun⟩
  · rfl
  · rw [heq]
    exact ⟨rfl, rfl, rfl⟩
  · apply hc.pages_give h (s.tasks i).pageDir.toList
    · rw [heq]
      rfl
    · rfl
    · rw [ht, hc.tasks, Function.update_eq_self]
      rfl

/-- A slot that a call has chosen has no pid before the descriptor. -/
theorem TaskInv.pid_eq_zero (h : TaskInv s) (hslot : (s.call t).slot = some i)
    (hpid : (s.call t).pidSlot = none) : (s.tasks i).pid = 0 := by
  by_contra hne
  rcases (h.pids.owner i).mp hne with hi | ⟨u, hu⟩
  · exact h.slots.notAlive t i hslot hi
  · cases h.slots.unique t u i hslot (CallPc.slot_of_tssSlot (CallPc.tssSlot_of_pidSlot hu))
    rw [hpid] at hu
    cases hu

theorem TaskInv.freeTask (h : TaskInv s) (ht : s.call t = .failing i) :
    TaskInv (s.freeTask t i) ∧ SameTasks s (s.freeTask t i) := by
  have hslot : (s.call t).slot = some i := by rw [ht]; rfl
  have hc : CallStep s (s.freeTask t i) t i .idle { s.tasks i with pid := 0 } :=
    CallStep.of_slot h hslot nofun nofun rfl rfl rfl
  apply hc.mayFail h
  · rw [ht]
    exact ⟨rfl, rfl, nofun⟩
  · exact ⟨rfl, rfl, nofun⟩
  · exact (h.pid_eq_zero hslot (by rw [ht]; rfl)).symm
  · exact ⟨rfl, rfl, rfl⟩
  · apply hc.pages_same h rfl rfl
    rw [ht]
    rfl

/-! ## The descriptor, the pid, the list of tasks -/

theorem freeTss_spec (h : ∃ g, FIRST_TSS ≤ g ∧ g < FIRST_TSS + MAX_TASKS ∧ s.gdt g = none) :
    FIRST_TSS ≤ s.freeTss ∧ s.freeTss < FIRST_TSS + MAX_TASKS ∧ s.gdt s.freeTss = none := by
  unfold freeTss
  cases hfind : (List.range' FIRST_TSS MAX_TASKS).find? fun g => (s.gdt g).isNone with
  | none =>
    obtain ⟨g, hlo, hhi, hg⟩ := h
    have hsome := List.find?_eq_none.mp hfind g (List.mem_range'_1.mpr ⟨hlo, hhi⟩)
    rw [hg] at hsome
    exact absurd rfl hsome
  | some g =>
    have hg := List.find?_some hfind
    obtain ⟨hlo, hhi⟩ := List.mem_range'_1.mp (List.mem_of_find?_eq_some hfind)
    exact ⟨hlo, hhi, Option.isNone_iff_eq_none.mp hg⟩

/-- There are as many descriptors as slots, so the slot `i` that has none finds one free. -/
theorem GdtInv.exists_free {gdt : ℕ → Option TaskId} {alive : List TaskId}
    {tasks : TaskId → TaskSlot} {call : TaskId → CallPc} (h : GdtInv gdt alive tasks call)
    (hi : ¬ (i ∈ alive ∨ ∃ t, (call t).tssSlot = some i)) :
    ∃ g, FIRST_TSS ≤ g ∧ g < FIRST_TSS + MAX_TASKS ∧ gdt g = none := by
  by_contra hnone
  have hsome : ∀ k : Fin MAX_TASKS, ∃ j, gdt (FIRST_TSS + k) = some j := by
    intro k
    apply Option.ne_none_iff_exists'.mp
    intro hk
    exact hnone ⟨FIRST_TSS + k, Nat.le_add_right _ _, Nat.add_lt_add_left k.isLt _, hk⟩
  choose owner howner using hsome
  have hinj : Function.Injective owner := by
    intro k k' hk
    have hsel := ((h.owner _ _).mp (howner k)).1
    have hsel' := ((h.owner _ _).mp (howner k')).1
    rw [hk] at hsel
    omega
  obtain ⟨k, hk⟩ := Finite.surjective_of_injective hinj i
  have hown := ((h.owner _ _).mp (howner k)).2
  rw [hk] at hown
  exact hi hown

theorem TaskInv.not_tss (h : TaskInv s) (hslot : (s.call t).slot = some i)
    (htss : (s.call t).tssSlot = none) : ¬ (i ∈ s.alive ∨ ∃ u, (s.call u).tssSlot = some i) := by
  intro hi
  rcases hi with hi | ⟨u, hu⟩
  · exact h.slots.notAlive t i hslot hi
  · cases h.slots.unique t u i hslot (CallPc.slot_of_tssSlot hu)
    rw [htss] at hu
    cases hu

/-- When the call of `t` comes to have the slot `i`, the others have what they had. -/
theorem exists_update_iff {f : CallPc → Option TaskId} (hpc : f pc = some i)
    (hold : f (s.call t) = none) {j : TaskId} (hji : j ≠ i) :
    (∃ u, f (Function.update s.call t pc u) = some j) ↔ ∃ u, f (s.call u) = some j := by
  constructor
  · rintro ⟨u, hu⟩
    by_cases hut : u = t
    · rw [hut, Function.update_self, hpc] at hu
      exact absurd (Option.some_injective _ hu).symm hji
    · rw [Function.update_of_ne hut] at hu
      exact ⟨u, hu⟩
  · rintro ⟨u, hu⟩
    have hut : u ≠ t := by
      rintro rfl
      rw [hold] at hu
      cases hu
    refine ⟨u, ?_⟩
    rw [Function.update_of_ne hut]
    exact hu

theorem TaskInv.addTssGdt (h : TaskInv s) (ht : s.call t = .gotStack i) :
    TaskInv (s.addTssGdt t i) := by
  have hslot : (s.call t).slot = some i := by rw [ht]; rfl
  have hhas := h.not_tss hslot (by rw [ht]; rfl)
  obtain ⟨hlo, hhi, hfree⟩ := freeTss_spec (h.gdt.exists_free hhas)
  let x := { s.tasks i with tssSel := s.freeTss * 8 }
  have hc : CallStep s (s.addTssGdt t i) t i (.gotTss i) x :=
    CallStep.of_slot h hslot (fun j hj => (Option.some_injective _ hj).symm)
      (fun hc => by cases hc) rfl rfl rfl
  -- the slot `i` is new among those that have a descriptor
  have hold : ∀ j, j ≠ i → ((∃ u, (Function.update s.call t (.gotTss i) u).tssSlot = some j) ↔
      ∃ u, (s.call u).tssSlot = some j) := by
    intro j hji
    exact exists_update_iff rfl (by rw [ht]; rfl) hji
  have hnew : ∃ u, (Function.update s.call t (.gotTss i) u).tssSlot = some i :=
    ⟨t, by rw [Function.update_self]; rfl⟩
  constructor
  · exact hc.slots h
  · rw [hc.tasks, hc.call]
    refine h.pids.congr (pid_update rfl) (pidSlot_update ?_)
    rw [ht]
    rfl
  · rw [hc.tasks, hc.call]
    show GdtInv (Function.update s.gdt s.freeTss (some i)) s.alive _ _
    refine ⟨?_, ?_, ?_⟩
    · intro g j hg
      by_cases hgf : g = s.freeTss
      · rw [hgf]
        exact ⟨hlo, hhi⟩
      · rw [Function.update_of_ne hgf] at hg
        exact h.gdt.range g j hg
    · intro g j
      by_cases hji : j = i
      · subst hji
        rw [Function.update_self]
        by_cases hgf : g = s.freeTss
        · rw [hgf, Function.update_self]
          exact ⟨fun _ => ⟨rfl, Or.inr hnew⟩, fun _ => rfl⟩
        · rw [Function.update_of_ne hgf]
          constructor
          · intro hg
            exact absurd ((h.gdt.owner g j).mp hg).2 hhas
          · rintro ⟨hsel, -⟩
            exact absurd (Nat.eq_of_mul_eq_mul_right (by decide) hsel).symm hgf
      · rw [Function.update_of_ne hji, hold j hji]
        by_cases hgf : g = s.freeTss
        · rw [hgf, Function.update_self]
          constructor
          · intro hij
            exact absurd (Option.some_injective _ hij).symm hji
          · intro hown
            rw [← h.gdt.owner, hfree] at hown
            cases hown
        · rw [Function.update_of_ne hgf]
          exact h.gdt.owner g j
    · intro j hj
      by_cases hji : j = i
      · rw [hji, Function.update_self]
        exact ⟨s.freeTss, rfl⟩
      · rw [hold j hji] at hj
        rw [Function.update_of_ne hji]
        exact h.gdt.selector j hj
  · apply hc.pages_same h rfl rfl
    rw [ht, hc.tasks]
    simp only [CallPc.pages, Function.update_self]
    rfl
  · exact hc.count h rfl (fun hc => by rw [ht] at hc; cases hc) fun hc => by cases hc

theorem TaskInv.setPid (h : TaskInv s) (ht : s.call t = .gotTss i)
    (hsafe : s.nextPid ≠ 0 ∧ ∀ j, (s.tasks j).pid ≠ s.nextPid) : TaskInv (s.setPid t i) := by
  have hslot : (s.call t).slot = some i := by rw [ht]; rfl
  let x := { s.tasks i with pid := s.nextPid }
  have hc : CallStep s (s.setPid t i) t i (.gotPid i) x :=
    CallStep.of_slot h hslot (fun j hj => (Option.some_injective _ hj).symm)
      (fun hc => by cases hc) rfl rfl rfl
  constructor
  · exact hc.slots h
  · rw [hc.tasks, hc.call]
    constructor
    · intro j
      by_cases hji : j = i
      · rw [hji, Function.update_self]
        refine ⟨fun _ => Or.inr ⟨t, ?_⟩, fun _ => hsafe.1⟩
        rw [Function.update_self]
        rfl
      · rw [Function.update_of_ne hji, h.pids.owner j]
        exact or_congr_right (exists_update_iff rfl (by rw [ht]; rfl) hji).symm
    · intro j k hj hjk
      by_cases hji : j = i
      · by_cases hki : k = i
        · rw [hji, hki]
        · rw [hji, Function.update_self, Function.update_of_ne hki] at hjk
          exact absurd hjk.symm (hsafe.2 k)
      · by_cases hki : k = i
        · rw [hki, Function.update_self, Function.update_of_ne hji] at hjk
          exact absurd hjk (hsafe.2 j)
        · rw [Function.update_of_ne hji] at hj
          rw [Function.update_of_ne hji, Function.update_of_ne hki] at hjk
          exact h.pids.unique j k hj hjk
  · rw [hc.tasks, hc.call]
    refine h.gdt.congr ?_ (tssSlot_update (by rw [ht]; rfl))
    intro j _
    by_cases hji : j = i
    · rw [hji, Function.update_self]
    · rw [Function.update_of_ne hji]
  · apply hc.pages_same h rfl rfl
    rw [ht, hc.tasks]
    simp only [CallPc.pages, Function.update_self]
    rfl
  · exact hc.count h rfl (fun hc => by rw [ht] at hc; cases hc) fun hc => by cases hc

theorem TaskInv.incPid (h : TaskInv s) (ht : s.call t = .gotPid i) : TaskInv (s.incPid t i) := by
  have hslot : (s.call t).slot = some i := by rw [ht]; rfl
  have hc : CallStep s (s.incPid t i) t i (.appending i) (s.tasks i) :=
    CallStep.of_slot h hslot (fun j hj => (Option.some_injective _ hj).symm) nofun
      (Function.update_eq_self i s.tasks).symm rfl rfl
  constructor
  · exact hc.slots h
  · rw [hc.call]
    exact h.pids.congr (fun _ => rfl) (pidSlot_update (by rw [ht]; rfl))
  · rw [hc.call]
    exact h.gdt.congr (fun _ _ => rfl) (tssSlot_update (by rw [ht]; rfl))
  · apply hc.pages_same h rfl rfl
    rw [ht]
    rfl
  · exact hc.count h rfl (by rw [ht]; exact nofun) nofun

/-- The slot goes from the call to the task. -/
theorem TaskInv.appendTask (h : TaskInv s) (ht : s.call t = .appending i) (immortal : Bool) :
    TaskInv (s.appendTask t i immortal) := by
  have hslot : (s.call t).slot = some i := by rw [ht]; rfl
  have hdead := h.slots.notAlive t i hslot
  have hothers : ∀ u, u ≠ t → (s.call u).slot ≠ some i :=
    fun u hu heq => hu (h.slots.unique u t i heq hslot)
  let x := { s.tasks i with ppid := (s.tasks t).pid, immortal }
  have hcall : ∀ {u j}, Function.update s.call t .counting u = j → u ≠ t → s.call u = j :=
    fun hu hut => (Function.update_of_ne hut _ _).symm.trans hu
  -- what the call had, the task has now
  have hmoved : ∀ (f : CallPc → Option TaskId), f .counting = none →
      (∀ pc j, f pc = some j → pc.slot = some j) → f (.appending i) = some i →
      ∀ j, (j ∈ s.alive ∨ ∃ u, f (s.call u) = some j) ↔
        (j ∈ i :: s.alive ∨ ∃ u, f (Function.update s.call t .counting u) = some j) := by
    intro f hnone hsub hown j
    rw [List.mem_cons]
    constructor
    · rintro (hj | ⟨u, hu⟩)
      · exact Or.inl (Or.inr hj)
      · by_cases hut : u = t
        · rw [hut, ht, hown] at hu
          exact Or.inl (Or.inl (Option.some_injective _ hu).symm)
        · exact Or.inr ⟨u, by rw [Function.update_of_ne hut]; exact hu⟩
    · rintro ((rfl | hj) | ⟨u, hu⟩)
      · exact Or.inr ⟨t, by rw [ht]; exact hown⟩
      · exact Or.inl hj
      · by_cases hut : u = t
        · rw [hut, Function.update_self, hnone] at hu
          cases hu
        · rw [Function.update_of_ne hut] at hu
          exact Or.inr ⟨u, hu⟩
  constructor
  · constructor
    · exact List.nodup_cons.mpr ⟨hdead, h.slots.nodup⟩
    · intro u j hu hj
      have hu : (Function.update s.call t .counting u).slot = some j := hu
      by_cases hut : u = t
      · rw [hut, Function.update_self] at hu
        cases hu
      · rw [Function.update_of_ne hut] at hu
        rcases List.mem_cons.mp hj with hji | hj
        · exact hothers u hut (hji ▸ hu)
        · exact h.slots.notAlive u j hu hj
    · intro u v j hu hv
      have hu : (Function.update s.call t .counting u).slot = some j := hu
      have hv : (Function.update s.call t .counting v).slot = some j := hv
      by_cases hut : u = t
      · rw [hut, Function.update_self] at hu
        cases hu
      · by_cases hvt : v = t
        · rw [hvt, Function.update_self] at hv
          cases hv
        · rw [Function.update_of_ne hut] at hu
          rw [Function.update_of_ne hvt] at hv
          exact h.slots.unique u v j hu hv
    · intro u hu
      have hu : Function.update s.call t .counting u = .zombie := hu
      by_cases hut : u = t
      · rw [hut, Function.update_self] at hu
        cases hu
      · rw [Function.update_of_ne hut] at hu
        exact List.mem_cons_of_mem i (h.slots.zombie u hu)
  · constructor
    · intro j
      rw [show ((s.appendTask t i immortal).tasks j).pid = (s.tasks j).pid from
        pid_update (x := x) rfl j, h.pids.owner j]
      exact hmoved CallPc.pidSlot rfl
        (fun pc j hj => CallPc.slot_of_tssSlot (CallPc.tssSlot_of_pidSlot hj)) rfl j
    · intro j k hj hjk
      have hpid : ∀ j, ((s.appendTask t i immortal).tasks j).pid = (s.tasks j).pid :=
        pid_update (x := x) rfl
      rw [hpid] at hj
      rw [hpid, hpid] at hjk
      exact h.pids.unique j k hj hjk
  · have hsel : ∀ j, ((s.appendTask t i immortal).tasks j).tssSel = (s.tasks j).tssSel := by
      intro j
      show (Function.update s.tasks i x j).tssSel = _
      by_cases hji : j = i
      · rw [hji, Function.update_self]
      · rw [Function.update_of_ne hji]
    have hhas := hmoved CallPc.tssSlot rfl (fun pc j hj => CallPc.slot_of_tssSlot hj) rfl
    constructor
    · exact h.gdt.range
    · intro g j
      rw [hsel]
      exact (h.gdt.owner g j).trans (and_congr_right fun _ => hhas j)
    · intro j hj
      rw [hsel]
      exact h.gdt.selector j ((hhas j).mpr hj)
  · refine ⟨fun p => ?_, h.pages.once⟩
    have hpages : (s.call t).pages s.tasks = (s.tasks i).pages := by rw [ht]; rfl
    have hholders : holders s.alive (Function.update s.tasks i x)
        (Function.update s.call t .counting) p + _ = _ := holders_update hdead hothers p
    have hcounting : CallPc.pages (Function.update s.tasks i x) .counting = [] := rfl
    rw [hpages, hcounting, List.count_nil] at hholders
    have hcons : holders (i :: s.alive) (Function.update s.tasks i x)
        (Function.update s.call t .counting) p = x.pages.count p + holders s.alive
          (Function.update s.tasks i x) (Function.update s.call t .counting) p := by
      unfold holders
      rw [List.map_cons, List.sum_cons, Function.update_self, Nat.add_assoc]
    have hx : x.pages = (s.tasks i).pages := rfl
    have hbalance := h.pages.balance p
    show s.pagesTaken p = s.pagesGiven p + holders (i :: s.alive) (Function.update s.tasks i x)
      (Function.update s.call t .counting) p
    rw [hcons, hx]
    omega
  · have hcounting := counting_update s.call t .counting
    rw [if_neg (by rw [ht]; exact nofun), if_pos rfl] at hcounting
    have hcount := h.count
    rw [show (s.appendTask t i immortal).call = Function.update s.call t .counting from rfl,
      show (s.appendTask t i immortal).alive = i :: s.alive from rfl,
      show (s.appendTask t i immortal).taskCount = s.taskCount from rfl, List.length_cons]
    omega

theorem TaskInv.countTask (h : TaskInv s) (ht : s.call t = .counting) : TaskInv (s.countTask t) := by
  have hpages : ∀ u, (Function.update s.call t .idle u).pages s.tasks = (s.call u).pages s.tasks := by
    intro u
    by_cases hut : u = t
    · rw [hut, Function.update_self, ht]
      rfl
    · rw [Function.update_of_ne hut]
  constructor
  · exact h.slots.update nofun nofun
  · exact h.pids.congr (fun _ => rfl) (pidSlot_update (by rw [ht]; rfl))
  · exact h.gdt.congr (fun _ _ => rfl) (tssSlot_update (by rw [ht]; rfl))
  · refine ⟨fun p => (h.pages.balance p).trans ?_, h.pages.once⟩
    exact congrArg (s.pagesGiven p + ·) (holders_congr hpages p).symm
  · have hcounting := counting_update s.call t .idle
    rw [if_pos ht, if_neg nofun] at hcounting
    have hcount := h.count
    rw [show (s.countTask t).call = Function.update s.call t .idle from rfl,
      show (s.countTask t).alive = s.alive from rfl,
      show (s.countTask t).taskCount = s.taskCount + 1 from rfl]
    omega

/-! ## The end of a task -/

theorem TaskInv.killTask (h : TaskInv s) (ht : s.call t = .idle) (i : TaskId) :
    TaskInv (s.killTask t i) := by
  unfold TaskSys.killTask
  split
  · exact h
  · refine h.setCall ?_ ⟨rfl, nofun⟩ nofun
    rw [ht]
    exact ⟨rfl, nofun⟩

theorem TaskInv.killCurrentTask (h : TaskInv s) (ht : s.call t = .idle) :
    TaskInv (s.killCurrentTask t) := by
  let x := { s.tasks t with immortal := false }
  have hfields : ∀ j, (Function.update s.tasks t x j).pages = (s.tasks j).pages ∧
      (Function.update s.tasks t x j).tssSel = (s.tasks j).tssSel ∧
      (Function.update s.tasks t x j).pageDir = (s.tasks j).pageDir ∧
      (Function.update s.tasks t x j).stack0 = (s.tasks j).stack0 := by
    intro j
    by_cases hjt : j = t
    · rw [hjt, Function.update_self]
      exact ⟨rfl, rfl, rfl, rfl⟩
    · rw [Function.update_of_ne hjt]
      exact ⟨rfl, rfl, rfl, rfl⟩
  have hset : TaskInv (s.setTask t x) := by
    constructor
    · exact h.slots
    · exact h.pids.congr (pid_update rfl) fun _ => rfl
    · exact h.gdt.congr (fun j _ => (hfields j).2.1) fun _ => rfl
    · refine ⟨fun p => (h.pages.balance p).trans ?_, h.pages.once⟩
      have hcalls : ∀ pc : CallPc, pc.pages (Function.update s.tasks t x) = pc.pages s.tasks := by
        intro pc
        cases pc <;> simp only [CallPc.pages, hfields]
      show _ = s.pagesGiven p + holders s.alive (Function.update s.tasks t x) s.call p
      unfold holders
      simp only [hfields, hcalls]
    · exact h.count
  refine hset.setCall ?_ ⟨rfl, fun hc => by cases hc⟩ fun hc => by cases hc
  show (s.call t).slot = none ∧ s.call t ≠ .counting
  rw [ht]
  exact ⟨rfl, fun hc => by cases hc⟩

/-- What `reclaim_task` leaves, field by field. -/
theorem reclaimTask_eq (s : TaskSys) (i : TaskId) : s.reclaimTask i =
    { s with
      tasks := Function.update s.tasks i { s.tasks i with pid := 0 }
      gdt := Function.update s.gdt ((s.tasks i).tssSel / 8) none
      taskCount := s.taskCount - 1
      pagesGiven := (s.reclaimTask i).pagesGiven
      alive := s.alive.erase i
      call := Function.update s.call i .idle } := by
  unfold reclaimTask
  dsimp only
  rw [givePages_eq]
  rfl

theorem pagesGiven_reclaimTask (s : TaskSys) (i : TaskId) (p : ℕ) :
    (s.reclaimTask i).pagesGiven p = s.pagesGiven p + (s.tasks i).pages.count p := by
  show (givePages _ _).pagesGiven p = _
  rw [pagesGiven_givePages]
  simp only [TaskSlot.pages, List.count_append]
  omega

section Reclaim

variable {alive : List TaskId} {tasks : TaskId → TaskSlot} {call : TaskId → CallPc}
  {gdt : ℕ → Option TaskId}

theorem SlotsInv.reclaim (h : SlotsInv alive call) :
    SlotsInv (alive.erase i) (Function.update call i .idle) where
  nodup := h.nodup.erase i
  notAlive u j hu hj := by
    rw [h.nodup.mem_erase_iff] at hj
    by_cases hui : u = i
    · rw [hui, Function.update_self] at hu
      cases hu
    · rw [Function.update_of_ne hui] at hu
      exact h.notAlive u j hu hj.2
  unique u v j hu hv := by
    by_cases hui : u = i
    · rw [hui, Function.update_self] at hu
      cases hu
    · by_cases hvi : v = i
      · rw [hvi, Function.update_self] at hv
        cases hv
      · rw [Function.update_of_ne hui] at hu
        rw [Function.update_of_ne hvi] at hv
        exact h.unique u v j hu hv
  zombie u hu := by
    rw [h.nodup.mem_erase_iff]
    by_cases hui : u = i
    · rw [hui, Function.update_self] at hu
      cases hu
    · rw [Function.update_of_ne hui] at hu
      exact ⟨hui, h.zombie u hu⟩

theorem PidsInv.reclaim (h : PidsInv alive tasks call) (halive : alive.Nodup)
    (hno : ∀ u, (call u).slot ≠ some i) (hslot : (call i).pidSlot = none) (hx : x.pid = 0) :
    PidsInv (alive.erase i) (Function.update tasks i x) (Function.update call i .idle) where
  owner j := by
    have hcall : ∀ u, (Function.update call i .idle u).pidSlot = (call u).pidSlot :=
      pidSlot_update hslot.symm
    simp only [halive.mem_erase_iff, hcall]
    by_cases hji : j = i
    · rw [hji, Function.update_self]
      refine ⟨fun hne => absurd hx hne, ?_⟩
      rintro (hj | ⟨u, hu⟩)
      · exact absurd rfl hj.1
      · exact absurd (CallPc.slot_of_tssSlot (CallPc.tssSlot_of_pidSlot hu)) (hno u)
    · rw [Function.update_of_ne hji, h.owner j]
      exact or_congr_left (and_iff_right hji).symm
  unique j k hj hjk := by
    have hji : j ≠ i := by
      intro hji
      rw [hji, Function.update_self] at hj
      exact hj hx
    rw [Function.update_of_ne hji] at hj hjk
    by_cases hki : k = i
    · rw [hki, Function.update_self, hx] at hjk
      exact absurd hjk hj
    · rw [Function.update_of_ne hki] at hjk
      exact h.unique j k hj hjk

/-- The descriptor of `i` is cleared. -/
theorem GdtInv.reclaim (h : GdtInv gdt alive tasks call) (halive : alive.Nodup) (hi : i ∈ alive)
    (hno : ∀ u, (call u).slot ≠ some i) (hslot : (call i).tssSlot = none)
    (hx : x.tssSel = (tasks i).tssSel) :
    GdtInv (Function.update gdt ((tasks i).tssSel / 8) none) (alive.erase i)
      (Function.update tasks i x) (Function.update call i .idle) := by
  obtain ⟨g, hg⟩ := h.selector i (Or.inl hi)
  have hgi : gdt g = some i := (h.owner g i).mpr ⟨hg, Or.inl hi⟩
  have hdiv : (tasks i).tssSel / 8 = g := by omega
  have hsel : ∀ j, (Function.update tasks i x j).tssSel = (tasks j).tssSel := by
    intro j
    by_cases hji : j = i
    · rw [hji, Function.update_self, hx]
    · rw [Function.update_of_ne hji]
  have hcall : ∀ u, (Function.update call i .idle u).tssSlot = (call u).tssSlot :=
    tssSlot_update hslot.symm
  rw [hdiv]
  constructor
  · intro g' j hg'
    by_cases hgg : g' = g
    · rw [hgg, Function.update_self] at hg'
      cases hg'
    · rw [Function.update_of_ne hgg] at hg'
      exact h.range g' j hg'
  · intro g' j
    simp only [halive.mem_erase_iff, hcall, hsel]
    by_cases hgg : g' = g
    · rw [hgg, Function.update_self]
      refine ⟨nofun, ?_⟩
      intro ⟨hj, hown⟩
      have hgj : gdt g = some j := (h.owner g j).mpr ⟨hj, hown.imp_left And.right⟩
      cases hgi.symm.trans hgj
      rcases hown with hne | ⟨u, hu⟩
      · exact absurd rfl hne.1
      · exact absurd (CallPc.slot_of_tssSlot hu) (hno u)
    · rw [Function.update_of_ne hgg, h.owner g' j]
      refine and_congr_right fun hj => or_congr_left ?_
      have hji : j ≠ i := by
        intro hji
        rw [hji, hg] at hj
        exact hgg (Nat.eq_of_mul_eq_mul_right (by decide) hj).symm
      exact (and_iff_right hji).symm
  · intro j hj
    simp only [halive.mem_erase_iff, hcall] at hj
    rw [hsel]
    exact h.selector j (hj.imp_left And.right)

theorem holders_reclaim (halive : alive.Nodup) (hi : i ∈ alive)
    (hno : ∀ u, (call u).slot ≠ some i) (hslot : (call i).slot = none) (p : ℕ) :
    (tasks i).pages.count p + holders (alive.erase i) (Function.update tasks i x)
      (Function.update call i .idle) p = holders alive tasks call p := by
  obtain ⟨-, -, hpages⟩ := CallPc.of_slot_eq_none hslot tasks
  have hcalls : ∀ u, (Function.update call i .idle u).pages (Function.update tasks i x) =
      (call u).pages tasks := by
    intro u
    by_cases hui : u = i
    · rw [hui, Function.update_self, hpages]
      rfl
    · rw [Function.update_of_ne hui, CallPc.pages_update (hno u)]
  have hrest : (alive.erase i).map (fun j => (Function.update tasks i x j).pages.count p) =
      (alive.erase i).map fun j => (tasks j).pages.count p := by
    apply List.map_congr_left
    intro j hj
    rw [Function.update_of_ne (halive.mem_erase_iff.mp hj).1]
  have herase := List.sum_map_erase (fun j => (tasks j).pages.count p) hi
  unfold holders
  rw [hrest]
  simp only [hcalls]
  omega

end Reclaim

/-- A task that is there, and in no call of `add_task` with a slot of its own, is reclaimed. -/
theorem TaskInv.reclaimTask (h : TaskInv s) (hi : i ∈ s.alive) (hslot : (s.call i).slot = none)
    (hcounting : s.call i ≠ .counting) : TaskInv (s.reclaimTask i) := by
  have hno : ∀ u, (s.call u).slot ≠ some i := fun u hu => h.slots.notAlive u i hu hi
  obtain ⟨hpid, htss, -⟩ := CallPc.of_slot_eq_none hslot s.tasks
  rw [reclaimTask_eq]
  constructor
  · exact h.slots.reclaim
  · exact h.pids.reclaim h.slots.nodup hno hpid rfl
  · exact h.gdt.reclaim h.slots.nodup hi hno htss rfl
  · refine ⟨fun p => ?_, fun p => ?_⟩
    · have hbalance := h.pages.balance p
      have hholders : _ + holders (s.alive.erase i)
          (Function.update s.tasks i { s.tasks i with pid := 0 })
          (Function.update s.call i .idle) p = holders s.alive s.tasks s.call p :=
        holders_reclaim h.slots.nodup hi hno hslot p
      show s.pagesTaken p = (s.reclaimTask i).pagesGiven p + holders (s.alive.erase i)
        (Function.update s.tasks i { s.tasks i with pid := 0 })
        (Function.update s.call i .idle) p
      rw [pagesGiven_reclaimTask]
      omega
    · have honce := h.pages.once p
      show s.pagesTaken p ≤ (s.reclaimTask i).pagesGiven p + 1
      rw [pagesGiven_reclaimTask]
      omega
  · have hupdate := counting_update s.call i .idle
    rw [if_neg hcounting, if_neg nofun] at hupdate
    have hcount := h.count
    have hlength := List.length_erase_of_mem hi
    have hpos := List.length_pos_of_mem hi
    show s.taskCount - 1 + ↑(counting (Function.update s.call i .idle)) = ↑(s.alive.erase i).length
    omega

theorem TaskInv.killed (h : TaskInv s) (ht : s.call t = .killing i)
    (hsafe : i ∈ s.alive ∧ s.call i ≠ .zombie ∧ (s.call i).slot = none ∧ s.call i ≠ .counting) :
    TaskInv (s.killed t i) := by
  obtain ⟨hi, -, hslot, hcounting⟩ := hsafe
  have hold : (s.call t).slot = none ∧ s.call t ≠ .counting := by
    rw [ht]
    exact ⟨rfl, nofun⟩
  unfold TaskSys.killed
  split
  · rename_i hit
    exact h.setCall hold ⟨rfl, nofun⟩ fun _ => hit ▸ hi
  · rename_i hit
    have heq : (s.setCall t .idle).call i = s.call i := Function.update_of_ne hit _ _
    have hidle : TaskInv (s.setCall t .idle) := h.setCall hold ⟨rfl, nofun⟩ nofun
    refine hidle.reclaimTask hi ?_ ?_
    · rw [heq]
      exact hslot
    · rw [heq]
      exact hcounting

end Vmm386.Tasks.TaskSys
