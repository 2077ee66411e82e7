import Vmm386.Tasks.SchedTheorems

/-!
# Runs of the scheduler

Every sequence of calls keeps the tasks on the lists where they belong, and the run queue in
order.
-/

namespace Vmm386.Tasks

namespace Sched

variable {s s' : Sched} {L L' : TaskQueue → List TaskId} {t u : TaskId} {q : TaskQueue}

/-! ## One task changes its list -/

/-- The task `t` goes to the list `dest`, or is on no list any more. -/
theorem Inv.moved {d : Option TaskQueue} (h : s.Inv L) (hlists : s'.Lists L')
    (hmem : ∀ q u, u ∈ L' q ↔ (u ∈ L q ∧ u ≠ t) ∨ (d = some q ∧ u = t))
    (hother : ∀ u, u ≠ t → s'.task u = s.task u)
    (hrun : (s'.task t).flags.running = true ↔ d = some .running)
    (hsusp : s'.Live t ∧ (s'.task t).flags.running = false ↔ d = some .suspended)
    (halive : (s'.task t).flags.running = true → s'.Live t)
    (hpid : (s'.task t).pid ≠ 0) (hcur : s'.currentTask = s.currentTask)
    (hzombies : s'.zombies = s.zombies) (hL : L' .zombie = L .zombie)
    (hdest : d ≠ some .zombie) : s'.Inv L' where
  lists := hlists
  running u := by
    rw [hmem]
    by_cases hu : u = t
    · subst hu
      rw [hrun]
      exact ⟨fun hc => (hc.resolve_left fun hn => hn.2 rfl).1, fun hd => .inr ⟨hd, rfl⟩⟩
    · rw [hother u hu, ← h.running]
      exact ⟨fun hc => (hc.resolve_right fun hn => hu hn.2).1, fun hl => .inl ⟨hl, hu⟩⟩
  suspended u := by
    rw [hmem]
    by_cases hu : u = t
    · subst hu
      rw [hsusp]
      exact ⟨fun hc => (hc.resolve_left fun hn => hn.2 rfl).1, fun hd => .inr ⟨hd, rfl⟩⟩
    · have hlive : s'.Live u ↔ s.Live u := by rw [Live, Live, hother u hu]
      rw [hlive, hother u hu, ← h.suspended]
      exact ⟨fun hc => (hc.resolve_right fun hn => hu hn.2).1, fun hl => .inl ⟨hl, hu⟩⟩
  alive u hu := by
    by_cases hut : u = t
    · subst hut
      exact halive hu
    · rw [hother u hut] at hu
      rw [Live, hother u hut]
      exact h.alive u hu
  zombie u hu := by
    rcases (hmem _ _).mp hu with ⟨hu, hut⟩ | ⟨hd, -⟩
    · rw [hother u hut, hcur]
      exact h.zombie u hu
    · exact absurd hd hdest
  zombies := by rw [hzombies, hL, h.zombies]
  current := by
    by_cases hc : s.currentTask = t
    · rw [hcur, hc]
      exact hpid
    · rw [hcur, hother _ hc]
      exact h.current

/-- A live task is on one list; taken off, it is on none. -/
theorem Inv.exists_removed (h : s.Inv L) (ht : s.Live t) :
    ∃ L₁, (s.removeNode t).Lists L₁ ∧ (∀ q u, u ∈ L₁ q ↔ u ∈ L q ∧ u ≠ t) ∧
      L₁ .zombie = L .zombie := by
  obtain ⟨q, xs, ys, hq, hL⟩ := h.exists_queue ht
  exact ⟨_, h.lists.remove hL, mem_removed h.lists.rep hL, Function.update_of_ne hq.symm _ _⟩

/-- `remove_task`. -/
theorem removeTask_spec (h : s.Inv L) (ht : s.Live t) :
    ∃ L', (s.removeTask t).Inv L' ∧ ∀ q, t ∉ L' q := by
  obtain ⟨L₁, hlists, hmem, hzom⟩ := h.exists_removed ht
  have hself : ((s.removeTask t).task t) =
      { s.task t with flags := { (s.task t).flags with zombie := true, running := false } } :=
    setTask_self (s := s) _
  have hother : ∀ u, u ≠ t → (s.removeTask t).task u = s.task u := fun u hu =>
    setTask_of_ne (s := s) hu
  refine ⟨L₁, h.moved (t := t) (d := none) ⟨hlists.rep, ?_⟩ ?_ hother ?_ ?_ ?_ ?_ rfl rfl hzom
    (fun hc => by cases hc), fun q hq => ((hmem q t).mp hq).2 rfl⟩
  · refine hlists.sorted.imp_of_mem ?_
    intro a b ha hb hle
    rw [hother a ((hmem _ a).mp ha).2, hother b ((hmem _ b).mp hb).2]
    exact hle
  · intro q u
    rw [hmem]
    exact ⟨.inl, fun hc => hc.resolve_right fun hu => by cases hu.1⟩
  · rw [hself]
    exact ⟨(fun hc => by cases hc), fun hc => by cases hc⟩
  · rw [Live, hself]
    exact ⟨fun hc => absurd rfl hc.1.2, fun hc => by cases hc⟩
  · rw [hself]
    intro hc
    cases hc
  · rw [hself]
    exact ht.1

/-- `suspend_task`, the part with interrupts masked. -/
theorem suspendSection_spec (h : s.Inv L) (ht : s.Live t) :
    ∃ L', (s.suspendSection t).Inv L' := by
  obtain ⟨L₁, hlists, hmem, hzom⟩ := h.exists_removed ht
  have hnot : ∀ q, t ∉ L₁ q := fun q hq => ((hmem q t).mp hq).2 rfl
  have hself : ((s.suspendSection t).task t) =
      { s.task t with flags := { (s.task t).flags with running := false } } :=
    setTask_self (s := (s.removeNode t).appendNode .suspended t) _
  have hother : ∀ u, u ≠ t → (s.suspendSection t).task u = s.task u := fun u hu =>
    setTask_of_ne (s := (s.removeNode t).appendNode .suspended t) hu
  have happend := hlists.append hnot (q := .suspended) nofun
  have hmem' : ∀ q u, u ∈ Function.update L₁ .suspended (L₁ .suspended ++ [t]) q ↔
      (u ∈ L q ∧ u ≠ t) ∨ (some TaskQueue.suspended = some q ∧ u = t) := by
    intro q u
    rw [mem_inserted (List.append_nil _).symm, hmem, Option.some.injEq, eq_comm (a := q)]
  refine ⟨_, h.moved (t := t) (d := some .suspended)
    (happend.congr rfl ?_) hmem' hother ?_ ?_ ?_ ?_ rfl rfl hzom nofun⟩
  · intro u hu
    rw [Function.update_of_ne (by decide)] at hu
    rw [hother u ((hmem _ u).mp hu).2]
    rfl
  · rw [hself]
    exact ⟨nofun, nofun⟩
  · rw [Live, hself]
    exact ⟨fun _ => rfl, fun _ => ⟨ht, rfl⟩⟩
  · rw [hself]
    exact nofun
  · rw [hself]
    exact ht.1

/-! ## A task becomes runnable -/

/-- The current task can run, and none that can has a higher priority. -/
def Picked (s : Sched) : Prop :=
  (s.task s.currentTask).flags.running ∧
    ∀ u, (s.task u).flags.running → (s.task u).pri ≤ (s.task s.currentTask).pri

theorem Scheduled.picked (h : Scheduled s s' L L')
    (hpick : s'.currentTask ≠ s.currentTask ∨
      (¬s.Forbidden ∧ ∃ t, (s.task t).flags.running = true)) : s'.Picked := by
  have hforbid : ¬s.Forbidden := by
    intro hf
    rcases hpick with hne | hn
    · exact hne (h.forbidden hf).2
    · exact hn.1 hf
  have hnext := h.next hforbid
  cases hq : L' .running with
  | nil =>
    rw [hq] at hnext
    rcases hpick with hne | ⟨-, t, ht⟩
    · exact absurd hnext hne
    · rw [← h.flags, ← h.inv.running, hq] at ht
      cases ht
  | cons x xs =>
    rw [hq, List.headD_cons] at hnext
    have hsorted := h.inv.lists.sorted
    rw [hq, Sorted, List.pairwise_cons] at hsorted
    rw [Picked, hnext]
    refine ⟨(h.inv.running x).mp (by rw [hq]; exact List.mem_cons_self ..), ?_⟩
    intro u hu
    rw [← h.inv.running, hq] at hu
    rcases List.mem_cons.mp hu with rfl | hu
    · exact le_rfl
    · exact hsorted.1 u hu

/-- The call of `schedule` when a task of priority `pri` becomes runnable. -/
def Preempts (s : Sched) (pri : ℤ) : Prop :=
  (s.task s.currentTask).pri < pri ∧ s.intrNestCount = 0

theorem preempt_cases (h : s.Inv L) (pri : ℤ) :
    ((s.preempt pri).Inv L ∧ (s.preempt pri).task = s.task ∧
      (s.preempt pri).currentTask = s.currentTask ∧ ¬s.Preempts pri) ∨
    (s.Preempts pri ∧ ∃ L', Scheduled s (s.preempt pri) L L') := by
  rw [preempt]
  split
  · rename_i hlt
    split
    · rename_i hnest
      exact .inr ⟨⟨hlt, hnest⟩, schedule_spec h⟩
    · rename_i hnest
      exact .inl ⟨h.congr (fun _ => ⟨rfl, rfl, rfl⟩) rfl rfl rfl, rfl, rfl, fun hp => hnest hp.2⟩
  · rename_i hlt
    exact .inl ⟨h, rfl, rfl, fun hp => hlt hp.1⟩

/-- `schedule` puts `u` back into the run queue. -/
def Requeues (s : Sched) (u : TaskId) : Prop :=
  u = s.currentTask ∧ ¬s.Forbidden ∧ (s.task u).flags.running

/-- A task has been put into the run queue, and `schedule` has been called if need be. -/
structure Woken (s s' : Sched) (t : TaskId) (L : TaskQueue → List TaskId) : Prop where
  inv : s'.Inv L
  self : (s'.task t).flags = { (s.task t).flags with running := true }
  other : ∀ u, u ≠ t → (s'.task u).flags = (s.task u).flags
  picked : s'.currentTask ≠ s.currentTask → s'.Picked
  behind : ∀ u, u = t ∨ (s.Preempts (s.task t).pri ∧ s.Requeues u) →
    (s.task u).timeLeft ≤ 0 → Behind s'.task u (L .running)

/-- The task `t`, which is on no list, comes into the run queue. -/
theorem enqueue_preempt_spec {s₁ : Sched} (h : s.Inv L) {L₁ : TaskQueue → List TaskId}
    (hlists : s₁.Lists L₁) (hmem : ∀ q u, u ∈ L₁ q ↔ u ∈ L q ∧ u ≠ t)
    (hzom : L₁ .zombie = L .zombie) (hother : ∀ u, u ≠ t → s₁.task u = s.task u)
    (hlive : s₁.Live t) (hrun : (s₁.task t).flags.running = true)
    (hcur : s₁.currentTask = s.currentTask) (hzombies : s₁.zombies = s.zombies) :
    ∃ L', Woken s₁ ((s₁.enqueueTask .running t).preempt (s₁.task t).pri) t L' := by
  have hnot : ∀ q, t ∉ L₁ q := fun q hq => ((hmem q t).mp hq).2 rfl
  obtain ⟨htask, hcur₂, hzombies₂, hnest⟩ := enqueueTask_fields (s := s₁) (q := .running) (t := t)
  have hlists₂ := hlists.enqueue hnot
  have hplace : L₁ .running = (place s₁.task t (L₁ .running)).1 ++
      (place s₁.task t (L₁ .running)).2 := place_append.symm
  have hbehind : (s₁.task t).timeLeft ≤ 0 → Behind s₁.task t (Function.update L₁ .running
      ((place s₁.task t (L₁ .running)).1 ++ t :: (place s₁.task t (L₁ .running)).2) .running) := by
    intro htime
    rw [Function.update_self]
    exact behind_place hlists.sorted htime
  have hmem₂ : ∀ q u, u ∈ Function.update L₁ .running
      ((place s₁.task t (L₁ .running)).1 ++ t :: (place s₁.task t (L₁ .running)).2) q ↔
      (u ∈ L q ∧ u ≠ t) ∨ (some TaskQueue.running = some q ∧ u = t) := by
    intro q u
    rw [mem_inserted hplace, hmem, Option.some.injEq, eq_comm (a := q)]
  have hzom₂ : Function.update L₁ .running
      ((place s₁.task t (L₁ .running)).1 ++ t :: (place s₁.task t (L₁ .running)).2) .zombie =
      L .zombie := by
    rw [Function.update_of_ne (by decide)]
    exact hzom
  generalize Function.update L₁ .running _ = L₂ at hlists₂ hbehind hmem₂ hzom₂
  generalize hs₂ : s₁.enqueueTask .running t = s₂ at htask hcur₂ hzombies₂ hnest hlists₂
  have hpreempts : ∀ pri, s₂.Preempts pri ↔ s₁.Preempts pri := fun pri => by
    rw [Preempts, Preempts, htask, hcur₂, hnest]
  have hrequeues : ∀ u, s₂.Requeues u ↔ s₁.Requeues u := fun u => by
    rw [Requeues, Requeues, Forbidden, Forbidden, htask, hcur₂]
  have hinv₂ : s₂.Inv L₂ := by
    refine h.moved hlists₂ hmem₂ ?_ ?_ ?_ ?_ ?_ (hcur₂.trans hcur) (hzombies₂.trans hzombies)
      hzom₂ fun hc => by cases hc
    · intro u hu
      rw [htask]
      exact hother u hu
    · rw [htask, hrun]
      exact ⟨fun _ => rfl, fun _ => rfl⟩
    · rw [htask, hrun]
      exact ⟨(fun hc => by cases hc.2), fun hc => by cases hc⟩
    · intro _
      rw [Live, htask]
      exact hlive
    · rw [htask]
      exact hlive.1
  have hflags : (s₁.task t).flags = { (s₁.task t).flags with running := true } := by
    rw [← hrun]
  rcases preempt_cases hinv₂ (s₁.task t).pri with ⟨hinv, htask', hcur', hno⟩ | ⟨hpre, L', hsched⟩
  · refine ⟨L₂, hinv, ?_, ?_, fun hne => absurd (hcur'.trans hcur₂) hne, ?_⟩
    · rw [htask', htask]
      exact hflags
    · intro u _
      rw [htask', htask]
    rintro u (rfl | ⟨hpre, -⟩) htime
    · rw [htask', htask]
      exact hbehind htime
    · exact absurd ((hpreempts _).mpr hpre) hno
  · refine ⟨L', hsched.inv, ?_, ?_, ?_, ?_⟩
    · rw [hsched.flags, htask]
      exact hflags
    · intro u _
      rw [hsched.flags, htask]
    · intro hne
      exact hsched.picked (.inl fun heq => hne (heq.trans hcur₂))
    · rintro u (rfl | ⟨-, hu⟩) htime
      · -- the woken task stays in its place when the current one is put back
        refine hsched.kept u ?_ ?_
        · rw [htask, ← htask]
          exact htask ▸ hpre.1
        · rw [htask]
          exact hbehind htime
      · obtain ⟨rfl, hforbid, hr⟩ := (hrequeues u).mpr hu
        exact hsched.requeued hforbid hr (by rw [htask]; exact htime)

/-- `wake_task`, the part with interrupts masked. -/
theorem wakeSection_spec (h : s.Inv L) (ht : s.Live t) :
    ∃ L', Woken s (s.wakeSection t) t L' := by
  obtain ⟨L₁, hlists, hmem, hzom⟩ := h.exists_removed ht
  let s₁ := (s.removeNode t).setFlags t { (s.task t).flags with running := true }
  have hself : s₁.task t =
      { s.task t with flags := { (s.task t).flags with running := true } } :=
    setTask_self (s := s.removeNode t) _
  have hother : ∀ u, u ≠ t → s₁.task u = s.task u := fun u hu =>
    setTask_of_ne (s := s.removeNode t) hu
  have hlists₁ : s₁.Lists L₁ := by
    refine hlists.congr rfl ?_
    intro u hu
    rw [hother u ((hmem _ u).mp hu).2]
    rfl
  have hlive : s₁.Live t := by
    rw [Live, hself]
    exact ht
  obtain ⟨L', hinv, hflags, hflags', hpicked, hbehind⟩ :=
    enqueue_preempt_spec h hlists₁ hmem hzom hother hlive (by rw [hself]) rfl rfl
  refine ⟨L', hinv, ?_, ?_, hpicked, ?_⟩
  · exact hflags.trans (by rw [hself])
  · intro u hu
    rw [← hother u hu]
    exact hflags' u hu
  have hpri : ∀ u, (s₁.task u).pri = (s.task u).pri ∧
      (s₁.task u).timeLeft = (s.task u).timeLeft := by
    intro u
    by_cases hu : u = t
    · subst hu
      rw [hself]
      exact ⟨rfl, rfl⟩
    · rw [hother u hu]
      exact ⟨rfl, rfl⟩
  intro u hu htime
  refine hbehind u (hu.imp_right ?_) (by rw [(hpri u).2]; exact htime)
  rintro ⟨hpre, hcur, hforbid, hr⟩
  have hne : s.currentTask ≠ t := by
    intro heq
    rw [Preempts, heq] at hpre
    exact lt_irrefl _ hpre.1
  refine ⟨⟨?_, hpre.2⟩, hcur, ?_, ?_⟩
  · show (s₁.task s.currentTask).pri < _
    rw [(hpri _).1, (hpri _).1]
    exact hpre.1
  · show ¬(0 < (s₁.task s.currentTask).forbidCount ∧ (s₁.task s.currentTask).flags.running = true)
    rw [hother _ hne]
    exact hforbid
  · rw [hcur] at hr ⊢
    rw [hother _ hne]
    exact hr

/-- `append_task` for a place that was not in use. -/
theorem appendTask_spec {x : Task} (h : s.Inv L) (ht : (s.task t).pid = 0) (hpid : x.pid ≠ 0)
    (hz : x.flags.zombie ≠ true) :
    ∃ L', ((s.setTask t x).appendTask t).Inv L' ∧
      (((s.setTask t x).appendTask t).currentTask ≠ s.currentTask →
        ((s.setTask t x).appendTask t).Picked) ∧
      (x.flags.running = true → Woken (s.setTask t x) ((s.setTask t x).appendTask t) t L') := by
  have hnot := h.not_mem_of_free ht
  have hself : (s.setTask t x).task t = x := setTask_self x
  have hother : ∀ u, u ≠ t → (s.setTask t x).task u = s.task u := fun u hu => setTask_of_ne hu
  have hmem : ∀ q u, u ∈ L q ↔ u ∈ L q ∧ u ≠ t := by
    intro q u
    refine ⟨fun hu => ⟨hu, ?_⟩, And.left⟩
    rintro rfl
    exact hnot q hu
  have hlists : (s.setTask t x).Lists L := by
    refine h.lists.congr rfl ?_
    intro u hu
    rw [hother u ((hmem _ u).mp hu).2]
  have hlive : (s.setTask t x).Live t := by
    rw [Live, hself]
    exact ⟨hpid, hz⟩
  rw [appendTask]
  split
  · rename_i hrun
    obtain ⟨L', hwoken⟩ := enqueue_preempt_spec h hlists hmem rfl hother hlive hrun rfl rfl
    exact ⟨L', hwoken.inv, hwoken.picked, fun _ => hwoken⟩
  · rename_i hrun
    rw [Bool.not_eq_true] at hrun
    have happend := hlists.append hnot (q := .suspended) fun hc => by cases hc
    have hmem' : ∀ q u, u ∈ Function.update L .suspended (L .suspended ++ [t]) q ↔
        (u ∈ L q ∧ u ≠ t) ∨ (some TaskQueue.suspended = some q ∧ u = t) := by
      intro q u
      rw [mem_inserted (List.append_nil _).symm, ← hmem, Option.some.injEq, eq_comm (a := q)]
    refine ⟨_, h.moved happend hmem' hother ?_ ?_ ?_ ?_ rfl rfl rfl
      (fun hc => by cases hc),
      fun hne => absurd rfl hne, ?_⟩
    · show ((s.setTask t x).task t).flags.running = true ↔ _
      rw [hrun]
      exact ⟨(fun hc => by cases hc), fun hc => by cases hc⟩
    · exact ⟨fun _ => rfl, fun _ => ⟨hlive, hrun⟩⟩
    · exact fun _ => hlive
    · exact hlive.1
    · intro hx
      rw [hself, hx] at hrun
      cases hrun

/-- `kill_task`. -/
theorem killTask_spec (h : s.Inv L) (ht : s.Live t) : ∃ L', (s.killTask t).Inv L' ∧
    ((s.killTask t).currentTask ≠ s.currentTask → (s.killTask t).Picked) := by
  rw [killTask]
  split
  · exact ⟨L, h, fun hne => absurd rfl hne⟩
  · obtain ⟨L₁, hinv, hnot⟩ := removeTask_spec h ht
    have hself : ((s.removeTask t).task t).flags.zombie = true := by
      rw [removeTask]
      exact congrArg (fun x : Task => x.flags.zombie) (setTask_self (s := s) _)
    by_cases hne : (s.removeTask t).currentTask ≠ t
    · simp only [if_pos hne]
      exact ⟨L₁, hinv.reclaim hself (hnot .zombie) hne, fun hc => absurd rfl hc⟩
    · simp only [if_neg hne]
      obtain ⟨L', hsched⟩ := schedule_spec hinv
      exact ⟨L', hsched.inv, fun hc => hsched.picked (.inl hc)⟩

/-! ## Sequences of calls -/

/-- A new task has been filled in before `append_task` is called. -/
def entry (s : Sched) : SchedOp → Sched
  | .append t x => s.setTask t x
  | _ => s

/-- The call puts `u` into the run queue: the task that it makes runnable, or the current task
when it calls `schedule`. -/
def Enqueues (s : Sched) (op : SchedOp) (u : TaskId) : Prop :=
  match op with
  | .append t _ =>
    (s.task t).flags.running ∧ (u = t ∨ (s.Preempts (s.task t).pri ∧ s.Requeues u))
  | .wake t =>
    (¬(s.task t).flags.running ∧ ¬(s.task t).flags.frozen ∧ ¬(s.task t).flags.zombie) ∧
      (u = t ∨ (s.Preempts (s.task t).pri ∧ s.Requeues u))
  | .wakeSection t => u = t ∨ (s.Preempts (s.task t).pri ∧ s.Requeues u)
  | .schedule => s.Requeues u
  | _ => False

/-- Every live task is on exactly one of the two lists, by its flag, and the run queue has
falling priorities. -/
def Ordered (s : Sched) : Prop :=
  ∃ L, s.nodes.Rep L ∧ Sorted s.task (L .running) ∧
    ∀ t, (t ∈ L .running ↔ s.Live t ∧ (s.task t).flags.running = true) ∧
      (t ∈ L .suspended ↔ s.Live t ∧ (s.task t).flags.running = false)

/-- When the current task changes, and after every call of `schedule` that is not forbidden,
the current task is one of maximal priority. -/
def SwitchesToMax (s : Sched) (op : SchedOp) : Prop :=
  ∀ s', schedStep s op = some s' →
    (s'.currentTask ≠ s.currentTask ∨
      (op = .schedule ∧ ¬s.Forbidden ∧ ∃ t, (s.task t).flags.running = true)) → s'.Picked

/-- A task whose quantum is used up is queued behind all others of its priority. -/
def QueuesBehind (s : Sched) (op : SchedOp) : Prop :=
  ∀ s' u, schedStep s op = some s' → (s.entry op).Enqueues op u →
    ((s.entry op).task u).timeLeft ≤ 0 →
    ∃ L, s'.nodes.Rep L ∧ Behind s'.task u (L .running)

/-- What one call does. -/
structure Stepped (s : Sched) (op : SchedOp) (s' : Sched) (L : TaskQueue → List TaskId) :
    Prop where
  inv : s'.Inv L
  picked : (s'.currentTask ≠ s.currentTask ∨
    (op = .schedule ∧ ¬s.Forbidden ∧ ∃ t, (s.task t).flags.running = true)) → s'.Picked
  behind : ∀ u, (s.entry op).Enqueues op u → ((s.entry op).task u).timeLeft ≤ 0 →
    Behind s'.task u (L .running)

/-- A call that neither switches nor queues a task. -/
theorem Stepped.of_same {op : SchedOp} (hinv : s'.Inv L) (hcur : s'.currentTask = s.currentTask)
    (hop : op ≠ .schedule) (hno : ∀ u, ¬(s.entry op).Enqueues op u) : Stepped s op s' L :=
  ⟨hinv, fun hp => absurd (hp.resolve_left fun hne => hne hcur).1 hop,
    fun u hu => absurd hu (hno u)⟩

/-- `TASK_FROZEN` has no part in it. -/
theorem Inv.setFrozen (h : s.Inv L) (t : TaskId) (frozen : Bool) :
    (s.setFlags t { (s.task t).flags with frozen }).Inv L := by
  generalize hs' : s.setFlags t { (s.task t).flags with frozen } = s'
  have hsame : ∀ u, (s'.task u).pid = (s.task u).pid ∧ (s'.task u).pri = (s.task u).pri ∧
      (s'.task u).flags.running = (s.task u).flags.running ∧
      (s'.task u).flags.zombie = (s.task u).flags.zombie := by
    intro u
    rw [← hs', setFlags]
    by_cases hu : u = t
    · rw [hu, setTask_self]
      exact ⟨rfl, rfl, rfl, rfl⟩
    · rw [setTask_of_ne hu]
      exact ⟨rfl, rfl, rfl, rfl⟩
  have hlive : ∀ u, s'.Live u ↔ s.Live u := fun u => by
    rw [Live, Live, (hsame u).1, (hsame u).2.2.2]
  have hnodes : s'.nodes = s.nodes := hs' ▸ rfl
  have hcur : s'.currentTask = s.currentTask := hs' ▸ rfl
  have hzombies : s'.zombies = s.zombies := hs' ▸ rfl
  refine ⟨h.lists.congr hnodes fun u _ => (hsame u).2.1, ?_, ?_, ?_, ?_,
    hzombies.trans h.zombies, ?_⟩
  · intro u
    rw [(hsame u).2.2.1]
    exact h.running u
  · intro u
    rw [hlive, (hsame u).2.2.1]
    exact h.suspended u
  · intro u hu
    rw [(hsame u).2.2.1] at hu
    exact (hlive u).mpr (h.alive u hu)
  · intro u hu
    rw [(hsame u).2.2.2, (hsame u).1, hcur]
    exact h.zombie u hu
  · rw [hcur, (hsame _).1]
    exact h.current

theorem tick_spec (h : s.Inv L) : s.tick.Inv L ∧ s.tick.currentTask = s.currentTask := by
  have htasks : SameTasks s (s.setTask s.currentTask
      { s.task s.currentTask with timeLeft := (s.task s.currentTask).timeLeft - 1 }) :=
    sameTasks_setTask rfl rfl rfl
  simp only [tick]
  split
  · exact ⟨h.congr htasks rfl rfl rfl, rfl⟩
  · exact ⟨h.congr htasks rfl rfl rfl, rfl⟩

/-- **Step lemma.** Every call keeps the invariant. -/
theorem schedStep_spec {op : SchedOp} (h : s.Inv L) (hstep : schedStep s op = some s') :
    ∃ L', Stepped s op s' L' := by
  cases op with
  | append t x =>
    obtain ⟨⟨ht, hpid, hz⟩, heq⟩ := Option.ite_none_right_eq_some.mp hstep
    cases heq
    obtain ⟨L', hinv, hpicked, hwoken⟩ := appendTask_spec h ht hpid hz
    refine ⟨L', hinv, fun hp => hpicked (hp.resolve_right nofun), ?_⟩
    intro u hu htime
    have hrun : x.flags.running = true := by
      have hrun := hu.1
      rwa [entry, setTask_self] at hrun
    exact (hwoken hrun).behind u hu.2 htime
  | suspend t =>
    obtain ⟨-, heq⟩ := Option.ite_none_right_eq_some.mp hstep
    cases heq
    by_cases hrun : (s.task t).flags.running = true
    · rw [suspendTask, if_pos hrun]
      obtain ⟨L', hinv⟩ := suspendSection_spec h (h.alive t hrun)
      exact ⟨L', .of_same hinv rfl nofun fun _ => id⟩
    · rw [suspendTask, if_neg hrun]
      exact ⟨L, .of_same h rfl nofun fun _ => id⟩
  | suspendSection t =>
    obtain ⟨ht, heq⟩ := Option.ite_none_right_eq_some.mp hstep
    cases heq
    obtain ⟨L', hinv⟩ := suspendSection_spec h ht
    exact ⟨L', .of_same hinv rfl nofun fun _ => id⟩
  | wake t =>
    obtain ⟨hpid, heq⟩ := Option.ite_none_right_eq_some.mp hstep
    cases heq
    by_cases hwake : ¬(s.task t).flags.running ∧ ¬(s.task t).flags.frozen ∧
        ¬(s.task t).flags.zombie
    · simp only [wakeTask, if_pos hwake]
      obtain ⟨L', hinv, -, -, hpicked, hbehind⟩ := wakeSection_spec h ⟨hpid, hwake.2.2⟩
      exact ⟨L', hinv, fun hp => hpicked (hp.resolve_right nofun), fun u hu => hbehind u hu.2⟩
    · simp only [wakeTask, if_neg hwake]
      exact ⟨L, .of_same h rfl nofun fun _ hu => hwake hu.1⟩
  | wakeSection t =>
    obtain ⟨ht, heq⟩ := Option.ite_none_right_eq_some.mp hstep
    cases heq
    obtain ⟨L', hinv, -, -, hpicked, hbehind⟩ := wakeSection_spec h ht
    exact ⟨L', hinv, fun hp => hpicked (hp.resolve_right nofun), hbehind⟩
  | remove t =>
    obtain ⟨ht, heq⟩ := Option.ite_none_right_eq_some.mp hstep
    cases heq
    obtain ⟨L', hinv, -⟩ := removeTask_spec h ht
    exact ⟨L', .of_same hinv rfl nofun fun _ => id⟩
  | kill t =>
    obtain ⟨ht, heq⟩ := Option.ite_none_right_eq_some.mp hstep
    cases heq
    obtain ⟨L', hinv, hpicked⟩ := killTask_spec h ht
    exact ⟨L', hinv, fun hp => hpicked (hp.resolve_right nofun), nofun⟩
  | schedule =>
    cases hstep
    obtain ⟨L', hsched⟩ := schedule_spec h
    refine ⟨L', hsched.inv, fun hp => hsched.picked (hp.imp_right And.right), ?_⟩
    rintro u ⟨rfl, hforbid, hrun⟩ htime
    exact hsched.requeued hforbid hrun htime
  | tick =>
    cases hstep
    exact ⟨L, .of_same (tick_spec h).1 (tick_spec h).2 nofun fun _ => id⟩
  | setForbid count =>
    cases hstep
    exact ⟨L, .of_same (h.congr (sameTasks_setTask rfl rfl rfl) rfl rfl rfl) rfl nofun
      fun _ => id⟩
  | setNest count =>
    cases hstep
    exact ⟨L, .of_same (h.congr (fun _ => ⟨rfl, rfl, rfl⟩) rfl rfl rfl) rfl nofun fun _ => id⟩
  | setFrozen t frozen =>
    cases hstep
    exact ⟨L, .of_same (h.setFrozen t frozen) rfl nofun fun _ => id⟩

/-- The idle task alone can run at first. -/
theorem init_inv : ∃ L, Sched.init.Inv L := by
  let s₀ : Sched :=
    { task := Function.update (fun _ => freeTask) 0 (idle 1 0)
      nodes := Nodes.initLists
      currentTask := 0
      needResched := false
      zombies := 0
      intrNestCount := 0
      timerTicks := 0 }
  have hself : s₀.task 0 = idle 1 0 :=
    Function.update_self (β := fun _ => Task) 0 (idle 1 0) fun _ => freeTask
  have hother : ∀ t, t ≠ 0 → s₀.task t = freeTask := fun t ht =>
    Function.update_of_ne (β := fun _ => Task) ht (idle 1 0) fun _ => freeTask
  have hinit : Sched.init = s₀.enqueueTask .running 0 := by
    show s₀.appendTask 0 = _
    have hrun : (s₀.task 0).flags.running = true := by
      rw [hself]
      rfl
    have hcur : (s₀.enqueueTask .running 0).currentTask = 0 := enqueueTask_fields.2.1
    have htask : (s₀.enqueueTask .running 0).task = s₀.task := enqueueTask_fields.1
    rw [appendTask, if_pos hrun, preempt, hcur, htask]
    exact if_neg (lt_irrefl _)
  have hlists : s₀.Lists fun _ => [] := ⟨Nodes.Rep.init, List.Pairwise.nil⟩
  obtain ⟨htask, hcur, hzombies, -⟩ := enqueueTask_fields (s := s₀) (q := .running) (t := 0)
  have hplace : place s₀.task 0 [] = ([], []) := by
    rw [place]
    split <;> rfl
  have hlists' := hlists.enqueue (t := 0) fun _ => List.not_mem_nil
  simp only [hplace, List.nil_append] at hlists'
  rw [hinit]
  refine ⟨_, hlists', ?_, ?_, ?_, (fun _ hc => by cases hc), ?_, ?_⟩
  · intro t
    rw [Function.update_self, List.mem_singleton, htask]
    by_cases ht : t = 0
    · rw [ht, hself]
      exact ⟨fun _ => rfl, fun _ => rfl⟩
    · rw [hother t ht]
      exact iff_of_false ht fun hc => by cases hc
  · intro t
    rw [Live, htask]
    by_cases ht : t = 0
    · rw [ht, hself]
      exact ⟨fun hc => (List.not_mem_nil hc).elim, fun hc => by cases hc.2⟩
    · rw [hother t ht]
      exact ⟨fun hc => (List.not_mem_nil hc).elim, fun hc => absurd rfl hc.1.1⟩
  · intro t
    rw [Live, htask]
    by_cases ht : t = 0
    · rw [ht, hself]
      exact fun _ => ⟨(fun hc => by cases hc), fun hc => by cases hc⟩
    · rw [hother t ht]
      intro hc
      cases hc
  · exact hzombies
  · rw [hcur, htask]
    show (s₀.task 0).pid ≠ 0
    rw [hself]
    intro hc
    cases hc

theorem Inv.ordered (h : s.Inv L) : s.Ordered := by
  refine ⟨L, h.lists.rep, h.lists.sorted, ?_⟩
  intro t
  rw [h.suspended, h.running]
  exact ⟨⟨fun hrun => ⟨h.alive t hrun, hrun⟩, And.right⟩, Iff.rfl⟩

end Sched

open Runs

/-- **Scheduling.** Whatever the sequence of calls, every live task is on the list that its
flag says, the run queue has falling priorities, the processor goes to tasks of maximal
priority, and a task with no time left is queued behind all others of its priority. -/
theorem sched_runs (ops : List SchedOp) (s : Sched)
    (hrun : run schedStep Sched.init ops = some s) :
    s.Ordered ∧
      Along schedStep (fun s op => s.SwitchesToMax op ∧ s.QueuesBehind op) Sched.init ops := by
  have hkept : Preserves schedStep (fun _ _ => True) fun s => ∃ L, s.Inv L := by
    rintro s op s' ⟨L, h⟩ - hstep
    obtain ⟨L', hs'⟩ := Sched.schedStep_spec h hstep
    exact ⟨L', hs'.inv⟩
  constructor
  · obtain ⟨L, h⟩ := hkept.run Sched.init_inv (along_true _ _) hrun
    exact h.ordered
  · refine hkept.along ?_ Sched.init_inv (along_true _ _)
    rintro s op ⟨L, h⟩ -
    constructor
    · intro s' hstep hp
      obtain ⟨L', hs'⟩ := Sched.schedStep_spec h hstep
      exact hs'.picked hp
    · intro s' u hstep hu htime
      obtain ⟨L', hs'⟩ := Sched.schedStep_spec h hstep
      exact ⟨L', hs'.inv.lists.rep, hs'.behind u hu htime⟩

/-- A task of higher priority than the idle task is made, and woken. -/
def wakeOps : List SchedOp :=
  let flags := { running := false, frozen := false, zombie := false, immortal := false }
  [.append 1 { idle 2 0 with flags, pri := 0 }, .tick, .wake 1]

theorem sched_runs_wake :
    ∃ s, run schedStep Sched.init wakeOps = some s ∧ s.currentTask = 1 ∧ s.Ordered :=
  ⟨_, rfl, rfl, (sched_runs wakeOps _ rfl).1⟩

end Vmm386.Tasks
