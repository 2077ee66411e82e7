import Mathlib.Data.List.TakeWhile
import Vmm386.Tasks.Sched

/-!
# The run queue

What the operations of the scheduler do to its lists, and what every sequence of them keeps.
-/

namespace Vmm386.Tasks

/-! ## The place of a task in a run queue -/

section Place

variable (task : TaskId → Task) (t : TaskId)

/-- Where `enqueue_task` wedges in `t`: the tasks before it and behind it. -/
def place (xs : List TaskId) : List TaskId × List TaskId :=
  if (task t).timeLeft ≤ 0 then
    (xs.takeWhile fun u => (task t).pri ≤ (task u).pri,
      xs.dropWhile fun u => (task t).pri ≤ (task u).pri)
  else
    let ys := xs.dropWhile fun u => (task t).pri < (task u).pri
    let full u := decide ((task u).pri = (task t).pri ∧ 0 < (task u).timeLeft)
    ((xs.takeWhile fun u => (task t).pri < (task u).pri) ++ ys.takeWhile full, ys.dropWhile full)

/-- The list has falling priorities. -/
def Sorted (xs : List TaskId) : Prop := xs.Pairwise fun a b => (task b).pri ≤ (task a).pri

/-- `t` is in the list, behind all others of its priority. -/
def Behind (xs : List TaskId) : Prop :=
  ∃ a b, xs = a ++ t :: b ∧ ∀ u ∈ b, (task u).pri < (task t).pri

variable {task t} {xs ys : List TaskId}

theorem place_append : (place task t xs).1 ++ (place task t xs).2 = xs := by
  rw [place]
  split
  · exact List.takeWhile_append_dropWhile
  · simp only
    rw [List.append_assoc, List.takeWhile_append_dropWhile, List.takeWhile_append_dropWhile]

theorem place_before : ∀ u ∈ (place task t xs).1, (task t).pri ≤ (task u).pri := by
  intro u hu
  rw [place] at hu
  split at hu
  · simpa using List.mem_takeWhile_imp hu
  · rcases List.mem_append.mp hu with hu | hu
    · have hlt := List.mem_takeWhile_imp hu
      exact Int.le_of_lt (of_decide_eq_true hlt)
    · have heq := List.mem_takeWhile_imp hu
      exact le_of_eq (of_decide_eq_true heq).1.symm

/-- What is left of a sorted list behind the tasks with high priorities. -/
theorem Sorted.dropWhile_lt (h : Sorted task xs) {p : TaskId → Bool} {b : ℤ}
    (hp : ∀ u, p u = false → (task u).pri < b) :
    ∀ u ∈ xs.dropWhile p, (task u).pri < b := by
  induction xs with
  | nil => exact nofun
  | cons a xs ih =>
    rw [Sorted, List.pairwise_cons] at h
    rw [List.dropWhile_cons]
    split
    · exact ih h.2
    · rename_i ha
      have hlt := hp a (by simpa using ha)
      intro u hu
      rcases List.mem_cons.mp hu with rfl | hu
      · exact hlt
      · exact Int.lt_of_le_of_lt (h.1 u hu) hlt

theorem place_after (h : Sorted task xs) :
    (∀ u ∈ (place task t xs).2, (task u).pri ≤ (task t).pri) ∧
      ((task t).timeLeft ≤ 0 → ∀ u ∈ (place task t xs).2, (task u).pri < (task t).pri) := by
  rw [place]
  split
  · have hlt := h.dropWhile_lt (p := fun u => decide ((task t).pri ≤ (task u).pri))
      (b := (task t).pri) fun u hu => Int.not_le.mp (of_decide_eq_false hu)
    exact ⟨fun u hu => Int.le_of_lt (hlt u hu), fun _ => hlt⟩
  · rename_i hpos
    refine ⟨?_, fun hle => absurd hle hpos⟩
    have hlt := h.dropWhile_lt (p := fun u => decide ((task t).pri < (task u).pri))
      (b := (task t).pri + 1) fun u hu => by
        have := of_decide_eq_false hu
        omega
    intro u hu
    have := hlt u ((List.dropWhile_suffix _).subset hu)
    omega

theorem sorted_place (h : Sorted task xs) :
    Sorted task ((place task t xs).1 ++ t :: (place task t xs).2) := by
  have hafter := (place_after (t := t) h).1
  have hbefore : ∀ u ∈ (place task t xs).1, (task t).pri ≤ (task u).pri := place_before
  have hsplit : xs = (place task t xs).1 ++ (place task t xs).2 := place_append.symm
  rw [hsplit] at h
  generalize place task t xs = p at *
  rw [Sorted, List.pairwise_append] at h ⊢
  refine ⟨h.1, List.pairwise_cons.mpr ⟨hafter, h.2.1⟩, ?_⟩
  intro a ha b hb
  rcases List.mem_cons.mp hb with rfl | hb
  · exact hbefore a ha
  · exact h.2.2 a ha b hb

theorem Behind.congr {task' : TaskId → Task} (h : Behind task t xs)
    (hpri : ∀ u, (task' u).pri = (task u).pri) : Behind task' t xs := by
  obtain ⟨a, b, hab, hb⟩ := h
  refine ⟨a, b, hab, ?_⟩
  intro u hu
  rw [hpri, hpri]
  exact hb u hu

/-- Where `enqueue_task` puts a task that has no time left. -/
theorem behind_place (h : Sorted task xs) (ht : (task t).timeLeft ≤ 0) :
    Behind task t ((place task t xs).1 ++ t :: (place task t xs).2) :=
  ⟨_, _, rfl, (place_after h).2 ht⟩

/-- Another task of lower priority comes in. -/
theorem Behind.insert {u : TaskId} (h : Behind task t (xs ++ ys))
    (hu : (task u).pri < (task t).pri) : Behind task t (xs ++ u :: ys) := by
  obtain ⟨a, b, hab, hb⟩ := h
  rcases List.append_eq_append_iff.mp hab with ⟨c, rfl, rfl⟩ | ⟨c, rfl, hc⟩
  · exact ⟨xs ++ u :: c, b, by simp, hb⟩
  · cases c with
    | nil =>
      rw [List.nil_append] at hc
      subst hc
      exact ⟨a ++ [u], b, by simp, hb⟩
    | cons d c =>
      obtain ⟨rfl, rfl⟩ := List.cons_eq_cons.mp hc
      refine ⟨a, c ++ u :: ys, by simp, ?_⟩
      intro v hv
      rcases List.mem_append.mp hv with hv | hv
      · exact hb v (List.mem_append_left _ hv)
      · rcases List.mem_cons.mp hv with rfl | hv
        · exact hu
        · exact hb v (List.mem_append_right _ hv)

/-- Another task goes. -/
theorem Behind.erase {u : TaskId} (h : Behind task t (xs ++ u :: ys)) (hne : u ≠ t) :
    Behind task t (xs ++ ys) := by
  obtain ⟨a, b, hab, hb⟩ := h
  rcases List.append_eq_append_iff.mp hab with ⟨c, rfl, hc⟩ | ⟨c, rfl, hc⟩
  · cases c with
    | nil =>
      obtain ⟨rfl, rfl⟩ := List.cons_eq_cons.mp hc
      exact absurd rfl hne
    | cons d c =>
      obtain ⟨rfl, rfl⟩ := List.cons_eq_cons.mp hc
      exact ⟨xs ++ c, b, by simp, hb⟩
  · cases c with
    | nil =>
      obtain ⟨rfl, rfl⟩ := List.cons_eq_cons.mp hc
      exact absurd rfl hne
    | cons d c =>
      obtain ⟨rfl, rfl⟩ := List.cons_eq_cons.mp hc
      refine ⟨a, c ++ ys, by simp, ?_⟩
      intro v hv
      apply hb v
      rcases List.mem_append.mp hv with hv | hv
      · exact List.mem_append_left _ hv
      · exact List.mem_append_right _ (List.mem_cons_of_mem u hv)

end Place

namespace Sched

variable {s : Sched} {L : TaskQueue → List TaskId} {t u : TaskId} {q : TaskQueue}

@[simp] theorem setTask_self (x : Task) : (s.setTask t x).task t = x :=
  Function.update_self (β := fun _ => Task) t x s.task

theorem setTask_of_ne {x : Task} (h : u ≠ t) : (s.setTask t x).task u = s.task u :=
  Function.update_of_ne (β := fun _ => Task) h x s.task

/-! ## The lists -/

/-- The lists of tasks are `L`, and the run queue is in order. -/
structure Lists (s : Sched) (L : TaskQueue → List TaskId) : Prop where
  rep : s.nodes.Rep L
  sorted : Sorted s.task (L .running)

theorem Lists.congr {s' : Sched} (h : s.Lists L) (hnodes : s'.nodes = s.nodes)
    (hpri : ∀ t ∈ L .running, (s'.task t).pri = (s.task t).pri) : s'.Lists L := by
  refine ⟨hnodes ▸ h.rep, h.sorted.imp_of_mem ?_⟩
  intro a b ha hb hle
  rwa [hpri a ha, hpri b hb]

theorem skip_tail {p : Task → Bool} {k : ℕ} (h : s.nodes.succ (.tail q) = none) :
    s.skip p (k + 1) (.tail q) = .tail q := by
  simp only [skip, h]

theorem skip_elem {p : Task → Bool} {k : ℕ} {y : TaskNode}
    (h : s.nodes.succ (.elem t) = some y) :
    s.skip p (k + 1) (.elem t) = if p (s.task t) then s.skip p k y else .elem t := by
  simp only [skip, h]

theorem skip_firstNode {p : Task → Bool} {xs ys : List TaskId} {k : ℕ} (h : s.nodes.Rep L)
    (hq : L q = xs ++ ys) (hk : ys.length < k) :
    s.skip p k (Nodes.firstNode q ys) =
      Nodes.firstNode q (ys.dropWhile fun u => p (s.task u)) := by
  induction ys generalizing xs k with
  | nil =>
    cases k with
    | zero => rfl
    | succ k =>
      rw [Nodes.firstNode_nil, skip_tail (h.last q)]
      rfl
  | cons a ys ih =>
    cases k with
    | zero => exact absurd hk (Nat.not_lt_zero _)
    | succ k =>
      have hnext : L q = (xs ++ [a]) ++ ys := by
        rw [hq, List.append_assoc]
        rfl
      have hsucc := (h.adj hnext).1
      rw [Nodes.lastNode_concat] at hsucc
      rw [Nodes.firstNode_cons, skip_elem hsucc, List.dropWhile_cons]
      split
      · exact ih hnext (by simpa using hk)
      · rfl

theorem length_le (h : s.nodes.Rep L) (q : TaskQueue) : (L q).length ≤ MAX_TASKS := by
  have hcard := (h.nodup q).length_le_card
  rwa [Fintype.card_fin] at hcard

/-- `enqueue_task` finds the place of the task. -/
theorem enqueueTask_eq (h : s.nodes.Rep L) :
    s.enqueueTask q t = { s with
      nodes := s.nodes.insertNode (.elem t) (Nodes.lastNode q (place s.task t (L q)).1) } := by
  have hlen := length_le h q
  have hhead := (h.adj (List.nil_append (L q)).symm).1
  rw [Nodes.lastNode_nil] at hhead
  rw [enqueueTask, hhead]
  have hsplit : L q = (place s.task t (L q)).1 ++ (place s.task t (L q)).2 := place_append.symm
  have hpred := (h.adj hsplit).2
  have hskip : (if (s.task t).timeLeft ≤ 0 then
        s.skip (fun u => (s.task t).pri ≤ u.pri) (MAX_TASKS + 1) (Nodes.firstNode q (L q))
      else
        s.skip (fun u => u.pri = (s.task t).pri ∧ 0 < u.timeLeft) (MAX_TASKS + 1)
          (s.skip (fun u => (s.task t).pri < u.pri) (MAX_TASKS + 1) (Nodes.firstNode q (L q)))) =
      Nodes.firstNode q (place s.task t (L q)).2 := by
    rw [place]
    split
    · exact skip_firstNode h (List.nil_append _).symm (by omega)
    · -- the two loops one after the other
      have hfirst : L q = (L q).takeWhile (fun u => (s.task t).pri < (s.task u).pri) ++
          (L q).dropWhile (fun u => (s.task t).pri < (s.task u).pri) :=
        List.takeWhile_append_dropWhile.symm
      have hle := (List.dropWhile_suffix
        (fun u => decide ((s.task t).pri < (s.task u).pri)) (l := L q)).length_le
      rw [skip_firstNode (p := fun u => decide ((s.task t).pri < u.pri)) h
        (List.nil_append _).symm (by omega)]
      exact skip_firstNode (p := fun u => decide (u.pri = (s.task t).pri ∧ 0 < u.timeLeft)) h
        hfirst (by omega)
  simp only [hskip, hpred, Option.getD_some]

@[simp] theorem enqueueTask_fields : (s.enqueueTask q t).task = s.task ∧
    (s.enqueueTask q t).currentTask = s.currentTask ∧
    (s.enqueueTask q t).zombies = s.zombies ∧
    (s.enqueueTask q t).intrNestCount = s.intrNestCount := by
  rw [enqueueTask]
  split <;> exact ⟨rfl, rfl, rfl, rfl⟩

/-- `enqueue_task` on the run queue. -/
theorem Lists.enqueue (h : s.Lists L) (ht : ∀ q, t ∉ L q) :
    let L' := Function.update L .running
      ((place s.task t (L .running)).1 ++ t :: (place s.task t (L .running)).2)
    (s.enqueueTask .running t).Lists L' := by
  intro L'
  refine ⟨?_, ?_⟩
  · rw [enqueueTask_eq h.rep]
    exact h.rep.insertNode ht place_append.symm
  · rw [enqueueTask_fields.1]
    show Sorted s.task (Function.update L _ _ _)
    rw [Function.update_self]
    exact sorted_place h.sorted

/-- `append_node` on one of the other lists. -/
theorem Lists.append (h : s.Lists L) (ht : ∀ q, t ∉ L q) (hq : q ≠ .running) :
    (s.appendNode q t).Lists (Function.update L q (L q ++ [t])) := by
  refine ⟨h.rep.appendNode ht q, ?_⟩
  rw [Function.update_of_ne hq.symm]
  exact h.sorted

/-- `remove_node`. -/
theorem Lists.remove {xs ys : List TaskId} (h : s.Lists L) (hq : L q = xs ++ t :: ys) :
    (s.removeNode t).Lists (Function.update L q (xs ++ ys)) := by
  refine ⟨h.rep.removeNode hq, ?_⟩
  by_cases heq : q = .running
  · subst heq
    rw [Function.update_self]
    have hsorted := h.sorted
    rw [hq] at hsorted
    exact hsorted.sublist ((List.sublist_cons_self t ys).append_left xs)
  · rw [Function.update_of_ne (Ne.symm heq)]
    exact h.sorted

/-- A task leaves its list. -/
theorem mem_removed {xs ys : List TaskId} (h : s.nodes.Rep L) (hq : L q = xs ++ t :: ys)
    (q' : TaskQueue) (u : TaskId) :
    u ∈ Function.update L q (xs ++ ys) q' ↔ u ∈ L q' ∧ u ≠ t := by
  have htq : t ∈ L q := by
    rw [hq]
    exact List.mem_append_right _ (List.mem_cons_self ..)
  by_cases heq : q' = q
  · subst heq
    have hnodup := h.nodup q'
    rw [hq, List.nodup_middle, List.nodup_cons] at hnodup
    rw [Function.update_self, hq, List.mem_append, List.mem_append, List.mem_cons]
    constructor
    · intro hu
      exact ⟨hu.imp_right .inr, fun hut => hnodup.1 (List.mem_append.mpr (hut ▸ hu))⟩
    · rintro ⟨hu | hu | hu, hne⟩
      · exact .inl hu
      · exact absurd hu hne
      · exact .inr hu
  · rw [Function.update_of_ne heq]
    exact ⟨fun hu => ⟨hu, fun hut => heq (h.apart q' q t (hut ▸ hu) htq)⟩, And.left⟩

/-- A task comes into a list. -/
theorem mem_inserted {xs ys : List TaskId} (hq : L q = xs ++ ys) (q' : TaskQueue) (u : TaskId) :
    u ∈ Function.update L q (xs ++ t :: ys) q' ↔ u ∈ L q' ∨ (q' = q ∧ u = t) := by
  by_cases heq : q' = q
  · subst heq
    rw [Function.update_self, hq, List.mem_append, List.mem_append, List.mem_cons]
    constructor
    · rintro (hu | hu | hu)
      · exact .inl (.inl hu)
      · exact .inr ⟨rfl, hu⟩
      · exact .inl (.inr hu)
    · rintro ((hu | hu) | ⟨-, hu⟩)
      · exact .inl hu
      · exact .inr (.inr hu)
      · exact .inr (.inl hu)
  · rw [Function.update_of_ne heq]
    exact ⟨.inl, fun hu => hu.resolve_right fun hc => heq hc.1⟩

/-! ## The invariant -/

/-- The tasks are on the lists where they belong. -/
structure Inv (s : Sched) (L : TaskQueue → List TaskId) : Prop where
  lists : s.Lists L
  running : ∀ t, t ∈ L .running ↔ (s.task t).flags.running = true
  suspended : ∀ t, t ∈ L .suspended ↔ s.Live t ∧ (s.task t).flags.running = false
  alive : ∀ t, (s.task t).flags.running = true → s.Live t
  zombie : ∀ t ∈ L .zombie,
    (s.task t).flags.zombie = true ∧ (s.task t).pid ≠ 0 ∧ t ≠ s.currentTask
  zombies : s.zombies = (L .zombie).length
  current : (s.task s.currentTask).pid ≠ 0

/-- The tasks have kept what the lists depend on. -/
def SameTasks (s s' : Sched) : Prop :=
  ∀ t, (s'.task t).pid = (s.task t).pid ∧ (s'.task t).flags = (s.task t).flags ∧
    (s'.task t).pri = (s.task t).pri

theorem SameTasks.live {s' : Sched} (h : SameTasks s s') : s'.Live t ↔ s.Live t := by
  rw [Live, Live, (h t).1, (h t).2.1]

theorem sameTasks_setTask {task : Task} (hpid : task.pid = (s.task t).pid)
    (hflags : task.flags = (s.task t).flags) (hpri : task.pri = (s.task t).pri) :
    SameTasks s (s.setTask t task) := by
  intro u
  by_cases hu : u = t
  · subst hu
    rw [setTask_self]
    exact ⟨hpid, hflags, hpri⟩
  · rw [setTask_of_ne hu]
    exact ⟨rfl, rfl, rfl⟩

theorem SameTasks.trans {s' s'' : Sched} (h : SameTasks s s') (h' : SameTasks s' s'') :
    SameTasks s s'' :=
  fun t => ⟨(h' t).1.trans (h t).1, (h' t).2.1.trans (h t).2.1, (h' t).2.2.trans (h t).2.2⟩

theorem Inv.congr {s' : Sched} (h : s.Inv L) (htasks : SameTasks s s')
    (hnodes : s'.nodes = s.nodes) (hcurrent : s'.currentTask = s.currentTask)
    (hzombies : s'.zombies = s.zombies) : s'.Inv L where
  lists := h.lists.congr hnodes fun t _ => (htasks t).2.2
  running t := by rw [(htasks t).2.1, h.running]
  suspended t := by rw [(htasks t).2.1, htasks.live, h.suspended]
  alive t ht := by
    rw [(htasks t).2.1] at ht
    exact htasks.live.mpr (h.alive t ht)
  zombie t ht := by
    rw [(htasks t).1, (htasks t).2.1, hcurrent]
    exact h.zombie t ht
  zombies := hzombies.trans h.zombies
  current := by
    rw [hcurrent, (htasks _).1]
    exact h.current

/-- A dead task is on no list of live ones. -/
theorem Inv.not_mem_of_zombie (h : s.Inv L) (ht : (s.task t).flags.zombie = true) :
    t ∉ L .running ∧ t ∉ L .suspended := by
  constructor
  · intro hmem
    exact (h.alive t ((h.running t).mp hmem)).2 ht
  · intro hmem
    exact ((h.suspended t).mp hmem).1.2 ht

/-- A live task is on one of the lists. -/
theorem Inv.exists_queue (h : s.Inv L) (ht : s.Live t) :
    ∃ q xs ys, q ≠ .zombie ∧ L q = xs ++ t :: ys := by
  by_cases hrun : (s.task t).flags.running = true
  · obtain ⟨xs, ys, hq⟩ := List.append_of_mem ((h.running t).mpr hrun)
    exact ⟨.running, xs, ys, nofun, hq⟩
  · obtain ⟨xs, ys, hq⟩ :=
      List.append_of_mem ((h.suspended t).mpr ⟨ht, Bool.eq_false_iff.mpr hrun⟩)
    exact ⟨.suspended, xs, ys, nofun, hq⟩

/-- A place that is not in use is on no list. -/
theorem Inv.not_mem_of_free (h : s.Inv L) (ht : (s.task t).pid = 0) : ∀ q, t ∉ L q := by
  intro q hmem
  cases q with
  | running => exact (h.alive t ((h.running t).mp hmem)).1 ht
  | suspended => exact ((h.suspended t).mp hmem).1.1 ht
  | zombie => exact (h.zombie t hmem).2.1 ht

/-! ## `schedule` -/

/-- The place of a dead task is free again. -/
theorem Inv.reclaim (h : s.Inv L) (hz : (s.task t).flags.zombie = true) (hnot : t ∉ L .zombie)
    (hne : s.currentTask ≠ t) : (s.reclaimTask t).Inv L := by
  have hself : (s.reclaimTask t).task t = { s.task t with pid := 0 } := setTask_self _
  have hother : ∀ u, u ≠ t → (s.reclaimTask t).task u = s.task u := fun u hu => setTask_of_ne hu
  have hflags : ∀ u, ((s.reclaimTask t).task u).flags = (s.task u).flags := by
    intro u
    by_cases hu : u = t
    · rw [hu, hself]
    · rw [hother u hu]
  have hlive : ∀ u, (s.reclaimTask t).Live u ↔ s.Live u := by
    intro u
    by_cases hu : u = t
    · rw [Live, Live, hflags, hu]
      exact iff_of_false (fun hl => hl.2 hz) fun hl => hl.2 hz
    · rw [Live, Live, hother u hu]
  refine ⟨h.lists.congr rfl ?_, ?_, ?_, ?_, ?_, h.zombies, ?_⟩
  · intro u _
    by_cases hu : u = t
    · rw [hu, hself]
    · rw [hother u hu]
  · intro u
    rw [hflags]
    exact h.running u
  · intro u
    rw [hflags, hlive]
    exact h.suspended u
  · intro u hu
    rw [hflags] at hu
    exact (hlive u).mpr (h.alive u hu)
  · intro u hu
    have hut : u ≠ t := by
      rintro rfl
      exact hnot hu
    rw [hother u hut]
    exact h.zombie u hu
  · show ((s.reclaimTask t).task s.currentTask).pid ≠ 0
    rw [hother _ hne]
    exact h.current

/-- The dead tasks go, one after the other, and nothing else changes. -/
theorem reclaimZombies_spec {zs : List TaskId} (h : s.Inv L) (hzs : L .zombie = zs) :
    let s' := reclaimZombies zs.length s
    s'.Inv (Function.update L .zombie []) ∧ s'.currentTask = s.currentTask ∧
      ∀ t, ∃ pid, s'.task t = { s.task t with pid } := by
  intro s'
  induction zs generalizing s L with
  | nil =>
    have hL : Function.update L .zombie [] = L := by
      rw [← hzs]
      exact Function.update_eq_self ..
    rw [hL]
    exact ⟨h, rfl, fun t => ⟨_, rfl⟩⟩
  | cons z zs ih =>
    have hhead := (h.lists.rep.adj (List.nil_append (L .zombie)).symm).1
    rw [Nodes.lastNode_nil, hzs, Nodes.firstNode_cons] at hhead
    let s₁ : Sched := { s.removeNode z with zombies := zs.length }
    have hstep : s' = reclaimZombies zs.length (s₁.reclaimTask z) := by
      show reclaimZombies (zs.length + 1) s = _
      simp only [reclaimZombies, hhead]
      rfl
    have hz := h.zombie z (by rw [hzs]; exact List.mem_cons_self ..)
    have hzs' : L .zombie = [] ++ z :: zs := hzs
    have hremoved := mem_removed h.lists.rep hzs'
    have hinv : s₁.Inv (Function.update L .zombie zs) := by
      refine ⟨(h.lists.remove hzs').congr rfl fun _ _ => rfl, h.running, h.suspended,
        h.alive, ?_, ?_, h.current⟩
      · intro t ht
        exact h.zombie t ((hremoved .zombie t).mp ht).1
      · rw [Function.update_self]
    have hnot : z ∉ Function.update L .zombie zs .zombie := fun hmem =>
      ((hremoved .zombie z).mp hmem).2 rfl
    obtain ⟨hinv', hcur, hpid⟩ :=
      ih (hinv.reclaim hz.1 hnot hz.2.2.symm) (Function.update_self ..)
    rw [hstep]
    refine ⟨?_, hcur, ?_⟩
    · rwa [Function.update_idem] at hinv'
    · intro t
      obtain ⟨pid, heq⟩ := hpid t
      by_cases ht : t = z
      · subst ht
        exact ⟨pid, by rw [heq, reclaimTask, setTask_self]; rfl⟩
      · exact ⟨pid, by rw [heq, reclaimTask, setTask_of_ne ht]; rfl⟩

/-- A task that can run is queued again, at the end of its priority. -/
theorem requeue_spec (h : s.Inv L) (ht : (s.task t).flags.running = true) :
    ∃ xs ys, L .running = xs ++ t :: ys ∧
      let p := place s.task t (xs ++ ys)
      ((s.removeNode t).enqueueTask .running t).Inv
        (Function.update L .running (p.1 ++ t :: p.2)) := by
  obtain ⟨xs, ys, hq⟩ := List.append_of_mem ((h.running t).mpr ht)
  refine ⟨xs, ys, hq, ?_⟩
  have hremoved := mem_removed h.lists.rep hq
  have hnot : ∀ q, t ∉ Function.update L .running (xs ++ ys) q :=
    fun q hmem => ((hremoved q t).mp hmem).2 rfl
  have hlists := (h.lists.remove hq).enqueue hnot
  rw [Function.update_self, Function.update_idem] at hlists
  have hplace : xs ++ ys =
      (place s.task t (xs ++ ys)).1 ++ (place s.task t (xs ++ ys)).2 := place_append.symm
  have hmem : ∀ q u, u ∈ Function.update L .running
      ((place s.task t (xs ++ ys)).1 ++ t :: (place s.task t (xs ++ ys)).2) q ↔ u ∈ L q := by
    intro q u
    have hself : Function.update L .running (xs ++ ys) .running =
        (place s.task t (xs ++ ys)).1 ++ (place s.task t (xs ++ ys)).2 := by
      rw [Function.update_self]
      exact hplace
    have hins := mem_inserted (t := t) hself q u
    rw [Function.update_idem, hremoved] at hins
    rw [hins]
    constructor
    · rintro (hu | ⟨rfl, rfl⟩)
      · exact hu.1
      · exact (h.running u).mpr ht
    · intro hu
      by_cases hut : u = t
      · subst hut
        exact .inr ⟨h.lists.rep.apart q .running u hu ((h.running u).mpr ht), rfl⟩
      · exact .inl ⟨hu, hut⟩
  have htask : ((s.removeNode t).enqueueTask .running t).task = s.task := enqueueTask_fields.1
  have hcur : ((s.removeNode t).enqueueTask .running t).currentTask = s.currentTask :=
    enqueueTask_fields.2.1
  have hzom : ((s.removeNode t).enqueueTask .running t).zombies = s.zombies :=
    enqueueTask_fields.2.2.1
  refine ⟨hlists, ?_, ?_, ?_, ?_, ?_, ?_⟩
  · intro u
    rw [hmem, htask]
    exact h.running u
  · intro u
    rw [hmem, Live, htask]
    exact h.suspended u
  · intro u hu
    rw [htask] at hu
    rw [Live, htask]
    exact h.alive u hu
  · intro u hu
    rw [hmem] at hu
    rw [htask, hcur]
    exact h.zombie u hu
  · rw [hzom, Function.update_of_ne (by decide)]
    exact h.zombies
  · rw [hcur, htask]
    exact h.current

theorem refill_spec : SameTasks s (s.refill t) ∧ (s.refill t).nodes = s.nodes ∧
    (s.refill t).currentTask = s.currentTask ∧ (s.refill t).zombies = s.zombies := by
  rw [refill]
  split
  · exact ⟨sameTasks_setTask rfl rfl rfl, rfl, rfl, rfl⟩
  · exact ⟨fun _ => ⟨rfl, rfl, rfl⟩, rfl, rfl, rfl⟩

theorem Inv.setCurrent (h : s.Inv L) (ht : t ∈ L .running) : Inv { s with currentTask := t } L where
  lists := h.lists.congr rfl fun _ _ => rfl
  running := h.running
  suspended := h.suspended
  alive := h.alive
  zombie u hu := by
    refine ⟨(h.zombie u hu).1, (h.zombie u hu).2.1, ?_⟩
    rintro rfl
    exact (h.not_mem_of_zombie (h.zombie _ hu).1).1 ht
  zombies := h.zombies
  current := (h.alive t ((h.running t).mp ht)).1

/-- A dead task goes to the list of dead tasks. -/
theorem Inv.appendDead (h : s.Inv L) (hz : (s.task t).flags.zombie = true)
    (hpid : (s.task t).pid ≠ 0) (hnot : t ∉ L .zombie) (hne : t ≠ s.currentTask) :
    Inv { s.appendNode .zombie t with zombies := s.zombies + 1 }
      (Function.update L .zombie (L .zombie ++ [t])) where
  lists := by
    have hnot' : ∀ q, t ∉ L q := by
      intro q
      cases q with
      | running => exact (h.not_mem_of_zombie hz).1
      | suspended => exact (h.not_mem_of_zombie hz).2
      | zombie => exact hnot
    exact (h.lists.append hnot' (q := .zombie) nofun).congr rfl fun _ _ => rfl
  running := h.running
  suspended := h.suspended
  alive := h.alive
  zombie u hu := by
    rw [Function.update_self, List.mem_append, List.mem_singleton] at hu
    rcases hu with hu | rfl
    · exact h.zombie u hu
    · exact ⟨hz, hpid, hne⟩
  zombies := by
    rw [Function.update_self, List.length_append]
    exact congrArg (· + 1) h.zombies
  current := h.current

/-- The current task, if dead, goes to the list of dead tasks when another one takes over. -/
theorem appendZombie_spec (h : s.Inv L) (ht : t ∈ L .running) (hne : s.currentTask ≠ t) :
    let s' := (s.appendZombie s.currentTask).switchToTask t
    SameTasks s s' ∧ ∃ L', s'.Inv L' ∧ L' .running = L .running := by
  intro s'
  have hinv := h.setCurrent ht
  by_cases hz : (s.task s.currentTask).flags.zombie = true
  · have hnot : s.currentTask ∉ L .zombie := fun hmem => (h.zombie _ hmem).2.2 rfl
    have hdead := hinv.appendDead (t := s.currentTask) hz h.current hnot hne
    have htasks : SameTasks s s' := by
      show SameTasks s ((s.appendZombie s.currentTask).switchToTask t)
      rw [appendZombie, if_pos hz]
      exact sameTasks_setTask (s := s) rfl rfl rfl
    refine ⟨htasks, _, hdead.congr htasks ?_ rfl ?_, rfl⟩
    · show ((s.appendZombie s.currentTask).switchToTask t).nodes = _
      rw [appendZombie, if_pos hz]
      rfl
    · show ((s.appendZombie s.currentTask).switchToTask t).zombies = _
      rw [appendZombie, if_pos hz]
      rfl
  · have hs' : s' = s.switchToTask t := by
      show (s.appendZombie s.currentTask).switchToTask t = _
      rw [appendZombie, if_neg hz]
    have htasks : SameTasks s (s.switchToTask t) := sameTasks_setTask (s := s) rfl rfl rfl
    rw [hs']
    exact ⟨htasks, L, hinv.congr htasks rfl rfl rfl, rfl⟩

/-- The processor goes to the first task of the run queue. -/
theorem switch_spec (h : s.Inv L) : SameTasks s s.switch ∧
    s.switch.currentTask = (L .running).headD s.currentTask ∧
    ∃ L', s.switch.Inv L' ∧ L' .running = L .running := by
  have hhead := (h.lists.rep.adj (List.nil_append (L .running)).symm).1
  rw [Nodes.lastNode_nil] at hhead
  cases hq : L .running with
  | nil =>
    rw [hq, Nodes.firstNode_nil] at hhead
    have hs : s.switch = s := by simp only [switch, hhead]
    rw [hs]
    exact ⟨fun _ => ⟨rfl, rfl, rfl⟩, rfl, L, h, hq⟩
  | cons next rest =>
    rw [hq, Nodes.firstNode_cons] at hhead
    obtain ⟨htasks, hnodes, hcur, hzom⟩ := refill_spec (s := s) (t := next)
    have hinv := h.congr htasks hnodes hcur hzom
    have hnext : next ∈ L .running := by
      rw [hq]
      exact List.mem_cons_self ..
    by_cases hne : (s.refill next).currentTask ≠ next
    · have hs : s.switch = (((s.refill next).charge (s.refill next).currentTask).appendZombie
          (s.refill next).currentTask).switchToTask next := by
        simp only [switch, hhead]
        exact if_pos hne
      have hcharge : SameTasks (s.refill next)
          ((s.refill next).charge (s.refill next).currentTask) :=
        sameTasks_setTask rfl rfl rfl
      obtain ⟨htasks', L', hinv', hL'⟩ :=
        appendZombie_spec (hinv.congr hcharge rfl rfl rfl) hnext hne
      rw [hs]
      exact ⟨(htasks.trans hcharge).trans htasks', rfl, L', hinv', hL'.trans hq⟩
    · have hs : s.switch = s.refill next := by
        simp only [switch, hhead]
        exact if_neg hne
      rw [hs]
      exact ⟨htasks, not_not.mp hne, L, hinv, hq⟩

/-- What `schedule` does to the run queue, and which task it picks. -/
structure Scheduled (s s' : Sched) (L L' : TaskQueue → List TaskId) : Prop where
  inv : s'.Inv L'
  flags : ∀ t, (s'.task t).flags = (s.task t).flags
  pri : ∀ t, (s'.task t).pri = (s.task t).pri
  forbidden : s.Forbidden → L' .running = L .running ∧ s'.currentTask = s.currentTask
  next : ¬s.Forbidden → s'.currentTask = (L' .running).headD s.currentTask
  /-- The current task, if its time is up, is queued behind the others of its priority. -/
  requeued : ¬s.Forbidden → (s.task s.currentTask).flags.running = true →
    (s.task s.currentTask).timeLeft ≤ 0 → Behind s'.task s.currentTask (L' .running)
  /-- Tasks of higher priority stay where they are. -/
  kept : ∀ t, (s.task s.currentTask).pri < (s.task t).pri →
    Behind s.task t (L .running) → Behind s'.task t (L' .running)

theorem schedule_spec (h : s.Inv L) : ∃ L', Scheduled s s.schedule L L' := by
  obtain ⟨hinv, hcur, hpid⟩ := reclaimZombies_spec h rfl
  rw [← h.zombies] at hinv hcur hpid
  generalize hL₁ : Function.update L .zombie [] = L₁ at hinv
  have hrun : L₁ .running = L .running := by
    rw [← hL₁]
    rfl
  generalize hs₁ : reclaimZombies s.zombies s = s₁ at hinv hcur hpid
  have hsame : ∀ t, (s₁.task t).flags = (s.task t).flags ∧ (s₁.task t).pri = (s.task t).pri ∧
      (s₁.task t).timeLeft = (s.task t).timeLeft ∧
      (s₁.task t).forbidCount = (s.task t).forbidCount := by
    intro t
    obtain ⟨pid, heq⟩ := hpid t
    rw [heq]
    exact ⟨rfl, rfl, rfl, rfl⟩
  have hforbid : s₁.Forbidden ↔ s.Forbidden := by
    rw [Forbidden, Forbidden, hcur, (hsame _).1, (hsame _).2.2.2]
  by_cases hf : s.Forbidden
  · have hs : s.schedule = s₁ := by
      simp only [schedule, hs₁]
      exact if_pos (hforbid.mpr hf)
    rw [hs]
    refine ⟨L₁, hinv, fun t => (hsame t).1, fun t => (hsame t).2.1, fun _ => ⟨hrun, hcur⟩,
      fun hn => absurd hf hn, fun hn => absurd hf hn, ?_⟩
    intro t _ ht
    rw [hrun]
    exact ht.congr fun u => (hsame u).2.1
  · have hn : ¬s₁.Forbidden := fun hf₁ => hf (hforbid.mp hf₁)
    let s₂ : Sched := { s₁ with needResched := false }
    have hinv₂ : s₂.Inv L₁ := hinv.congr (fun _ => ⟨rfl, rfl, rfl⟩) rfl rfl rfl
    -- the queue after the current task has been put back
    have hqueued : ∃ (s₃ : Sched) (L₃ : TaskQueue → List TaskId), s.schedule = s₃.switch ∧ s₃.Inv L₃ ∧ s₃.task = s₁.task ∧
        s₃.currentTask = s.currentTask ∧
        ((s.task s.currentTask).flags.running = true →
          (s.task s.currentTask).timeLeft ≤ 0 → Behind s₁.task s.currentTask (L₃ .running)) ∧
        ∀ t, (s.task s.currentTask).pri < (s.task t).pri →
          Behind s₁.task t (L₁ .running) → Behind s₁.task t (L₃ .running) := by
      by_cases hr : (s₂.task s₂.currentTask).flags.running = true
      · have hs : s.schedule =
            ((s₂.removeNode s₂.currentTask).enqueueTask .running s₂.currentTask).switch := by
          simp only [schedule, hs₁]
          rw [if_neg hn]
          simp only [s₂] at hr
          simp only [if_pos hr]
          rfl
        obtain ⟨xs, ys, hxs, hinv₃⟩ := requeue_spec hinv₂ hr
        have hsorted : Sorted s₁.task (xs ++ ys) := by
          have hsorted := hinv₂.lists.sorted
          rw [hxs] at hsorted
          exact hsorted.sublist ((List.sublist_cons_self _ ys).append_left xs)
        refine ⟨_, _, hs, hinv₃, enqueueTask_fields.1, enqueueTask_fields.2.1.trans hcur,
          ?_, ?_⟩
        · intro _ htime
          rw [Function.update_self, ← hcur]
          exact behind_place hsorted ((hsame _).2.2.1.trans_le (hcur ▸ htime))
        · intro t hpri ht
          have hne : s₂.currentTask ≠ t := by
            rintro rfl
            rw [← hcur] at hpri
            exact lt_irrefl _ hpri
          rw [hxs] at ht
          have herase := ht.erase hne
          rw [Function.update_self]
          have hplace : xs ++ ys = (place s₂.task s₂.currentTask (xs ++ ys)).1 ++
              (place s₂.task s₂.currentTask (xs ++ ys)).2 := place_append.symm
          rw [hplace] at herase
          refine herase.insert ?_
          rw [(hsame _).2.1, (hsame _).2.1]
          exact hcur ▸ hpri
      · have hs : s.schedule = s₂.switch := by
          simp only [schedule, hs₁]
          rw [if_neg hn]
          simp only [s₂] at hr
          rw [if_neg hr]
        refine ⟨s₂, L₁, hs, hinv₂, rfl, hcur, ?_, fun _ _ ht => ht⟩
        intro hrun'
        exact absurd ((hsame _).1 ▸ hcur ▸ hrun') hr
    obtain ⟨s₃, L₃, hs, hinv₃, htask₃, hcur₃, hback, hkept⟩ := hqueued
    obtain ⟨htasks, hnext, L', hinv', hL'⟩ := switch_spec hinv₃
    have hpri : ∀ t, (s₃.switch.task t).pri = (s₁.task t).pri := fun t =>
      (htasks t).2.2.trans (by rw [htask₃])
    rw [hs]
    refine ⟨L', hinv', ?_, ?_, fun hf' => absurd hf' hf, ?_, ?_, ?_⟩
    · intro t
      rw [(htasks t).2.1, htask₃, (hsame t).1]
    · intro t
      rw [hpri, (hsame t).2.1]
    · intro _
      rw [hnext, hcur₃, hL']
    · intro _ hr htime
      rw [hL']
      exact (hback hr htime).congr hpri
    · intro t hlt ht
      rw [hL']
      refine (hkept t hlt ?_).congr hpri
      rw [hrun]
      exact ht.congr fun u => (hsame u).2.1

end Sched

end Vmm386.Tasks
