import Vmm386.Tasks.WaitLists

/-!
# Killing a task that sleeps

As long as no task is killed that waits in a list, the lists run through the stacks of live
tasks. Killing one that waits leaves its element on the list, in a page that is free.
-/

namespace Vmm386.Tasks

open Mm Runs

/-! ## Pages -/

theorem mem_handed_of_pageStep {m m' : PageSys} {op : PageOp} {p : ULong}
    (hstep : pageStep m op = some m') (hp : p ∈ m.handed) (hfreed : p ∉ freed op) :
    p ∈ m'.handed := by
  cases op with
  | addPages start stop =>
    obtain ⟨-, heq⟩ := Option.ite_none_right_eq_some.mp hstep
    cases heq
    exact hp
  | allocPage =>
    cases hstep
    exact Finset.mem_union_left _ hp
  | allocPages64 n =>
    cases hstep
    exact Finset.mem_union_left _ hp
  | freePage q =>
    obtain ⟨-, heq⟩ := Option.ite_none_right_eq_some.mp hstep
    cases heq
    exact Finset.mem_erase.mpr ⟨fun heq => hfreed (heq ▸ List.mem_singleton_self p), hp⟩
  | freePages q n =>
    obtain ⟨-, heq⟩ := Option.ite_none_right_eq_some.mp hstep
    cases heq
    exact Finset.mem_sdiff.mpr ⟨hp, fun hmem => hfreed (List.mem_toFinset.mp hmem)⟩
  | write q val =>
    obtain ⟨-, heq⟩ := Option.ite_none_right_eq_some.mp hstep
    cases heq
    exact hp

theorem pageStep_free {m m' : PageSys} {op : PageOp} (h : ∃ fl, Owned m fl)
    (hstep : pageStep m op = some m') : ∃ fl, Owned m' fl :=
  pageStep_owned h trivial hstep

/-- A page that has been allocated is one that nobody had. -/
theorem allocPage_spec {m m' : PageSys} (h : ∃ fl, Owned m fl)
    (hstep : pageStep m .allocPage = some m') (hne : m.pages.allocPage.1 ≠ NULL) :
    m.pages.allocPage.1 ∈ m'.handed ∧ m.pages.allocPage.1 ∉ m.handed := by
  obtain ⟨fl, hfl⟩ := h
  have hgiven : m.pages.allocPage.1 ∈ PageOp.given m.pages .allocPage := by
    rw [PageOp.given, if_neg hne]
    exact List.mem_singleton_self _
  refine ⟨?_, (hfl.handsOutOnce .allocPage).2 _ hgiven⟩
  cases hstep
  exact Finset.mem_union_right _ (List.mem_toFinset.mpr hgiven)

/-- A page that has been freed is on the free list. -/
theorem freePage_spec {m : PageSys} {p : ULong} (hp : p ∈ m.handed) :
    ∃ m', pageStep m (.freePage p) = some m' ∧ m'.handed = m.handed.erase p ∧
      m'.added = m.added := ⟨_, if_pos hp, rfl, rfl⟩

namespace WaitSys

variable {H : Type*} {s s' : WaitSys H} {L L' : H → List ULong} {t u : TaskId} {h : H}
  {a p : ULong}

/-! ## The invariant -/

/-- The stacks of live tasks are pages that nobody else has. -/
structure Stacks (s : WaitSys H) : Prop where
  owned : ∃ fl, Owned s.mem fl
  handed : ∀ t, s.pid t ≠ 0 → s.stack0 t ∈ s.mem.handed ∧ s.stack t ∈ s.mem.handed
  distinct : ∀ t, s.pid t ≠ 0 → s.stack0 t ≠ s.stack t
  apart : ∀ t u p, s.pid t ≠ 0 → s.pid u ≠ 0 → s.IsStack t p → s.IsStack u p → t = u

/-- The element at `a` is that of a live task which is in `sleep_in_task_list`. -/
structure Waits (s : WaitSys H) (a : ULong) : Prop where
  alive : s.pid (s.task a) ≠ 0
  pid : s.eltPid a = s.pid (s.task a)
  own : s.elt (s.task a) = a
  inside : s.pc (s.task a) ≠ .idle
  stack : s.OnStack (s.task a) a
  asleep : s.pc (s.task a) = .asleep → (s.flags (s.task a)).running = false

/-- The lists are `L`. -/
structure Lists (s : WaitSys H) (L : H → List ULong) : Prop where
  linked : ∀ h, Linked s.next NULL (s.head h) (L h)
  waits : ∀ h, ∀ a ∈ L h, s.Waits a
  one : ∀ h h' a, a ∈ L h → a ∈ L h' → h = h'

theorem IsStack.mem_handed (hs : s.Stacks) (ht : s.pid t ≠ 0) (hp : s.IsStack t p) :
    p ∈ s.mem.handed := by
  rcases hp with rfl | rfl
  · exact (hs.handed t ht).1
  · exact (hs.handed t ht).2

/-- Nothing changes but for a task that is on no list. -/
theorem Lists.other (hl : s.Lists L) (hno : ∀ h, ∀ a ∈ L h, s.task a ≠ t)
    (hpid : ∀ u, u ≠ t → s'.pid u = s.pid u) (hflags : ∀ u, u ≠ t → s'.flags u = s.flags u)
    (hpc : ∀ u, u ≠ t → s'.pc u = s.pc u) (helt : ∀ u, u ≠ t → s'.elt u = s.elt u)
    (hstack0 : ∀ u, u ≠ t → s'.stack0 u = s.stack0 u)
    (hstack : ∀ u, u ≠ t → s'.stack u = s.stack u) (hhead : s'.head = s.head)
    (hnext : s'.next = s.next) (htask : s'.task = s.task) (heltPid : s'.eltPid = s.eltPid) :
    s'.Lists L := by
  refine ⟨?_, ?_, hl.one⟩
  · rw [hhead, hnext]
    exact hl.linked
  · intro h a ha
    have hw := hl.waits h a ha
    have hne := hno h a ha
    refine ⟨?_, ?_, ?_, ?_, ?_, ?_⟩
    · rw [htask, hpid _ hne]
      exact hw.alive
    · rw [htask, heltPid, hpid _ hne]
      exact hw.pid
    · rw [htask, helt _ hne]
      exact hw.own
    · rw [htask, hpc _ hne]
      exact hw.inside
    · rw [htask, OnStack, IsStack, hstack0 _ hne, hstack _ hne]
      exact hw.stack
    · rw [htask, hpc _ hne, hflags _ hne]
      exact hw.asleep

/-! ## Tasks come and go -/

theorem addTask_spec {immortal : Bool} (hs : s.Stacks) (hl : s.Lists L) (ht : s.pid t = 0)
    (hstep : s.addTask t immortal = some s') : s'.Stacks ∧ s'.Lists L := by
  simp only [addTask] at hstep
  obtain ⟨m₁, h₁, hstep⟩ := Option.bind_eq_some_iff.mp hstep
  obtain ⟨m₂, h₂, hstep⟩ := Option.bind_eq_some_iff.mp hstep
  obtain ⟨⟨hne₀, hne⟩, heq⟩ := Option.ite_none_right_eq_some.mp hstep
  have howned₁ := pageStep_free hs.owned h₁
  obtain ⟨hin₀, hout₀⟩ := allocPage_spec hs.owned h₁ hne₀
  obtain ⟨hin, hout⟩ := allocPage_spec howned₁ h₂ hne
  generalize s.mem.pages.allocPage.1 = p₀ at *
  generalize m₁.pages.allocPage.1 = p₁ at *
  have hkept : ∀ p ∈ s.mem.handed, p ∈ m₂.handed := fun p hp =>
    mem_handed_of_pageStep h₂ (mem_handed_of_pageStep h₁ hp (List.not_mem_nil)) List.not_mem_nil
  have hold : ∀ u, u ≠ t → s'.pid u = s.pid u ∧ s'.stack0 u = s.stack0 u ∧
      s'.stack u = s.stack u := by
    intro u hu
    cases heq
    exact ⟨Function.update_of_ne hu .., Function.update_of_ne hu .., Function.update_of_ne hu ..⟩
  have hnew : s'.stack0 t = p₀ ∧ s'.stack t = p₁ ∧ s'.mem = m₂ := by
    cases heq
    exact ⟨Function.update_self .., Function.update_self .., rfl⟩
  -- the pages of the other tasks were handed out before
  have hfresh : ∀ u p, u ≠ t → s'.pid u ≠ 0 → s'.IsStack u p → ¬s'.IsStack t p := by
    intro u p hu hpid hp hpt
    rw [(hold u hu).1] at hpid
    have hmem : p ∈ s.mem.handed := by
      refine IsStack.mem_handed hs hpid ?_
      rw [IsStack, (hold u hu).2.1, (hold u hu).2.2] at hp
      exact hp
    rw [IsStack, hnew.1, hnew.2.1] at hpt
    rcases hpt with rfl | rfl
    · exact hout₀ hmem
    · exact hout (mem_handed_of_pageStep h₁ hmem List.not_mem_nil)
  constructor
  · refine ⟨?_, ?_, ?_, ?_⟩
    · rw [hnew.2.2]
      exact pageStep_free howned₁ h₂
    · intro u hu
      rw [hnew.2.2]
      by_cases hut : u = t
      · rw [hut, hnew.1, hnew.2.1]
        exact ⟨mem_handed_of_pageStep h₂ hin₀ List.not_mem_nil, hin⟩
      · rw [(hold u hut).1] at hu
        rw [(hold u hut).2.1, (hold u hut).2.2]
        exact ⟨hkept _ (hs.handed u hu).1, hkept _ (hs.handed u hu).2⟩
    · intro u hu
      by_cases hut : u = t
      · rw [hut, hnew.1, hnew.2.1]
        rintro rfl
        exact hout hin₀
      · rw [(hold u hut).1] at hu
        rw [(hold u hut).2.1, (hold u hut).2.2]
        exact hs.distinct u hu
    · intro u v p hu hv hpu hpv
      by_cases hut : u = t <;> by_cases hvt : v = t
      · rw [hut, hvt]
      · exact absurd (hut ▸ hpu) (hfresh v p hvt hv hpv)
      · exact absurd (hvt ▸ hpv) (hfresh u p hut hu hpu)
      · rw [IsStack, (hold _ hut).2.1, (hold _ hut).2.2] at hpu
        rw [IsStack, (hold _ hvt).2.1, (hold _ hvt).2.2] at hpv
        rw [(hold u hut).1] at hu
        rw [(hold v hvt).1] at hv
        exact hs.apart u v p hu hv hpu hpv
  · have hno : ∀ h, ∀ a ∈ L h, s.task a ≠ t := by
      rintro h a ha rfl
      exact (hl.waits h a ha).alive ht
    cases heq
    exact hl.other hno (fun u hu => Function.update_of_ne hu ..)
      (fun u hu => Function.update_of_ne hu ..) (fun u hu => Function.update_of_ne hu ..)
      (fun _ _ => rfl) (fun u hu => Function.update_of_ne hu ..)
      (fun u hu => Function.update_of_ne hu ..) rfl rfl rfl rfl

/-- The stacks of a task that is killed are free. -/
theorem killTask_spec (hs : s.Stacks) (ht : s.pid t ≠ 0) (himm : (s.flags t).immortal = false) :
    ∃ s', s.killTask t = some s' ∧ s'.Stacks ∧ (∀ p, s.IsStack t p → p ∉ s'.mem.handed) ∧
      s'.mem.added = s.mem.added ∧ s' = { s with
        flags := Function.update s.flags t { s.flags t with zombie := true, running := false }
        pid := Function.update s.pid t 0
        mem := s'.mem } := by
  obtain ⟨hin₀, hin⟩ := hs.handed t ht
  obtain ⟨m₁, h₁, hhanded₁, hadded₁⟩ := freePage_spec hin₀
  have hin₁ : s.stack t ∈ m₁.handed := by
    rw [hhanded₁]
    exact Finset.mem_erase.mpr ⟨(hs.distinct t ht).symm, hin⟩
  obtain ⟨m₂, h₂, hhanded₂, hadded₂⟩ := freePage_spec hin₁
  have himm' : ¬(s.flags t).immortal = true := by
    rw [himm]
    exact nofun
  have hkill : s.killTask t = some { s with
      flags := Function.update s.flags t { s.flags t with zombie := true, running := false }
      pid := Function.update s.pid t 0
      mem := m₂ } := by
    rw [killTask, if_neg himm', h₁, Option.bind_some, h₂, Option.bind_some]
  have hold : ∀ u, Function.update s.pid t 0 u ≠ 0 → u ≠ t ∧ s.pid u ≠ 0 := by
    intro u hu
    have hut : u ≠ t := by
      rintro rfl
      rw [Function.update_self] at hu
      exact hu rfl
    rw [Function.update_of_ne hut] at hu
    exact ⟨hut, hu⟩
  have hmem : ∀ p, p ∈ m₂.handed ↔ p ∈ s.mem.handed ∧ ¬s.IsStack t p := by
    intro p
    rw [hhanded₂, hhanded₁, Finset.mem_erase, Finset.mem_erase, IsStack, not_or]
    tauto
  have hgone : ∀ p, s.IsStack t p → p ∉ m₂.handed := fun p hp hmem' =>
    ((hmem p).mp hmem').2 hp
  refine ⟨_, hkill, ⟨pageStep_free (pageStep_free hs.owned h₁) h₂, ?_, ?_, ?_⟩, hgone,
    hadded₂.trans hadded₁, rfl⟩
  · intro u hu
    obtain ⟨hut, hu'⟩ := hold u hu
    have hother : ∀ p, s.IsStack u p → p ∈ m₂.handed := fun p hp =>
      (hmem p).mpr ⟨hp.mem_handed hs hu', fun hpt => hut (hs.apart u t p hu' ht hp hpt)⟩
    exact ⟨hother _ (.inl rfl), hother _ (.inr rfl)⟩
  · intro u hu
    exact hs.distinct u (hold u hu).2
  · intro u v p hu hv hpu hpv
    exact hs.apart u v p (hold u hu).2 (hold v hv).2 hpu hpv

theorem page_spec {op : PageOp} {mem : PageSys} (hs : s.Stacks)
    (hstep : pageStep s.mem op = some mem)
    (hno : ∀ t, s.pid t ≠ 0 → s.stack0 t ∉ freed op ∧ s.stack t ∉ freed op) :
    Stacks { s with mem } := by
  refine ⟨pageStep_free hs.owned hstep, ?_, hs.distinct, hs.apart⟩
  intro t ht
  obtain ⟨h₀, h₁⟩ := hs.handed t ht
  exact ⟨mem_handed_of_pageStep hstep h₀ (hno t ht).1,
    mem_handed_of_pageStep hstep h₁ (hno t ht).2⟩

/-! ## The lists -/

/-- A task that is in no list, or whose element is elsewhere, has nothing there. -/
theorem not_mem_of_onStack (hs : s.Stacks) (hl : s.Lists L) (ht : s.pid t ≠ 0)
    (ha : s.OnStack t a) (hown : s.pc t = .idle ∨ a ≠ s.elt t) (h : H) : a ∉ L h := by
  intro hmem
  have hw := hl.waits h a hmem
  have heq := hs.apart _ _ _ hw.alive ht hw.stack ha
  rcases hown with hidle | hne
  · exact hw.inside (heq ▸ hidle)
  · exact hne (heq ▸ hw.own.symm)

theorem ne_null_of_onStack (hs : s.Stacks) (ht : s.pid t ≠ 0) (ha : s.OnStack t a) :
    a ≠ NULL := by
  rintro rfl
  have hmem := IsStack.mem_handed hs ht ha
  obtain ⟨fl, hfl⟩ := hs.owned
  exact hfl.ne_null ((hfl.added _).mpr (.inr hmem)) (by decide)

/-- A task writes to its stack. -/
theorem write_spec {q : ULong} {u : TaskId} {n : ULong} (hl : s.Lists L)
    (ha : ∀ h, a ∉ L h) : Lists { s with
      next := Function.update s.next a q
      task := Function.update s.task a u
      eltPid := Function.update s.eltPid a n } L := by
  refine ⟨fun h => (hl.linked h).update (ha h) q, ?_, hl.one⟩
  intro h b hb
  have hne : b ≠ a := by
    rintro rfl
    exact ha h hb
  have hw := hl.waits h b hb
  have htask : Function.update s.task a u b = s.task b := Function.update_of_ne hne ..
  have hpid : Function.update s.eltPid a n b = s.eltPid b := Function.update_of_ne hne ..
  refine ⟨?_, ?_, ?_, ?_, ?_, ?_⟩
  · simp only [htask]
    exact hw.alive
  · simp only [htask, hpid]
    exact hw.pid
  · simp only [htask]
    exact hw.own
  · simp only [htask]
    exact hw.inside
  · simp only [htask]
    exact hw.stack
  · simp only [htask]
    exact hw.asleep

theorem suspend_spec (hl : s.Lists L) : Lists { s with
    flags := Function.update s.flags t (s.flags t).suspend
    pc := Function.update s.pc t .asleep } L := by
  refine ⟨hl.linked, ?_, hl.one⟩
  intro h a ha
  have hw := hl.waits h a ha
  by_cases hat : s.task a = t
  · subst hat
    exact ⟨hw.alive, hw.pid, hw.own, by simp only [Function.update_self]; exact nofun, hw.stack,
      fun _ => by simp only [Function.update_self]; rfl⟩
  · refine ⟨hw.alive, hw.pid, hw.own, ?_, hw.stack, ?_⟩
    · simp only [Function.update_of_ne hat]
      exact hw.inside
    · simp only [Function.update_of_ne hat]
      exact hw.asleep

/-- A task goes on when it has been woken; it is on no list then. -/
theorem resume_spec (hl : s.Lists L) (hpc : s.pc t = .asleep)
    (hrun : (s.flags t).running = true) :
    Lists { s with pc := Function.update s.pc t .idle } L := by
  have hno : ∀ h, ∀ a ∈ L h, s.task a ≠ t := by
    rintro h a ha rfl
    have hsleep := (hl.waits h a ha).asleep hpc
    rw [hrun] at hsleep
    cases hsleep
  exact hl.other hno (fun _ _ => rfl) (fun _ _ => rfl) (fun u hu => Function.update_of_ne hu ..)
    (fun _ _ => rfl) (fun _ _ => rfl) (fun _ _ => rfl) rfl rfl rfl rfl

/-- `wake_task` for an element changes the flags of its task only. -/
theorem wakeElt_spec (s : WaitSys H) (a : ULong) :
    ∃ flags, s.wakeElt a = { s with flags } ∧ ∀ u, u ≠ s.task a → flags u = s.flags u := by
  rw [wakeElt]
  split
  · exact ⟨_, rfl, fun u hu => Function.update_of_ne hu ..⟩
  · exact ⟨_, rfl, fun _ _ => rfl⟩

theorem wakeLoop_spec {l : List ULong} {k : ℕ} (hl : Linked s.next NULL p l) :
    ∃ flags, wakeLoop k p s = { s with flags } ∧
      ∀ u, (∀ a ∈ l, s.task a ≠ u) → flags u = s.flags u := by
  induction k generalizing s p l with
  | zero => exact ⟨_, rfl, fun _ _ => rfl⟩
  | succ k ih =>
    rw [wakeLoop]
    split
    · rename_i hne
      obtain ⟨l', rfl, hl'⟩ := hl.exists_cons hne
      obtain ⟨flags₁, heq₁, hkeep₁⟩ := wakeElt_spec s p
      rw [heq₁]
      obtain ⟨flags, heq, hkeep⟩ := ih (s := { s with flags := flags₁ }) hl'
      refine ⟨flags, heq, ?_⟩
      intro u hu
      rw [hkeep u fun a ha => hu a (List.mem_cons_of_mem p ha)]
      exact hkeep₁ u fun heq => hu p (List.mem_cons_self ..) heq.symm
    · exact ⟨_, rfl, fun _ _ => rfl⟩

section Heads

variable [DecidableEq H]

/-- Some elements go off one list, and only their tasks are woken. -/
theorem Lists.shrink {flags : TaskId → Flags} {q : ULong} {l : List ULong} (hl : s.Lists L)
    (hlinked : Linked s.next NULL q l) (hsub : l ⊆ L h)
    (hkeep : ∀ u, (∀ a ∈ L h, a ∉ l → s.task a ≠ u) → flags u = s.flags u) :
    Lists { s with flags, head := Function.update s.head h q } (Function.update L h l) := by
  have hmem : ∀ h' a, a ∈ Function.update L h l h' → a ∈ L h' ∧ (h' = h → a ∈ l) := by
    intro h' a ha
    by_cases heq : h' = h
    · subst heq
      rw [Function.update_self] at ha
      exact ⟨hsub ha, fun _ => ha⟩
    · rw [Function.update_of_ne heq] at ha
      exact ⟨ha, fun heq' => absurd heq' heq⟩
  refine ⟨?_, ?_, ?_⟩
  · intro h'
    by_cases heq : h' = h
    · subst heq
      simp only [Function.update_self]
      exact hlinked
    · simp only [Function.update_of_ne heq]
      exact hl.linked h'
  · intro h' a ha
    obtain ⟨ha, hal⟩ := hmem h' a ha
    have hw := hl.waits h' a ha
    -- its task has no element among those that go
    have hsame : flags (s.task a) = s.flags (s.task a) := by
      apply hkeep
      intro b hb hbl heq
      have hba : b = a := by
        rw [← (hl.waits h b hb).own, heq, hw.own]
      subst hba
      exact hbl (hal (hl.one h' h b ha hb))
    refine ⟨hw.alive, hw.pid, hw.own, hw.inside, hw.stack, ?_⟩
    intro hpc
    show (flags (s.task a)).running = false
    rw [hsame]
    exact hw.asleep hpc
  · intro h₁ h₂ a h₁a h₂a
    exact hl.one h₁ h₂ a (hmem h₁ a h₁a).1 (hmem h₂ a h₂a).1

theorem wakeUpTaskList_spec (hl : s.Lists L) (h : H) :
    (s.wakeUpTaskList h).Lists (Function.update L h []) := by
  obtain ⟨flags, heq, hkeep⟩ := wakeLoop_spec (k := ADDRESSES) (hl.linked h)
  rw [wakeUpTaskList, heq]
  refine hl.shrink rfl (List.nil_subset _) ?_
  intro u hu
  exact hkeep u fun a ha => hu a ha List.not_mem_nil

theorem wakeUpFirstTask_of_cons {l : List ULong} (hl : s.Lists L) (hL : L h = a :: l) :
    s.wakeUpFirstTask h =
      wakeElt { s with head := Function.update s.head h (s.next a) } a := by
  have hlinked := hl.linked h
  rw [hL] at hlinked
  rw [wakeUpFirstTask, hlinked.1]
  exact if_pos hlinked.2.1

theorem wakeUpFirstTask_spec (hl : s.Lists L) (h : H) :
    (s.wakeUpFirstTask h).Lists (Function.update L h (L h).tail) := by
  have hlinked := hl.linked h
  cases hL : L h with
  | nil =>
    rw [hL] at hlinked
    have hs : s.wakeUpFirstTask h = s := by
      rw [wakeUpFirstTask]
      exact if_neg (not_not.mpr hlinked)
    have hLh : Function.update L h [] = L := by
      rw [← hL]
      exact Function.update_eq_self ..
    rw [hs, List.tail_nil, hLh]
    exact hl
  | cons a l =>
    rw [wakeUpFirstTask_of_cons hl hL]
    obtain ⟨flags, heq, hkeep⟩ :=
      wakeElt_spec { s with head := Function.update s.head h (s.next a) } a
    rw [hL] at hlinked
    rw [heq]
    refine hl.shrink hlinked.2.2 (by rw [hL]; exact List.subset_cons_self a l) ?_
    intro u hu
    refine hkeep u fun heq => ?_
    exact hu a (by rw [hL]; exact List.mem_cons_self ..) (List.nodup_cons.mp hlinked.nodup).1
      heq.symm

theorem sleepInTaskList_spec (hs : s.Stacks) (hl : s.Lists L) (ht : s.pid t ≠ 0)
    (hpc : s.pc t = .idle) (ha : s.OnStack t a) :
    (s.sleepInTaskList t h a).Lists (Function.update L h (L h ++ [a])) := by
  have hnew := not_mem_of_onStack hs hl ht ha (.inl hpc)
  have hne := ne_null_of_onStack hs ht ha
  have hno : ∀ h, ∀ b ∈ L h, s.task b ≠ t := by
    rintro h b hb rfl
    exact (hl.waits h b hb).inside hpc
  -- the element is filled in before it is linked
  let s₁ : WaitSys H := { s with
    task := Function.update s.task a t
    eltPid := Function.update s.eltPid a (s.pid t)
    elt := Function.update s.elt t a
    pc := Function.update s.pc t .added }
  have hl₁ : s₁.Lists L := by
    have hother : Lists { s with
        elt := Function.update s.elt t a, pc := Function.update s.pc t .added } L :=
      hl.other hno (fun _ _ => rfl) (fun _ _ => rfl) (fun u hu => Function.update_of_ne hu ..)
        (fun u hu => Function.update_of_ne hu ..) (fun _ _ => rfl) (fun _ _ => rfl) rfl rfl rfl rfl
    have hwrite := write_spec (q := s.next a) (u := t) (n := s.pid t) hother hnew
    simp only [Function.update_eq_self] at hwrite
    exact hwrite
  have hself : s₁.Waits a := by
    have htask : s₁.task a = t := Function.update_self ..
    have hpc₁ : s₁.pc t = .added := Function.update_self ..
    refine ⟨?_, ?_, ?_, ?_, ?_, ?_⟩
    · rw [htask]
      exact ht
    · rw [htask]
      exact Function.update_self ..
    · rw [htask]
      exact Function.update_self ..
    · rw [htask, hpc₁]
      exact nofun
    · rw [htask]
      exact ha
    · rw [htask, hpc₁]
      exact nofun
  have hlist : (s₁.links h).ListAt NULL none (L h) := ⟨hl₁.linked h, fun _ _ => nofun⟩
  have hlen : (L h).length ≤ ADDRESSES := length_le_addresses (hl.linked h).nodup
  obtain ⟨hat, hframe, -⟩ := hlist.append hlen hne (hnew h) nofun
  show (s₁.addTaskList h a).Lists _
  simp only [addTaskList, setLinks]
  generalize ((s₁.links h).set (some a) _).set _ a = m at hat hframe
  have hmem : ∀ h' b, b ∈ Function.update L h (L h ++ [a]) h' ↔
      b ∈ L h' ∨ (h' = h ∧ b = a) := by
    intro h' b
    by_cases heq : h' = h
    · rw [heq, Function.update_self, List.mem_append, List.mem_singleton]
      exact or_congr_right ⟨fun hb => ⟨rfl, hb⟩, And.right⟩
    · rw [Function.update_of_ne heq]
      exact ⟨.inl, fun hb => hb.resolve_right fun hc => heq hc.1⟩
  refine ⟨?_, ?_, ?_⟩
  · intro h'
    by_cases heq : h' = h
    · subst heq
      simp only [Function.update_self]
      exact hat.1
    · simp only [Function.update_of_ne heq]
      refine (hl₁.linked h').congr fun b hb => hframe b ?_ ?_ nofun
      · rintro rfl
        exact hnew h' hb
      · exact fun hbh => heq (hl.one h' h b hb hbh)
  · intro h' b hb
    have hw : s₁.Waits b := by
      rcases (hmem h' b).mp hb with hb | ⟨-, rfl⟩
      · exact hl₁.waits h' b hb
      · exact hself
    exact ⟨hw.alive, hw.pid, hw.own, hw.inside, hw.stack, hw.asleep⟩
  · intro h₁ h₂ b h₁b h₂b
    rcases (hmem h₁ b).mp h₁b with hb₁ | ⟨heq₁, hb₁⟩ <;>
      rcases (hmem h₂ b).mp h₂b with hb₂ | ⟨heq₂, hb₂⟩
    · exact hl.one h₁ h₂ b hb₁ hb₂
    · exact absurd (hb₂ ▸ hb₁) (hnew h₁)
    · exact absurd (hb₁ ▸ hb₂) (hnew h₂)
    · rw [heq₁, heq₂]

/-! ## Runs -/

/-- The task has an element on a list. -/
def WaitsIn (s : WaitSys H) (t : TaskId) : Prop :=
  ∃ h l a, Linked s.next NULL (s.head h) l ∧ a ∈ l ∧ s.task a = t

/-- No task is killed that has an element on a list. -/
def Calm (s : WaitSys H) (op : WaitOp H) : Prop :=
  ∀ t, op = .kill t → (s.flags t).immortal = false → ¬s.WaitsIn t

theorem waitStep_spec {op : WaitOp H} (hs : s.Stacks) (hl : s.Lists L) (hcalm : s.Calm op)
    (hstep : waitStep s op = some s') : s'.Stacks ∧ ∃ L', s'.Lists L' := by
  cases op with
  | add t immortal =>
    obtain ⟨⟨ht, -⟩, hstep⟩ := Option.ite_none_right_eq_some.mp hstep
    obtain ⟨hs', hl'⟩ := addTask_spec hs hl ht hstep
    exact ⟨hs', L, hl'⟩
  | sleepInTaskList t h a =>
    obtain ⟨⟨ht, hpc, ha⟩, heq⟩ := Option.ite_none_right_eq_some.mp hstep
    cases heq
    exact ⟨⟨hs.owned, hs.handed, hs.distinct, hs.apart⟩, _,
      sleepInTaskList_spec hs hl ht hpc ha⟩
  | suspend t =>
    obtain ⟨-, heq⟩ := Option.ite_none_right_eq_some.mp hstep
    cases heq
    exact ⟨⟨hs.owned, hs.handed, hs.distinct, hs.apart⟩, L, suspend_spec hl⟩
  | resume t =>
    obtain ⟨⟨-, hpc, hrun⟩, heq⟩ := Option.ite_none_right_eq_some.mp hstep
    cases heq
    exact ⟨⟨hs.owned, hs.handed, hs.distinct, hs.apart⟩, L, resume_spec hl hpc hrun⟩
  | wakeUpFirstTask h =>
    cases hstep
    refine ⟨?_, _, wakeUpFirstTask_spec hl h⟩
    rw [wakeUpFirstTask]
    split
    · obtain ⟨flags, heq, -⟩ :=
        wakeElt_spec { s with head := Function.update s.head h (s.next (s.head h)) } (s.head h)
      rw [heq]
      exact ⟨hs.owned, hs.handed, hs.distinct, hs.apart⟩
    · exact hs
  | wakeUpTaskList h =>
    cases hstep
    obtain ⟨flags, heq, -⟩ := wakeLoop_spec (k := ADDRESSES) (hl.linked h)
    refine ⟨?_, _, wakeUpTaskList_spec hl h⟩
    rw [wakeUpTaskList, heq]
    exact ⟨hs.owned, hs.handed, hs.distinct, hs.apart⟩
  | kill t =>
    obtain ⟨ht, hkill⟩ := Option.ite_none_right_eq_some.mp hstep
    by_cases himm : (s.flags t).immortal = true
    · rw [killTask, if_pos himm] at hkill
      cases hkill
      exact ⟨hs, L, hl⟩
    · rw [Bool.not_eq_true] at himm
      obtain ⟨s'', hkill', hs'', -, -, heq⟩ := killTask_spec hs ht himm
      cases hkill.symm.trans hkill'
      refine ⟨hs'', L, ?_⟩
      have hno : ∀ h, ∀ a ∈ L h, s.task a ≠ t := fun h a ha hta =>
        hcalm t rfl himm ⟨h, L h, a, hl.linked h, ha, hta⟩
      rw [heq]
      exact hl.other hno (fun u hu => Function.update_of_ne hu ..)
        (fun u hu => Function.update_of_ne hu ..) (fun _ _ => rfl) (fun _ _ => rfl)
        (fun _ _ => rfl) (fun _ _ => rfl) rfl rfl rfl rfl
  | write t a next task pid =>
    obtain ⟨⟨ht, ha, hown⟩, heq⟩ := Option.ite_none_right_eq_some.mp hstep
    cases heq
    exact ⟨⟨hs.owned, hs.handed, hs.distinct, hs.apart⟩, L,
      write_spec hl (not_mem_of_onStack hs hl ht ha hown)⟩
  | page op =>
    obtain ⟨hno, hstep⟩ := Option.ite_none_right_eq_some.mp hstep
    obtain ⟨mem, hmem, heq⟩ := Option.bind_eq_some_iff.mp hstep
    cases heq
    exact ⟨page_spec hs hmem hno, L, ⟨hl.linked, fun h a ha =>
      ⟨(hl.waits h a ha).alive, (hl.waits h a ha).pid, (hl.waits h a ha).own,
        (hl.waits h a ha).inside, (hl.waits h a ha).stack, (hl.waits h a ha).asleep⟩, hl.one⟩⟩

omit [DecidableEq H] in
theorem init_spec : (init H).Stacks ∧ (init H).Lists fun _ => [] := by
  constructor
  · exact ⟨⟨[], .init⟩, fun t ht => absurd rfl ht, fun t ht => absurd rfl ht,
      fun t u p ht => absurd rfl ht⟩
  · exact ⟨fun _ => rfl, nofun, nofun⟩

/-! ## What killing a task that waits leaves behind -/

/-- All elements on the lists are those of live tasks, on pages that are in use. -/
def ListsLive (s : WaitSys H) : Prop :=
  ∀ h, ∃ l, Linked s.next NULL (s.head h) l ∧ ∀ a ∈ l, s.pid (s.task a) ≠ 0 ∧
    s.eltPid a = s.pid (s.task a) ∧ s.OnStack (s.task a) a ∧ a &&& PAGE_MASK ∈ s.mem.handed

/-- The list with the head `h` reaches, behind the elements `before`, the element at `a` of a
dead task, in a page that is free. Its turn comes with the next signal after those for the
elements before it, and that signal wakes nobody, whoever waits behind it. -/
structure Dangles (s : WaitSys H) (h : H) (before : List ULong) (a : ULong)
    (behind : List ULong) : Prop where
  reached : Linked s.next NULL (s.head h) (before ++ a :: behind)
  free : ∃ fl, s.mem.pages.Free fl ∧ a &&& PAGE_MASK ∈ fl
  dead : s.pid (s.task a) = 0
  consumes : ∃ s', run waitStep s (List.replicate before.length (.wakeUpFirstTask h)) = some s' ∧
    s'.head h = a ∧ (s'.wakeUpFirstTask h).flags = s'.flags ∧
    Linked (s'.wakeUpFirstTask h).next NULL ((s'.wakeUpFirstTask h).head h) behind

/-- Signals go through a list from the front. -/
theorem wakes_spec {before l : List ULong} (hl : Linked s.next NULL (s.head h) (before ++ l)) :
    ∃ s', run waitStep s (List.replicate before.length (.wakeUpFirstTask h)) = some s' ∧
      Linked s'.next NULL (s'.head h) l ∧ s'.next = s.next ∧ s'.pid = s.pid ∧
      s'.task = s.task ∧ s'.eltPid = s.eltPid := by
  induction before generalizing s with
  | nil => exact ⟨s, rfl, hl, rfl, rfl, rfl, rfl⟩
  | cons b before ih =>
    have hhead : s.head h = b := hl.1
    have hstep : s.wakeUpFirstTask h =
        wakeElt { s with head := Function.update s.head h (s.next b) } b := by
      rw [wakeUpFirstTask, hhead]
      exact if_pos hl.2.1
    obtain ⟨flags, heq, -⟩ :=
      wakeElt_spec { s with head := Function.update s.head h (s.next b) } b
    rw [heq] at hstep
    have hl' : Linked (s.wakeUpFirstTask h).next NULL ((s.wakeUpFirstTask h).head h)
        (before ++ l) := by
      rw [hstep]
      simp only [Function.update_self]
      exact hl.2.2
    obtain ⟨s', hrun, hlinked, hnext, hpid, htask, heltPid⟩ := ih hl'
    refine ⟨s', run_cons_eq_some.mpr ⟨_, rfl, hrun⟩, hlinked, ?_, ?_, ?_, ?_⟩
    · rw [hnext, hstep]
    · rw [hpid, hstep]
    · rw [htask, hstep]
    · rw [heltPid, hstep]

theorem kill_dangles {before behind : List ULong} (hs : s.Stacks) (hl : s.Lists L)
    (ht : s.pid t ≠ 0) (himm : (s.flags t).immortal = false)
    (hlinked : Linked s.next NULL (s.head h) (before ++ a :: behind)) (ha : s.task a = t) :
    ∃ s', waitStep s (.kill t) = some s' ∧ s'.Dangles h before a behind := by
  obtain ⟨s', hkill, hs', hgone, hadded, heq⟩ := killTask_spec hs ht himm
  have hmem : a ∈ L h := by
    rw [(hl.linked h).unique hlinked]
    exact List.mem_append_right _ (List.mem_cons_self ..)
  have hw := hl.waits h a hmem
  have hstack := hw.stack
  have hpid := hw.pid
  rw [ha] at hstack hpid
  have hfields : s'.next = s.next ∧ s'.head = s.head ∧ s'.task = s.task ∧
      s'.eltPid = s.eltPid ∧ s'.pid t = 0 := by
    rw [heq]
    exact ⟨rfl, rfl, rfl, rfl, Function.update_self ..⟩
  obtain ⟨hnext, hhead, htask, heltPid, hdead⟩ := hfields
  have hreached : Linked s'.next NULL (s'.head h) (before ++ a :: behind) := by
    rw [hnext, hhead]
    exact hlinked
  refine ⟨s', (if_pos ht).trans hkill, hreached, ?_, ?_, ?_⟩
  · obtain ⟨fl, hfl⟩ := hs'.owned
    refine ⟨fl, hfl.free, ?_⟩
    -- the page was handed out before, and is not any more
    obtain ⟨fl₀, hfl₀⟩ := hs.owned
    have hadd : a &&& PAGE_MASK ∈ s'.mem.added := by
      rw [hadded]
      exact (hfl₀.added _).mpr (.inr (IsStack.mem_handed hs ht hstack))
    exact ((hfl.added _).mp hadd).resolve_right (hgone _ hstack)
  · rw [htask, ha]
    exact hdead
  · obtain ⟨s'', hrun, hlinked'', hnext'', hpid'', htask'', heltPid''⟩ := wakes_spec hreached
    have hhead'' : s''.head h = a := hlinked''.1
    -- its pid is not that of a task any more
    have hno : ¬s''.pid (s''.task a) = s''.eltPid a := by
      rw [hpid'', htask'', heltPid'', htask, heltPid, ha, hdead, hpid]
      exact fun heq => ht heq.symm
    have hstep : s''.wakeUpFirstTask h =
        { s'' with head := Function.update s''.head h (s''.next a) } := by
      rw [wakeUpFirstTask, hhead'']
      refine (if_pos hlinked''.2.1).trans ?_
      rw [wakeElt]
      exact if_neg hno
    refine ⟨s'', hrun, hhead'', ?_, ?_⟩
    · rw [hstep]
    · rw [hstep]
      simp only [Function.update_self]
      exact hlinked''.2.2

end Heads

end WaitSys

/-- **Killing tasks.** As long as no task is killed that has an element on a list, all lists
run through the stacks of live tasks. Whenever one is killed that has, its element stays on the
list, in a page that has been freed, and takes the signal that comes to it from those who wait
behind it. -/
theorem kill_runs {H : Type*} [DecidableEq H] (ops : List (WaitOp H)) (s : WaitSys H)
    (hrun : run waitStep (WaitSys.init H) ops = some s)
    (hcalm : Along waitStep WaitSys.Calm (WaitSys.init H) ops) :
    s.ListsLive ∧ ∀ t h before a behind, s.pid t ≠ 0 → (s.flags t).immortal = false →
      Linked s.next NULL (s.head h) (before ++ a :: behind) → s.task a = t →
      ∃ s', waitStep s (.kill t) = some s' ∧ s'.Dangles h before a behind := by
  have hkept : Preserves waitStep WaitSys.Calm
      fun s : WaitSys H => s.Stacks ∧ ∃ L, s.Lists L := by
    rintro s op s' ⟨hs, L, hl⟩ hc hstep
    exact WaitSys.waitStep_spec hs hl hc hstep
  have hinit : (WaitSys.init H).Stacks ∧ ∃ L, (WaitSys.init H).Lists L :=
    ⟨WaitSys.init_spec.1, _, WaitSys.init_spec.2⟩
  obtain ⟨hs, L, hl⟩ := hkept.run hinit hcalm hrun
  constructor
  · intro h
    refine ⟨L h, hl.linked h, fun a ha => ?_⟩
    have hw := hl.waits h a ha
    exact ⟨hw.alive, hw.pid, hw.stack, WaitSys.IsStack.mem_handed hs hw.alive hw.stack⟩
  · intro t h before a behind ht himm hlinked ha
    exact WaitSys.kill_dangles hs hl ht himm hlinked ha

/-- Two pages are added, which become the stacks of a task; the task sleeps in a list. -/
def sleepOps : List (WaitOp Unit) :=
  [.page (.addPages 0x100000 0x102000), .add 1 false, .sleepInTaskList 1 () 0x900f00, .suspend 1]

theorem addPages_spec {m : PageSys} {l : List ULong} {a b : ULong} (h : Owned m l)
    (hstart : a.toNat % 4096 = 0) (hstop : b.toNat % 4096 = 0)
    (hne : NULL ∉ pagesBetween a b) (hnew : ∀ p ∈ pagesBetween a b, p ∉ m.added) :
    ∃ m', pageStep m (.addPages a b) = some m' ∧
      Owned m' ((pagesBetween a b).reverse ++ l) := by
  simp only [pageStep]
  exact ⟨_, if_pos ⟨hstart, hstop, hne, hnew⟩, h.addPages hstart hstop hne hnew⟩

/-- The stacks of a new task are the first two free pages. -/
theorem addTask_of_free {H : Type*} {s : WaitSys H} {t : TaskId} {i : Bool}
    {p₀ p₁ : ULong} {l : List ULong} (h : Owned s.mem (p₀ :: p₁ :: l)) :
    ∃ s', s.addTask t i = some s' ∧ s'.pid t = s.nextPid ∧ s'.stack0 t = p₀ ∧
      s'.stack t = p₁ ∧ (s'.flags t).immortal = i ∧ s'.pc t = .idle := by
  obtain ⟨hfst₀, hfree₁, -⟩ := Pages.allocPage_cons h.free
  have hne₀ : s.mem.pages.allocPage.1 ≠ NULL := by
    rw [hfst₀]
    exact h.free.ne_null (List.mem_cons_self ..)
  obtain ⟨m₁, hm₁, hpages₁⟩ : ∃ m₁, pageStep s.mem .allocPage = some m₁ ∧
      m₁.pages = s.mem.pages.allocPage.2 := ⟨_, rfl, rfl⟩
  rw [← hpages₁] at hfree₁
  obtain ⟨hfst₁, -⟩ := Pages.allocPage_cons hfree₁
  have hne₁ : m₁.pages.allocPage.1 ≠ NULL := by
    rw [hfst₁]
    exact hfree₁.ne_null (List.mem_cons_self ..)
  obtain ⟨m₂, hm₂⟩ : ∃ m₂, pageStep m₁ .allocPage = some m₂ := ⟨_, rfl⟩
  simp only [WaitSys.addTask, hm₁, Option.bind_some, hm₂, if_pos (And.intro hne₀ hne₁)]
  refine ⟨_, rfl, ?_, ?_, ?_, ?_, ?_⟩
  · exact Function.update_self ..
  · exact (Function.update_self ..).trans hfst₀
  · exact (Function.update_self ..).trans hfst₁
  · simp only [Function.update_self]
  · exact Function.update_self ..

theorem waitStep_page {H : Type*} [DecidableEq H] {s : WaitSys H} {op : PageOp} {mem : PageSys}
    (hno : ∀ t, s.pid t = 0) (hstep : pageStep s.mem op = some mem) :
    waitStep s (.page op) = some { s with mem } := by
  have hguard : ∀ t, s.pid t ≠ 0 → s.stack0 t ∉ freed op ∧ s.stack t ∉ freed op :=
    fun t ht => absurd (hno t) ht
  rw [waitStep, if_pos hguard, hstep]
  rfl

theorem sleepOps_spec : ∃ s, run waitStep (WaitSys.init Unit) sleepOps = some s ∧ s.Stacks ∧
    s.Lists (fun _ => [0x900f00]) ∧ s.pid 1 ≠ 0 ∧ (s.flags 1).immortal = false ∧
    s.task 0x900f00 = 1 := by
  obtain ⟨m, hm, howned⟩ := addPages_spec (a := 0x100000) (b := 0x102000) Owned.init rfl rfl
    (by decide) fun p _ => Finset.notMem_empty p
  have hpages : (pagesBetween 0x100000 0x102000).reverse ++ [] = [0x901000, 0x900000] := by decide
  rw [hpages] at howned
  have h₁ := waitStep_page (s := WaitSys.init Unit) (fun _ => rfl) hm
  generalize hs₁ : { WaitSys.init Unit with mem := m } = s₁ at h₁
  have hnext : s₁.pid 1 = 0 ∧ s₁.nextPid = 1 ∧ s₁.mem = m := by
    rw [← hs₁]
    exact ⟨rfl, rfl, rfl⟩
  have hempty : s₁.Lists fun _ => [] := by
    rw [← hs₁]
    exact ⟨fun _ => rfl, nofun, nofun⟩
  have hstacks : s₁.Stacks := by
    rw [← hs₁]
    exact WaitSys.page_spec WaitSys.init_spec.1 hm fun t ht => absurd rfl ht
  obtain ⟨s₂, h₂, hpid, -, hstack, himm, hpc⟩ :=
    addTask_of_free (s := s₁) (t := 1) (i := false) (hnext.2.2 ▸ howned)
  obtain ⟨hstacks₂, hlists₂⟩ := WaitSys.addTask_spec hstacks hempty hnext.1 h₂
  have hpid₂ : s₂.pid 1 ≠ 0 := by
    rw [hpid, hnext.2.1]
    decide
  have hon : s₂.OnStack 1 0x900f00 := by
    refine .inr ?_
    rw [hstack]
    decide
  have hlists₃ := WaitSys.sleepInTaskList_spec (h := ()) hstacks₂ hlists₂ hpid₂ hpc hon
  generalize hs₃ : s₂.sleepInTaskList 1 () 0x900f00 = s₃ at hlists₃
  have hsame : s₃.pid 1 = s₂.pid 1 ∧ s₃.flags = s₂.flags ∧ s₃.pc 1 = .added ∧
      s₃.task 0x900f00 = 1 ∧ s₃.Stacks := by
    rw [← hs₃]
    exact ⟨rfl, rfl, Function.update_self (β := fun _ => SleepPc) 1 .added s₂.pc,
      Function.update_self (β := fun _ => TaskId) 0x900f00 1 s₂.task,
      ⟨hstacks₂.owned, hstacks₂.handed, hstacks₂.distinct, hstacks₂.apart⟩⟩
  have hone : Function.update (fun _ : Unit => ([] : List ULong)) () [0x900f00] =
      fun _ => [0x900f00] := by
    funext h
    exact Function.update_self ..
  rw [List.nil_append, hone] at hlists₃
  obtain ⟨hpid₃, hflags₃, hpc₃, htask₃, hstacks₃⟩ := hsame
  have hpidne : s₃.pid 1 ≠ 0 := hpid₃ ▸ hpid₂
  have himm₃ : (s₃.flags 1).suspend.immortal = false := by
    rw [hflags₃]
    exact himm
  have hadd : waitStep s₁ (.add 1 false) = some s₂ := by
    rw [waitStep, if_pos ⟨hnext.1, by rw [hnext.2.1]; decide⟩, h₂]
  have hsleep : waitStep s₂ (.sleepInTaskList 1 () 0x900f00) = some s₃ := by
    rw [waitStep, if_pos ⟨hpid₂, hpc, hon⟩, hs₃]
  have hsuspend : waitStep s₃ (.suspend 1) = some { s₃ with
      flags := Function.update s₃.flags 1 (s₃.flags 1).suspend
      pc := Function.update s₃.pc 1 .asleep } := by
    rw [waitStep, if_pos ⟨hpidne, hpc₃⟩]
  refine ⟨_, run_cons_eq_some.mpr ⟨s₁, h₁, run_cons_eq_some.mpr ⟨s₂, hadd,
    run_cons_eq_some.mpr ⟨s₃, hsleep, run_cons_eq_some.mpr ⟨_, hsuspend, rfl⟩⟩⟩⟩, ?_, ?_, ?_, ?_, ?_⟩
  · exact ⟨hstacks₃.owned, hstacks₃.handed, hstacks₃.distinct, hstacks₃.apart⟩
  · exact WaitSys.suspend_spec hlists₃
  · exact hpidne
  · simp only [Function.update_self]
    exact himm₃
  · exact htask₃

theorem along_sleepOps : Along waitStep WaitSys.Calm (WaitSys.init Unit) sleepOps := by
  refine ⟨?_, fun _ _ => ⟨?_, fun _ _ => ⟨?_, fun _ _ => ⟨?_, fun _ _ => trivial⟩⟩⟩⟩
  all_goals
    intro _ hkill
    cases hkill

theorem kill_runs_sleep : ∃ s, run waitStep (WaitSys.init Unit) sleepOps = some s ∧
    s.pid 1 ≠ 0 ∧ s.ListsLive := by
  obtain ⟨s, hrun, -, -, hpid, -⟩ := sleepOps_spec
  exact ⟨s, hrun, hpid, (kill_runs sleepOps s hrun along_sleepOps).1⟩

/-- The task is killed while it sleeps: its element stays on the list, in a page that is
free. -/
theorem killed_sleeper : ∃ s s', run waitStep (WaitSys.init Unit) sleepOps = some s ∧
    s.pid 1 ≠ 0 ∧ s.task 0x900f00 = 1 ∧ waitStep s (.kill 1) = some s' ∧
    s'.Dangles () [] 0x900f00 [] := by
  obtain ⟨s, hrun, hstacks, hlists, hpid, himm, htask⟩ := sleepOps_spec
  have hlinked : Linked s.next NULL (s.head ()) ([] ++ 0x900f00 :: []) := hlists.linked ()
  obtain ⟨s', hkill, hdangles⟩ := WaitSys.kill_dangles hstacks hlists hpid himm hlinked htask
  exact ⟨s, s', hrun, hpid, htask, hkill, hdangles⟩

end Vmm386.Tasks
