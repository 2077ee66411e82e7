import Vmm386.Tasks.Semaphore

/-!
# No signal is lost

Of the two steps of `wait` before a task sleeps, and the two of `signal`, each can come in
between the others. What goes wrong then, and that nothing else does.
-/

namespace Vmm386.Tasks

open Runs

variable {T : Type*} [DecidableEq T]

namespace SemSys

variable {s s' : SemSys T} {t u : T} {pc : SemPc}

@[simp] theorem setPc_pc_self : (s.setPc t pc).pc t = pc := Function.update_self ..

theorem setPc_pc_of_ne (h : u ≠ t) : (s.setPc t pc).pc u = s.pc u := Function.update_of_ne h ..

@[simp] theorem setPc_sem : (s.setPc t pc).sem = s.sem := rfl

@[simp] theorem setPc_flags : (s.setPc t pc).flags = s.flags := rfl

@[simp] theorem setPc_granted : (s.setPc t pc).granted = s.granted := rfl

/-! ## How many tasks have the semaphore -/

/-- A signal that nobody has used yet. -/
def free (s : SemSys T) : ℕ := if s.sem.blocked then 0 else 1

/-- What holds whatever happens; `n` is 1 for a semaphore that is clear at first. -/
structure Inv (n : ℕ) (s : SemSys T) : Prop where
  frozen : ∀ t, (s.flags t).frozen = false
  zombie : ∀ t, (s.flags t).zombie = false
  granted : ∀ t, s.pc t = .schedule → (s.flags t).running = true → t ∈ s.granted
  count : s.passed + s.granted.length + s.free ≤ s.signals + n

theorem Inv.setPc {n : ℕ} (h : s.Inv n) (hpc : pc ≠ .schedule) : (s.setPc t pc).Inv n := by
  refine ⟨h.frozen, h.zombie, ?_, h.count⟩
  intro u hu
  by_cases hut : u = t
  · rw [hut, setPc_pc_self] at hu
    exact absurd hu hpc
  · rw [setPc_pc_of_ne hut] at hu
    exact h.granted u hu

omit [DecidableEq T] in
theorem Inv.clear {n : ℕ} (h : s.Inv n) : s.clear.Inv n := by
  refine ⟨h.frozen, h.zombie, h.granted, ?_⟩
  have hcount := h.count
  show s.passed + s.granted.length + 1 ≤ s.signals + 1 + n
  omega

theorem wakeUpFirstTask_nil (h : s.sem.waiting = []) : s.wakeUpFirstTask = s := by
  rw [wakeUpFirstTask, h]

theorem wakeUpFirstTask_cons {rest : List T} (h : s.sem.waiting = u :: rest) :
    s.wakeUpFirstTask = { s with
      sem := { s.sem with waiting := rest }
      flags := Function.update s.flags u (s.flags u).wake
      granted := u :: s.granted } := by
  rw [wakeUpFirstTask, h]

theorem Inv.wakeUp {n : ℕ} (h : s.Inv n) : s.wakeUp.Inv n := by
  have hcount := h.count
  cases hw : s.sem.waiting with
  | nil =>
    have hs : s.wakeUp = { s with signals := s.signals + 1 } := by
      rw [SemSys.wakeUp, wakeUpFirstTask_nil hw]
    rw [hs]
    refine ⟨h.frozen, h.zombie, h.granted, ?_⟩
    show s.passed + s.granted.length + s.free ≤ s.signals + 1 + n
    omega
  | cons w rest =>
    rw [SemSys.wakeUp, wakeUpFirstTask_cons hw]
    refine ⟨?_, ?_, ?_, ?_⟩
    · intro u
      by_cases hu : u = w
      · subst hu
        simp only [Function.update_self, Flags.wake_frozen, h.frozen]
      · simp only [Function.update_of_ne hu, h.frozen]
    · intro u
      by_cases hu : u = w
      · subst hu
        simp only [Function.update_self, Flags.wake_zombie, h.zombie]
      · simp only [Function.update_of_ne hu, h.zombie]
    · intro u hpc hrun
      by_cases hu : u = w
      · subst hu
        exact List.mem_cons_self ..
      · simp only [Function.update_of_ne hu] at hrun
        exact List.mem_cons_of_mem _ (h.granted u hpc hrun)
    · show s.passed + (w :: s.granted).length + s.free ≤ s.signals + 1 + n
      rw [List.length_cons]
      omega

theorem Inv.go {n : ℕ} (h : s.Inv n) (hrun : (s.flags t).running = true)
    (hgo : s.go t = some s') : s'.Inv n := by
  rw [SemSys.go] at hgo
  split at hgo
  · cases hgo
  · cases hgo
    exact Inv.setPc (s := { s with sem := s.sem.addTaskList t })
      ⟨h.frozen, h.zombie, h.granted, h.count⟩ nofun
  · cases hgo
    exact h.setPc nofun
  · cases hgo
    refine ⟨?_, ?_, ?_, h.count⟩
    · intro u
      by_cases hu : u = t
      · subst hu
        simp only [setPc_flags, Function.update_self, Flags.suspend_frozen, h.frozen]
      · simp only [setPc_flags, Function.update_of_ne hu, h.frozen]
    · intro u
      by_cases hu : u = t
      · subst hu
        simp only [setPc_flags, Function.update_self, Flags.suspend_zombie, h.zombie]
      · simp only [setPc_flags, Function.update_of_ne hu, h.zombie]
    · intro u hpc hr
      by_cases hu : u = t
      · subst hu
        simp only [setPc_flags, Function.update_self, Flags.suspend_running] at hr
        cases hr
      · simp only [setPc_flags, Function.update_of_ne hu] at hr
        rw [setPc_pc_of_ne hu] at hpc
        exact h.granted u hpc hr
  · -- the task has been taken off the list by a signal
    rename_i hpc
    cases hgo
    have hmem := h.granted t hpc hrun
    have hlen := List.length_erase_of_mem hmem
    have hpos := List.length_pos_of_mem hmem
    have hcount := h.count
    refine ⟨h.frozen, h.zombie, ?_, ?_⟩
    · intro u hpcu hr
      by_cases hu : u = t
      · rw [hu, setPc_pc_self] at hpcu
        cases hpcu
      · rw [setPc_pc_of_ne hu] at hpcu
        exact (List.mem_erase_of_ne hu).mpr (h.granted u hpcu hr)
    · show s.passed + 1 + (s.granted.erase t).length + s.free ≤ s.signals + n
      omega
  · cases hgo
    exact h.clear.setPc nofun
  · cases hgo
    exact h.wakeUp.setPc nofun

theorem semStep_inv {n : ℕ} {op : SemOp T} (h : s.Inv n) (hstep : semStep s op = some s') :
    s'.Inv n := by
  cases op with
  | wait t =>
    obtain ⟨-, heq⟩ := Option.ite_none_right_eq_some.mp hstep
    cases heq
    rw [xchg]
    split
    · exact h.setPc nofun
    · rename_i hclear
      have hcount := h.count
      rw [free, if_neg hclear] at hcount
      refine ⟨h.frozen, h.zombie, h.granted, ?_⟩
      show s.passed + 1 + s.granted.length + 0 ≤ s.signals + n
      omega
  | signal t =>
    obtain ⟨-, heq⟩ := Option.ite_none_right_eq_some.mp hstep
    cases heq
    rw [signalTest]
    split
    · exact h.setPc nofun
    · exact h.setPc nofun
  | go t =>
    obtain ⟨hrun, hgo⟩ := Option.ite_none_right_eq_some.mp hstep
    exact h.go hrun hgo
  | irqSignal =>
    cases hstep
    rw [irqSignal]
    split
    · exact h.clear
    · exact h.wakeUp

omit [DecidableEq T] in
theorem init_inv (blocked : Bool) :
    (init T blocked).Inv (if blocked then 0 else 1) where
  frozen _ := rfl
  zombie _ := rfl
  granted _ := nofun
  count := by
    show 0 + 0 + (if blocked then 0 else 1) ≤ 0 + (if blocked then 0 else 1)
    omega

/-! ## Tasks that sleep -/

/-- The task sleeps in `wait`. -/
def Asleep (s : SemSys T) (t : T) : Prop := s.pc t = .schedule ∧ (s.flags t).running = false

/-- Nobody sleeps but for a semaphore that is not free, and whoever sleeps can be found by a
signal. -/
def NoneStuck (s : SemSys T) : Prop :=
  ∀ t, s.Asleep t → s.sem.blocked = true ∧ t ∈ s.sem.waiting

/-- A signal takes effect. -/
def Acts (s : SemSys T) (op : SemOp T) : Prop :=
  op = .irqSignal ∨ ∃ t, op = .go t ∧ (s.pc t = .clear ∨ s.pc t = .wakeUp)

/-- The signal leaves the semaphore clear, or a task that sleeps goes on. -/
def Used (s s' : SemSys T) : Prop :=
  s'.sem.blocked = false ∨ ∃ t, s.Asleep t ∧ (s'.flags t).running = true

/-- The step loses no signal. -/
def SignalsArrive (s : SemSys T) (op : SemOp T) : Prop :=
  ∀ s', semStep s op = some s' → s'.NoneStuck ∧ (s.Acts op → s.Used s')

/-- The first task that waits, if any, sleeps already. -/
def FirstAsleep (s : SemSys T) : Prop := ∃ t rest, s.sem.waiting = t :: rest ∧ s.Asleep t

/-- The steps of `wait` and `signal` do not come in between one another: a task that suspends
itself is still on the list of a semaphore that is still blocked; the semaphore is only cleared
while nobody sleeps; and a signal that has found somebody waiting, or comes from an interrupt
handler and does, finds him asleep if it finds the semaphore blocked. -/
def Undisturbed (s : SemSys T) : SemOp T → Prop
  | .go t =>
    (s.pc t = .suspendSection → s.sem.blocked = true ∧ t ∈ s.sem.waiting) ∧
    (s.pc t = .clear → ∀ u, ¬s.Asleep u) ∧
    (s.pc t = .wakeUp → s.sem.blocked = true → s.FirstAsleep)
  | .irqSignal => s.sem.waiting ≠ [] → s.sem.blocked = true → s.FirstAsleep
  | _ => True

omit [DecidableEq T] in
/-- Nothing changes for those who sleep. -/
theorem NoneStuck.congr (h : s.NoneStuck) (hasleep : ∀ u, s'.Asleep u → s.Asleep u)
    (hblocked : s.sem.blocked = true → s'.sem.blocked = true)
    (hwaiting : s.sem.waiting ⊆ s'.sem.waiting) : s'.NoneStuck := by
  intro u hu
  obtain ⟨hb, hw⟩ := h u (hasleep u hu)
  exact ⟨hblocked hb, hwaiting hw⟩

theorem asleep_setPc (hpc : pc ≠ .schedule) (h : (s.setPc t pc).Asleep u) : s.Asleep u := by
  by_cases hu : u = t
  · rw [Asleep, hu, setPc_pc_self] at h
    exact absurd h.1 hpc
  · rw [Asleep, setPc_pc_of_ne hu] at h
    exact h

theorem asleep_setPc_of_running (hrun : (s.flags t).running = true) (h : s.Asleep u) :
    (s.setPc t pc).Asleep u := by
  have hu : u ≠ t := by
    rintro rfl
    have hr := h.2
    rw [hrun] at hr
    cases hr
  rw [Asleep, setPc_pc_of_ne hu]
  exact h

/-- `wake_up_first_task` loses no signal if the semaphore is clear anyway, or if the first task
sleeps. -/
theorem wakeUp_iff {n : ℕ} (hinv : s.Inv n) (h : s.NoneStuck) :
    (s.sem.blocked = true → s.FirstAsleep) ↔ s.wakeUp.NoneStuck ∧ s.Used s.wakeUp := by
  cases hw : s.sem.waiting with
  | nil =>
    have hs : s.wakeUp = { s with signals := s.signals + 1 } := by
      rw [SemSys.wakeUp, wakeUpFirstTask_nil hw]
    rw [hs]
    constructor
    · intro hfirst
      refine ⟨h, .inl ?_⟩
      by_contra hb
      obtain ⟨t, rest, hcons, -⟩ := hfirst (Bool.not_eq_false _ ▸ hb)
      rw [hw] at hcons
      cases hcons
    · rintro ⟨-, hb | ⟨t, ht, hrun⟩⟩ hblocked
      · change s.sem.blocked = false at hb
        rw [hblocked] at hb
        cases hb
      · have hr := ht.2
        change (s.flags t).running = true at hrun
        rw [hrun] at hr
        cases hr
  | cons w rest =>
    have hwake : (s.flags w).wake.running = true :=
      Flags.wake_running (hinv.frozen w) (hinv.zombie w)
    rw [SemSys.wakeUp, wakeUpFirstTask_cons hw]
    constructor
    · intro hfirst
      constructor
      · rintro u ⟨hpc, hrun⟩
        have hu : u ≠ w := by
          rintro rfl
          simp only [Function.update_self, hwake] at hrun
          cases hrun
        simp only [Function.update_of_ne hu] at hrun
        obtain ⟨hb, hmem⟩ := h u ⟨hpc, hrun⟩
        rw [hw] at hmem
        exact ⟨hb, (List.mem_cons.mp hmem).resolve_left hu⟩
      · cases hb : s.sem.blocked with
        | false => exact .inl hb
        | true =>
          obtain ⟨t, rest', hcons, hasleep⟩ := hfirst hb
          rw [hw] at hcons
          cases hcons
          exact .inr ⟨w, hasleep, by simp only [Function.update_self, hwake]⟩
    · rintro ⟨-, hb | ⟨t, ht, hrun⟩⟩ hblocked
      · change s.sem.blocked = false at hb
        rw [hblocked] at hb
        cases hb
      · -- only the first task is woken
        by_cases htw : t = w
        · exact ⟨w, rest, hw, htw ▸ ht⟩
        · simp only [Function.update_of_ne htw] at hrun
          rw [ht.2] at hrun
          cases hrun

theorem wakeUp_running (hrun : (s.flags t).running = true) :
    (s.wakeUp.flags t).running = true := by
  cases hw : s.sem.waiting with
  | nil =>
    rw [SemSys.wakeUp, wakeUpFirstTask_nil hw]
    exact hrun
  | cons w rest =>
    rw [SemSys.wakeUp, wakeUpFirstTask_cons hw]
    by_cases ht : t = w
    · subst ht
      simp only [Function.update_self, Flags.wake_of_running hrun, hrun]
    · simp only [Function.update_of_ne ht, hrun]

theorem noneStuck_setPc (hpc : pc ≠ .schedule) (hrun : (s.flags t).running = true) :
    (s.setPc t pc).NoneStuck ↔ s.NoneStuck := by
  constructor
  · intro h u hu
    exact h u (asleep_setPc_of_running hrun hu)
  · intro h u hu
    exact h u (asleep_setPc hpc hu)

omit [DecidableEq T] in
/-- The semaphore is cleared by a signal that has found nobody waiting. -/
theorem clear_iff : (∀ u, ¬s.Asleep u) ↔ s.clear.NoneStuck := by
  constructor
  · intro h u hu
    exact absurd hu (h u)
  · intro h u hu
    have hb := (h u hu).1
    cases hb

/-- A task goes to sleep. -/
theorem suspend_iff (h : s.NoneStuck) :
    (s.sem.blocked = true ∧ t ∈ s.sem.waiting) ↔
      ({ s with flags := Function.update s.flags t (s.flags t).suspend }.setPc t
        .schedule).NoneStuck := by
  constructor
  · intro ht u hu
    by_cases hut : u = t
    · subst hut
      exact ht
    · rw [Asleep, setPc_pc_of_ne hut] at hu
      simp only [setPc_flags, Function.update_of_ne hut] at hu
      exact h u hu
  · intro h'
    refine h' t ⟨setPc_pc_self, ?_⟩
    simp only [setPc_flags, Function.update_self, Flags.suspend_running]

/-- A step loses no signal if and only if it is undisturbed. -/
theorem undisturbed_iff {n : ℕ} {op : SemOp T} (hinv : s.Inv n) (h : s.NoneStuck)
    (hstep : semStep s op = some s') : s.Undisturbed op ↔ s.SignalsArrive op := by
  have harrive : s.SignalsArrive op ↔ s'.NoneStuck ∧ (s.Acts op → s.Used s') := by
    constructor
    · intro ha
      exact ha s' hstep
    · intro ha s'' hstep'
      cases hstep.symm.trans hstep'
      exact ha
  rw [harrive]
  cases op with
  | wait t =>
    obtain ⟨⟨hrun, -⟩, heq⟩ := Option.ite_none_right_eq_some.mp hstep
    cases heq
    refine iff_of_true trivial ⟨?_, by rintro (hact | ⟨u, hact, -⟩) <;> cases hact⟩
    rw [xchg]
    split
    · exact (noneStuck_setPc (show SemPc.addTaskList ≠ .schedule from nofun) hrun).mpr h
    · exact h.congr (fun _ => id) (fun _ => rfl) (List.Subset.refl _)
  | signal t =>
    obtain ⟨⟨hrun, -⟩, heq⟩ := Option.ite_none_right_eq_some.mp hstep
    cases heq
    refine iff_of_true trivial ⟨?_, by rintro (hact | ⟨u, hact, -⟩) <;> cases hact⟩
    rw [signalTest]
    split
    · exact (noneStuck_setPc (show SemPc.clear ≠ .schedule from nofun) hrun).mpr h
    · exact (noneStuck_setPc (show SemPc.wakeUp ≠ .schedule from nofun) hrun).mpr h
  | irqSignal =>
    cases hstep
    rw [Undisturbed, irqSignal]
    by_cases hw : s.sem.waiting = []
    · rw [if_pos hw]
      refine iff_of_true (fun hne => absurd hw hne) ⟨clear_iff.mp ?_, fun _ => .inl rfl⟩
      intro u hu
      have hmem := (h u hu).2
      rw [hw] at hmem
      cases hmem
    · rw [if_neg hw]
      have hiff := wakeUp_iff hinv h
      constructor
      · intro hu
        obtain ⟨hstuck, hused⟩ := hiff.mp (hu hw)
        exact ⟨hstuck, fun _ => hused⟩
      · rintro ⟨hstuck, hused⟩ -
        exact hiff.mpr ⟨hstuck, hused (.inl rfl)⟩
  | go t =>
    obtain ⟨hrun, hgo⟩ := Option.ite_none_right_eq_some.mp hstep
    have hno : s.pc t ≠ .clear → s.pc t ≠ .wakeUp → ¬s.Acts (.go t) := by
      rintro hc hw (hact | ⟨u, hact, hpc⟩)
      · cases hact
      · cases hact
        exact hpc.elim hc hw
    rw [SemSys.go] at hgo
    split at hgo
    · cases hgo
    · rename_i hpc
      cases hgo
      refine iff_of_true ?_ ⟨?_, fun hact => absurd hact (hno ?_ ?_)⟩
      · rw [Undisturbed, hpc]
        exact ⟨nofun, nofun, nofun⟩
      · refine (noneStuck_setPc (s := { s with sem := s.sem.addTaskList t })
          (show SemPc.suspendTask ≠ .schedule from nofun) hrun).mpr ?_
        exact h.congr (fun _ => id) id (List.subset_append_left ..)
      · rw [hpc]
        exact nofun
      · rw [hpc]
        exact nofun
    · rename_i hpc
      cases hgo
      refine iff_of_true ?_ ⟨?_, fun hact => absurd hact (hno ?_ ?_)⟩
      · rw [Undisturbed, hpc]
        exact ⟨nofun, nofun, nofun⟩
      · exact (noneStuck_setPc (show SemPc.suspendSection ≠ .schedule from nofun) hrun).mpr h
      · rw [hpc]
        exact nofun
      · rw [hpc]
        exact nofun
    · rename_i hpc
      cases hgo
      have hact : ¬s.Acts (.go t) := hno (by rw [hpc]; exact nofun) (by rw [hpc]; exact nofun)
      rw [Undisturbed, hpc]
      constructor
      · intro hu
        exact ⟨(suspend_iff h).mp (hu.1 rfl), fun ha => absurd ha hact⟩
      · intro ha
        exact ⟨fun _ => (suspend_iff h).mpr ha.1, nofun, nofun⟩
    · rename_i hpc
      cases hgo
      refine iff_of_true ?_ ⟨?_, fun hact => absurd hact (hno ?_ ?_)⟩
      · rw [Undisturbed, hpc]
        exact ⟨nofun, nofun, nofun⟩
      · exact (noneStuck_setPc
          (s := { s with passed := s.passed + 1, granted := s.granted.erase t })
          (show SemPc.idle ≠ .schedule from nofun) hrun).mpr h
      · rw [hpc]
        exact nofun
      · rw [hpc]
        exact nofun
    · rename_i hpc
      cases hgo
      have hstuck := noneStuck_setPc (s := s.clear) (t := t) (show SemPc.idle ≠ .schedule from nofun) hrun
      rw [Undisturbed, hpc, hstuck, ← clear_iff]
      constructor
      · intro hu
        exact ⟨hu.2.1 rfl, fun _ => .inl rfl⟩
      · intro ha
        exact ⟨nofun, fun _ => ha.1, nofun⟩
    · rename_i hpc
      cases hgo
      have hstuck := noneStuck_setPc (s := s.wakeUp) (t := t) (show SemPc.idle ≠ .schedule from nofun)
        (wakeUp_running hrun)
      have hiff := wakeUp_iff hinv h
      rw [Undisturbed, hpc, hstuck]
      constructor
      · intro hu
        obtain ⟨hs, hused⟩ := hiff.mp (hu.2.2 rfl)
        exact ⟨hs, fun _ => hused⟩
      · intro ha
        exact ⟨nofun, nofun, fun _ => hiff.mpr ⟨ha.1, ha.2 (.inr ⟨t, rfl, .inr hpc⟩)⟩⟩

end SemSys

/-- **Semaphores.** Whatever the order of steps, no more tasks pass `wait` than signals have
been given, but for the one that finds the semaphore clear at first. No signal of a run is lost
if and only if all its steps are undisturbed. -/
theorem sem_runs (blocked : Bool) (ops : List (SemOp T)) (s : SemSys T)
    (hrun : run semStep (SemSys.init T blocked) ops = some s) :
    s.passed ≤ s.signals + (if blocked then 0 else 1) ∧
      (Along semStep SemSys.Undisturbed (SemSys.init T blocked) ops ↔
        Along semStep SemSys.SignalsArrive (SemSys.init T blocked) ops) := by
  have hinit := SemSys.init_inv (T := T) blocked
  generalize hn : (if blocked then 0 else 1) = n at hinit ⊢
  have hkept : Preserves semStep (fun _ _ => True) (SemSys.Inv (T := T) n) :=
    fun s op s' h _ hstep => SemSys.semStep_inv h hstep
  constructor
  · have hcount := (hkept.run hinit (along_true _ _) hrun).count
    omega
  · have hkept' : Preserves semStep SemSys.SignalsArrive
        fun s : SemSys T => s.Inv n ∧ s.NoneStuck := fun s op s' h ha hstep =>
      ⟨SemSys.semStep_inv h.1 hstep, (ha s' hstep).1⟩
    refine along_iff ?_ hkept' ⟨hinit, ?_⟩ hrun
    · exact fun s op s' h hstep => SemSys.undisturbed_iff h.1 h.2 hstep
    · rintro t ⟨hpc, -⟩
      cases hpc

/-- A task gets the semaphore, another one sleeps, is woken by the signal of the first, and
gets it in turn. -/
def handOverOps : List (SemOp Bool) :=
  [.wait false, .wait true, .go true, .go true, .go true, .signal false, .go false, .go true]

theorem sem_runs_handOver :
    ∃ s, run semStep (SemSys.init Bool false) handOverOps = some s ∧ s.passed = 2 ∧
      s.passed ≤ s.signals + 1 :=
  ⟨_, rfl, rfl, (sem_runs false handOverOps _ rfl).1⟩

/-- An interrupt handler signals when the task that waits is not on the list yet, or on it but
not suspended yet. Either way the task sleeps though the signal has been given. -/
def lostOps (between : List (SemOp Unit)) : List (SemOp Unit) :=
  .wait () :: between ++ [.go (), .go ()]

theorem signal_lost :
    (∃ s, run semStep (SemSys.init Unit true) (lostOps [.irqSignal, .go ()]) = some s ∧
      s.signals = 1 ∧ s.passed = 0 ∧ s.Asleep () ∧ s.sem.blocked = false) ∧
    ∃ s, run semStep (SemSys.init Unit true) (lostOps [.go (), .irqSignal]) = some s ∧
      s.signals = 1 ∧ s.passed = 0 ∧ s.Asleep () ∧ s.sem.blocked = true ∧
      s.sem.waiting = [] :=
  ⟨⟨_, rfl, rfl, rfl, ⟨rfl, rfl⟩, rfl⟩, ⟨_, rfl, rfl, rfl, ⟨rfl, rfl⟩, rfl, rfl⟩⟩

end Vmm386.Tasks
