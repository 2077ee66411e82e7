import Vmm386.Syslogd.SyslogTheorems

/-!
# `syslogd` wakes up

The signals that are under way while `syslogd` goes to sleep, and the runs of the log in which
nothing comes in between.
-/

namespace Vmm386.Syslogd

open Tasks Runs

namespace Syslog

variable {P : Type*} {s s' : Syslog P} {p q : P} {entry : Entry}

/-! ## The signals under way -/

/-- The task waits for the semaphore, or is about to. -/
def Listed (s : Syslog P) : Prop :=
  s.pc = .suspendTask ∨ s.pc = .suspendSection ∨ s.flags.running = false

/-- Some task is in `signal`, at `pc` or `pc'`. -/
def InSignal (s : Syslog P) (pc pc' : ProducerPc) : Prop :=
  ∃ p, s.producer p = pc ∨ s.producer p = pc'

/-- A signal is on its way that `syslogd` will not miss. -/
structure Pending (s : Syslog P) : Prop where
  quiet : s.pc = .setBlocked ∨ s.pc = .addTaskList → s.InSignal .signal .clear
  free : s.pc = .setWaiting ∨ s.pc = .xchg ∨ s.pc = .start →
    s.newData.blocked = false ∨ s.InSignal .signal .clear
  listed : s.Listed → s.InSignal .signal .wakeUp

/-- While there are bytes in the buffer `syslogd` is awake, or will be woken. -/
structure Awake (s : Syslog P) : Prop where
  frozen : s.flags.frozen = false
  zombie : s.flags.zombie = false
  asleep : s.flags.running = false → s.pc = .schedule
  waiting : s.Listed → s.newData.waiting = [()]
  nobody : ¬s.Listed → s.newData.waiting = []
  pending : s.bufIdx ≠ 0 → s.Pending

/-- The places of `syslog_task` from which it goes to sleep. -/
def near : SyslogPc → Bool
  | .start | .xchg | .addTaskList | .suspendTask | .suspendSection | .setBlocked
  | .setWaiting => true
  | _ => false

theorem not_listed (hrun : s.flags.running = true) (ht : s.pc ≠ .suspendTask)
    (hs : s.pc ≠ .suspendSection) : ¬s.Listed := by
  rintro (h | h | h)
  · exact ht h
  · exact hs h
  · rw [hrun] at h
    cases h

/-- `syslogd` runs, and is not on the list. -/
theorem Awake.runs (h : s.Awake) (hflags : s'.flags = s.flags) (hlisted : ¬s'.Listed)
    (hw : s'.newData.waiting = [])
    (hquiet : s'.bufIdx ≠ 0 → s'.pc = .setBlocked ∨ s'.pc = .addTaskList →
      s'.InSignal .signal .clear)
    (hfree : s'.bufIdx ≠ 0 → s'.pc = .setWaiting ∨ s'.pc = .xchg ∨ s'.pc = .start →
      s'.newData.blocked = false ∨ s'.InSignal .signal .clear) : s'.Awake := by
  refine ⟨hflags ▸ h.frozen, hflags ▸ h.zombie, fun hr => absurd (.inr (.inr hr)) hlisted,
    fun hl => absurd hl hlisted, fun _ => hw, ?_⟩
  exact fun hb => ⟨hquiet hb, hfree hb, fun hl => absurd hl hlisted⟩

/-- `syslogd` runs, far from going to sleep. -/
theorem Awake.far (h : s.Awake) (hflags : s'.flags = s.flags) (hrun : s.flags.running = true)
    (hpc : near s'.pc = false) (hw : s'.newData.waiting = []) : s'.Awake := by
  have hne : ∀ pc, near pc = true → s'.pc ≠ pc := by
    rintro pc hnear rfl
    rw [hpc] at hnear
    cases hnear
  refine h.runs hflags (not_listed (hflags ▸ hrun) (hne _ rfl) (hne _ rfl)) hw ?_ ?_
  · rintro - (heq | heq)
    · exact absurd heq (hne _ rfl)
    · exact absurd heq (hne _ rfl)
  · rintro - (heq | heq | heq)
    · exact absurd heq (hne _ rfl)
    · exact absurd heq (hne _ rfl)
    · exact absurd heq (hne _ rfl)

/-- `syslogd` is on the list, and goes to sleep. -/
theorem Awake.sleeps (h : s.Awake) (hfrozen : s'.flags.frozen = s.flags.frozen)
    (hzombie : s'.flags.zombie = s.flags.zombie)
    (hasleep : s'.flags.running = false → s'.pc = .schedule) (hlisted : s'.Listed)
    (hpc : s'.pc = .suspendTask ∨ s'.pc = .suspendSection ∨ s'.pc = .schedule)
    (hw : s'.newData.waiting = [()])
    (hsignal : s'.bufIdx ≠ 0 → s'.InSignal .signal .wakeUp) : s'.Awake := by
  refine ⟨hfrozen ▸ h.frozen, hzombie ▸ h.zombie, hasleep, fun _ => hw,
    fun hn => absurd hlisted hn, fun hb => ⟨?_, ?_, fun _ => hsignal hb⟩⟩
  · rintro (heq | heq) <;> rw [heq] at hpc <;> rcases hpc with hpc | hpc | hpc <;> cases hpc
  · rintro (heq | heq | heq) <;> rw [heq] at hpc <;> rcases hpc with hpc | hpc | hpc <;> cases hpc

theorem syslogTask_awake (h : s.Awake)
    (hcalm : s.pc = .addTaskList → s.bufIdx ≠ 0 → ∀ p, s.producer p ≠ .clear)
    (hstep : s.syslogTask = some s') : s'.Awake := by
  obtain ⟨hrun, hstep⟩ := Option.ite_none_right_eq_some.mp hstep
  have hnot : ¬s.flags.running = false := by
    rw [hrun]
    exact nofun
  have hempty : s.pc ≠ .suspendTask → s.pc ≠ .suspendSection → s.newData.waiting = [] :=
    fun ht hs => h.nobody (not_listed hrun ht hs)
  split at hstep
  · rename_i hpc
    have hw := hempty (by rw [hpc]; exact nofun) (by rw [hpc]; exact nofun)
    cases hstep
    refine h.runs rfl (not_listed hrun nofun nofun) hw nofun ?_
    exact fun hb _ => (h.pending hb).free (.inr (.inr hpc))
  · rename_i hpc
    have hw := hempty (by rw [hpc]; exact nofun) (by rw [hpc]; exact nofun)
    split at hstep
    · rename_i hblocked
      cases hstep
      refine h.runs rfl (not_listed hrun nofun nofun) hw ?_ nofun
      intro hb _
      rcases (h.pending hb).free (.inr (.inl hpc)) with hfree | hsignal
      · rw [hblocked] at hfree
        cases hfree
      · exact hsignal
    · cases hstep
      exact h.far rfl hrun rfl hw
  · rename_i hpc
    have hw := hempty (by rw [hpc]; exact nofun) (by rw [hpc]; exact nofun)
    cases hstep
    refine h.sleeps rfl rfl (fun hr => absurd hr hnot) (.inl rfl) (.inl rfl) ?_ ?_
    · show s.newData.waiting ++ [()] = [()]
      rw [hw]
      rfl
    · -- whoever is in `signal` has still to look at the list
      intro hb
      obtain ⟨p, hp⟩ := (h.pending hb).quiet (.inr hpc)
      exact ⟨p, .inl (hp.resolve_right (hcalm hpc hb p))⟩
  · rename_i hpc
    cases hstep
    exact h.sleeps rfl rfl (fun hr => absurd hr hnot) (.inr (.inl rfl)) (.inr (.inl rfl))
      (h.waiting (.inl hpc)) fun hb => (h.pending hb).listed (.inl hpc)
  · rename_i hpc
    cases hstep
    exact h.sleeps rfl rfl (fun _ => rfl) (.inr (.inr rfl)) (.inr (.inr rfl))
      (h.waiting (.inr (.inl hpc))) fun hb => (h.pending hb).listed (.inr (.inl hpc))
  · rename_i hpc
    cases hstep
    exact h.far rfl hrun rfl (hempty (by rw [hpc]; exact nofun) (by rw [hpc]; exact nofun))
  · rename_i hpc
    have hw := hempty (by rw [hpc]; exact nofun) (by rw [hpc]; exact nofun)
    split at hstep
    · cases hstep
      exact h.far rfl hrun rfl hw
    · rename_i hzero
      cases hstep
      have hb : s.bufIdx = 0 := by
        apply BitVec.eq_of_toNat_eq
        exact Nat.eq_zero_of_not_pos hzero
      exact h.runs rfl (not_listed hrun nofun nofun) hw (fun hne => absurd hb hne)
        fun hne => absurd hb hne
  · rename_i hpc
    cases hstep
    exact h.far rfl hrun rfl (hempty (by rw [hpc]; exact nofun) (by rw [hpc]; exact nofun))
  · rename_i hpc
    cases hstep
    exact h.far rfl hrun rfl (hempty (by rw [hpc]; exact nofun) (by rw [hpc]; exact nofun))
  · rename_i hpc
    have hw := hempty (by rw [hpc]; exact nofun) (by rw [hpc]; exact nofun)
    split at hstep
    · cases hstep
      exact h.far rfl hrun rfl hw
    · cases hstep
      exact h.far rfl hrun rfl hw
  · rename_i hpc
    cases hstep
    exact h.far rfl hrun rfl (hempty (by rw [hpc]; exact nofun) (by rw [hpc]; exact nofun))
  · rename_i hpc
    cases hstep
    exact h.far rfl hrun rfl (hempty (by rw [hpc]; exact nofun) (by rw [hpc]; exact nofun))
  · rename_i hpc
    have hw := hempty (by rw [hpc]; exact nofun) (by rw [hpc]; exact nofun)
    split at hstep
    · cases hstep
      exact h.far rfl hrun rfl hw
    · cases hstep
      exact h.far rfl hrun rfl hw
  · rename_i hpc
    have hw := hempty (by rw [hpc]; exact nofun) (by rw [hpc]; exact nofun)
    cases hstep
    exact h.runs rfl (not_listed hrun nofun nofun) hw (fun hne => absurd rfl hne)
      fun hne => absurd rfl hne
  · rename_i hpc
    have hw := hempty (by rw [hpc]; exact nofun) (by rw [hpc]; exact nofun)
    cases hstep
    refine h.runs rfl (not_listed hrun nofun nofun) hw nofun ?_
    exact fun hb _ => .inr ((h.pending hb).quiet (.inl hpc))
  · rename_i hpc
    cases hstep
    refine h.runs rfl (not_listed hrun nofun nofun) rfl nofun ?_
    exact fun hb _ => (h.pending hb).free (.inl hpc)

/-- Only entries and signals change. -/
theorem Awake.same (h : s.Awake) (hflags : s'.flags = s.flags) (hpc : s'.pc = s.pc)
    (hw : s'.newData.waiting = s.newData.waiting) (hpending : s'.bufIdx ≠ 0 → s'.Pending) :
    s'.Awake := by
  have hlisted : s'.Listed ↔ s.Listed := by rw [Listed, Listed, hflags, hpc]
  refine ⟨hflags ▸ h.frozen, hflags ▸ h.zombie, ?_, ?_, ?_, hpending⟩
  · rw [hflags, hpc]
    exact h.asleep
  · rw [hlisted, hw]
    exact h.waiting
  · rw [hlisted, hw]
    exact h.nobody

theorem Awake.listed_pc (h : s.Awake) (hl : s.Listed) :
    s.pc = .suspendTask ∨ s.pc = .suspendSection ∨ s.pc = .schedule :=
  hl.imp_right fun hr => hr.imp_right h.asleep

/-- `wake_up_first_task` when `syslogd` sleeps. -/
theorem wakeUp_awake (h : s.Awake) (hasleep : s.flags.running = false)
    (hflags : s'.flags = s.flags.wake) (hpc : s'.pc = s.pc) (hw : s'.newData.waiting = []) :
    s'.Awake := by
  have hrun : s'.flags.running = true := by
    rw [hflags]
    exact Flags.wake_running h.frozen h.zombie
  have hfar : s'.pc = .schedule := hpc.trans (h.asleep hasleep)
  have hlisted : ¬s'.Listed :=
    not_listed hrun (by rw [hfar]; exact nofun) (by rw [hfar]; exact nofun)
  refine ⟨?_, ?_, fun hr => absurd (.inr (.inr hr)) hlisted, fun hl => absurd hl hlisted,
    fun _ => hw, fun _ => ⟨?_, ?_, fun hl => absurd hl hlisted⟩⟩
  · rw [hflags, Flags.wake_frozen, h.frozen]
  · rw [hflags, Flags.wake_zombie, h.zombie]
  · rw [hfar]
    exact fun hc => by rcases hc with hc | hc <;> cases hc
  · rw [hfar]
    exact fun hc => by rcases hc with hc | hc | hc <;> cases hc

/-- A signal from an interrupt handler that comes in between nothing. -/
theorem signal_awake (h : s.Awake) (hflags : s'.flags = s.flags) (hpc : s'.pc = s.pc)
    (hdata : s'.newData = s.newData) (hset : s.pc ≠ .setBlocked) (hadd : s.pc ≠ .addTaskList)
    (htask : s.pc ≠ .suspendTask) (hsection : s.pc ≠ .suspendSection) : s'.signal.Awake := by
  rw [signal, hdata]
  by_cases hl : s.Listed
  · have hasleep := (hl.resolve_left htask).resolve_left hsection
    have hw := h.waiting hl
    rw [hw, if_neg (List.cons_ne_nil _ _), wakeUpFirstTask, hdata, hw]
    exact wakeUp_awake h hasleep (congrArg Flags.wake hflags) hpc rfl
  · rw [if_pos (h.nobody hl)]
    have hw : s'.newData.waiting = s.newData.waiting := by rw [hdata]
    suffices hpending : s'.clear.bufIdx ≠ 0 → s'.clear.Pending from h.same hflags hpc hw hpending
    refine fun _ => ⟨?_, fun _ => .inl rfl, ?_⟩
    · intro hc
      change s'.pc = _ ∨ s'.pc = _ at hc
      rw [hpc] at hc
      exact absurd hc (not_or.mpr ⟨hset, hadd⟩)
    · intro hl'
      change s'.pc = _ ∨ s'.pc = _ ∨ s'.flags.running = _ at hl'
      rw [hpc, hflags] at hl'
      exact absurd hl' hl

theorem irqLog_awake (h : s.Awake) (hset : s.pc ≠ .setBlocked) (hadd : s.pc ≠ .addTaskList)
    (htask : s.pc ≠ .suspendTask) (hsection : s.pc ≠ .suspendSection) :
    (s.irqLog entry).Awake := by
  rw [irqLog]
  split
  · exact signal_awake h rfl rfl rfl hset hadd htask hsection
  · exact signal_awake h rfl rfl rfl hset hadd htask hsection

section Producer

variable [DecidableEq P]

@[simp] theorem setProducer_self (pc : ProducerPc) : (s.setProducer p pc).producer p = pc :=
  Function.update_self ..

theorem setProducer_of_ne {pc : ProducerPc} (h : q ≠ p) :
    (s.setProducer p pc).producer q = s.producer q := Function.update_of_ne h ..

/-- A task that is not in `signal` at `pc` or `pc'` is not missed there. -/
theorem InSignal.setProducer {pc pc' x : ProducerPc} (h : s.InSignal pc pc')
    (hp : s.producer p ≠ pc) (hp' : s.producer p ≠ pc') :
    (s.setProducer p x).InSignal pc pc' := by
  obtain ⟨q, hq⟩ := h
  have hne : q ≠ p := by
    rintro rfl
    exact hq.elim hp hp'
  refine ⟨q, ?_⟩
  rw [setProducer_of_ne hne]
  exact hq

theorem cookedEntry_awake {handle : ℤ} (h : s.Awake) :
    (s.cookedEntry p handle entry).Awake := by
  rw [cookedEntry]
  split
  · split
    · refine h.same rfl rfl rfl fun hb => ?_
      exact ⟨(h.pending hb).quiet, (h.pending hb).free, (h.pending hb).listed⟩
    · refine h.same rfl rfl rfl fun _ => ⟨fun _ => ⟨p, .inl ?_⟩, fun _ => .inr ⟨p, .inl ?_⟩,
        fun _ => ⟨p, .inl ?_⟩⟩
      · exact setProducer_self ..
      · exact setProducer_self ..
      · exact setProducer_self ..
  · exact h

theorem goOn_awake (h : s.Awake)
    (hclear : s.holder = none → s.producer p = .clear → s.bufIdx ≠ 0 →
      s.pc ≠ .setBlocked ∧ s.pc ≠ .addTaskList)
    (hwake : s.holder = none → s.producer p = .wakeUp →
      s.pc ≠ .suspendTask ∧ s.pc ≠ .suspendSection)
    (hstep : s.goOn p = some s') : s'.Awake := by
  rw [goOn] at hstep
  split at hstep
  · rename_i q entry hholder
    obtain ⟨-, heq⟩ := Option.ite_none_right_eq_some.mp hstep
    cases heq
    refine h.same rfl rfl rfl fun _ => ⟨fun _ => ⟨p, .inl ?_⟩, fun _ => .inr ⟨p, .inl ?_⟩,
      fun _ => ⟨p, .inl ?_⟩⟩
    · exact setProducer_self ..
    · exact setProducer_self ..
    · exact setProducer_self ..
  · rename_i hholder
    split at hstep
    · cases hstep
    · rename_i hp
      split at hstep
      · -- nobody waits: the semaphore will be cleared
        rename_i hw
        cases hstep
        refine h.same rfl rfl rfl fun _ => ⟨fun _ => ⟨p, .inr ?_⟩, fun _ => .inr ⟨p, .inr ?_⟩,
          fun hl => ?_⟩
        · exact setProducer_self ..
        · exact setProducer_self ..
        · have hl' := h.waiting hl
          rw [hw] at hl'
          cases hl'
      · rename_i hw
        cases hstep
        have hlisted : s.Listed := by
          by_contra hl
          exact hw (h.nobody hl)
        have hpc := h.listed_pc hlisted
        refine h.same rfl rfl rfl fun _ => ⟨?_, ?_, fun _ => ⟨p, .inr ?_⟩⟩
        · rintro (heq | heq) <;> rw [show s.pc = _ from heq] at hpc <;>
            rcases hpc with hpc | hpc | hpc <;> cases hpc
        · rintro (heq | heq | heq) <;> rw [show s.pc = _ from heq] at hpc <;>
            rcases hpc with hpc | hpc | hpc <;> cases hpc
        · exact setProducer_self ..
    · rename_i hp
      cases hstep
      refine h.same rfl rfl rfl fun hb => ⟨?_, fun _ => .inl rfl, ?_⟩
      · intro hc
        exact absurd hc (not_or.mpr (hclear hholder hp hb))
      · intro hl
        have hsignal : s.clear.InSignal .signal .wakeUp := (h.pending hb).listed hl
        have hp' : s.clear.producer p = .clear := hp
        exact hsignal.setProducer (fun hc => by rw [hp'] at hc; cases hc) (fun hc => by rw [hp'] at hc; cases hc)
    · rename_i hp
      cases hstep
      by_cases hl : s.Listed
      · obtain ⟨htask, hsection⟩ := hwake hholder hp
        have hasleep := (hl.resolve_left htask).resolve_left hsection
        rw [wakeUpFirstTask, h.waiting hl]
        exact wakeUp_awake h hasleep rfl rfl rfl
      · rw [wakeUpFirstTask, h.nobody hl]
        refine h.same rfl rfl rfl fun hb => ⟨?_, ?_, fun hl' => absurd hl' hl⟩
        · intro hc
          exact ((h.pending hb).quiet hc).setProducer (fun hc => by rw [hp] at hc; cases hc)
            (fun hc => by rw [hp] at hc; cases hc)
        · intro hc
          exact ((h.pending hb).free hc).imp_right fun hs =>
            hs.setProducer (fun hc => by rw [hp] at hc; cases hc) (fun hc => by rw [hp] at hc; cases hc)

end Producer

/-! ## Runs -/

/-- No entry is made while `syslogd` is between the call of `fs->write` and the reset of
`buf_idx`, and none in an interrupt handler while a task is copying one; no signal takes effect
between the reset and `set_sem_blocked` or between the exchange and the suspension in `wait`;
and `syslogd` does not go on the list while a signal is on its way that has found it empty. -/
def Undisturbed (s : Syslog P) : SyslogOp P → Prop
  | .setConfig _ => True
  | .entry _ handle entry => s.config.Logs handle → s.HasRoom entry → s.pc.draining = false
  | .producer p => s.holder = none →
    (s.producer p = .clear → s.bufIdx ≠ 0 → s.pc ≠ .setBlocked ∧ s.pc ≠ .addTaskList) ∧
    (s.producer p = .wakeUp → s.pc ≠ .suspendTask ∧ s.pc ≠ .suspendSection)
  | .irq handle entry => s.config.Logs handle →
    (s.HasRoom entry → s.holder = none ∧ s.pc.draining = false) ∧ s.pc ≠ .setBlocked ∧
    s.pc ≠ .addTaskList ∧ s.pc ≠ .suspendTask ∧ s.pc ≠ .suspendSection
  | .syslogd => s.pc = .addTaskList → s.bufIdx ≠ 0 → ∀ p, s.producer p ≠ .clear

variable [DecidableEq P]

theorem syslogStep_inv {op : SyslogOp P} (hdata : s.Data) (h : s.Awake)
    (hcalm : s.Undisturbed op) (hstep : syslogStep s op = some s') : s'.Data ∧ s'.Awake := by
  cases op with
  | setConfig config =>
    cases hstep
    exact ⟨hdata.congr rfl rfl rfl rfl rfl rfl rfl, h.same rfl rfl rfl fun hb =>
      ⟨(h.pending hb).quiet, (h.pending hb).free, (h.pending hb).listed⟩⟩
  | entry p handle entry =>
    obtain ⟨⟨hholder, -, hlen⟩, heq⟩ := Option.ite_none_right_eq_some.mp hstep
    cases heq
    exact ⟨cookedEntry_data hdata hholder hlen hcalm, cookedEntry_awake h⟩
  | producer p =>
    exact ⟨goOn_data hdata hstep,
      goOn_awake h (fun hholder => (hcalm hholder).1) (fun hholder => (hcalm hholder).2) hstep⟩
  | irq handle entry =>
    obtain ⟨hlen, heq⟩ := Option.ite_none_right_eq_some.mp hstep
    cases heq
    split
    · rename_i hlogs
      obtain ⟨hcopy, hset, hadd, htask, hsection⟩ := hcalm hlogs
      exact ⟨irqLog_data hdata hlen hcopy, irqLog_awake h hset hadd htask hsection⟩
    · exact ⟨hdata, h⟩
  | syslogd =>
    obtain ⟨hholder, hstep⟩ := Option.ite_none_right_eq_some.mp hstep
    exact ⟨syslogTask_data hdata hholder hstep, syslogTask_awake h hcalm hstep⟩

omit [DecidableEq P] in
theorem init_inv (config : LogConfig) : (init P config).Data ∧ (init P config).Awake := by
  constructor
  · exact ⟨fun _ => by show 0 < 8192; omega, nofun, rfl, rfl, nofun⟩
  · refine ⟨rfl, rfl, nofun, ?_, fun _ => rfl, fun hb => absurd rfl hb⟩
    rintro (h | h | h) <;> cases h

end Syslog

/-- Everything is logged. -/
def logAll : LogConfig where
  doLogging := true
  handles _ := { used := true, level := 0 }
  logLevel := 4

/-- A second entry is made while `fs->write` writes the first one. -/
def lateEntryOps : List (SyslogOp Unit) :=
  [.syslogd, .entry () 0 [97], .producer (), .producer (), .producer (), .syslogd, .syslogd,
    .syslogd, .syslogd, .entry () 0 [98], .producer ()] ++ List.replicate 8 .syslogd

end Vmm386.Syslogd
