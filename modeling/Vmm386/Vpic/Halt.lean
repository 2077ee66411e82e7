import Vmm386.Vpic.PicRuns

/-!
# HLT

The fault handler marks a halted machine and suspends its task in two steps, and tests nothing
before it does so; `simulate_irq` comes from interrupts at any point. Only the next
`simulate_irq` wakes the task.
-/

namespace Vmm386.Vpic

open Runs Tasks
open Vmach (FLAGS_IF)

/-- Where the fault handler is in HLT, or in the HLT that follows STI. -/
inductive HandlerPc where
  /-- The machine's own code runs, or another handler. -/
  | guest
  /-- Before `vm->hlted` is set. -/
  | setHlted (sti : Bool)
  /-- Before `suspend_task`. -/
  | suspendTask (sti : Bool)
  /-- Before `IF_enabled`. -/
  | ifEnabled
  /-- Before the return to the machine's code. -/
  | leave
deriving DecidableEq

/-- A machine and its fault handler. -/
structure HltSys where
  vm : Vm
  pc : HandlerPc

inductive HltOp where
  /-- What the machine does otherwise. -/
  | guest (op : PicOp)
  /-- `simulate_irq`, from an interrupt or another task. -/
  | simulateIrq (irq : UChar)
  /-- The machine executes HLT, or STI and HLT. -/
  | hlt (sti : Bool)
  /-- A step of the handler. -/
  | handler
  /-- The hook is called on the return from an interrupt of the handler. -/
  | kernelHook
  /-- The return to the machine's code. -/
  | leave (junk : ℕ)

/-- The machine itself does not use these. -/
def HltOp.Halts : PicOp → Prop
  | .hlt | .sti true | .simulateIrq _ => True
  | _ => False

instance : DecidablePred HltOp.Halts := fun op => by
  cases op with
  | sti thenHlt => cases thenHlt <;> unfold HltOp.Halts <;> infer_instance
  | _ => unfold HltOp.Halts; infer_instance

/-- A step. The machine's code and the return to it need a task that is running; the handler
goes on after `suspend_task` until the scheduler is called. -/
def hltStep (s : HltSys) : HltOp → Option HltSys
  | .guest op =>
    if s.pc = .guest ∧ s.vm.flags.running ∧ ¬HltOp.Halts op then
      (s.vm.next op).map fun v => { s with vm := v }
    else none
  | .simulateIrq irq => if irq < 16 then some { s with vm := s.vm.simulateIrq irq } else none
  | .hlt sti =>
    if s.pc = .guest ∧ s.vm.flags.running then
      some
        { vm := if sti then { s.vm with virtualEflags := s.vm.virtualEflags ||| FLAGS_IF } else s.vm
          pc := .setHlted sti }
    else none
  | .handler =>
    match s.pc with
    | .setHlted sti => some { vm := { s.vm with hlted := true }, pc := .suspendTask sti }
    | .suspendTask sti =>
      some
        { vm := { s.vm with flags := s.vm.flags.suspend }
          pc := if sti then .ifEnabled else .leave }
    | .ifEnabled => some { vm := s.vm.installReturnHook, pc := .leave }
    | _ => none
  | .kernelHook =>
    if s.vm.returnHook then some { s with vm := (s.vm.vpicReturnHook false 0).2 } else none
  | .leave junk =>
    if s.pc = .leave ∧ s.vm.flags.running then
      some
        { vm := if s.vm.returnHook then (s.vm.vpicReturnHook true junk).2 else s.vm
          pc := .guest }
    else none

namespace Vm

variable (v : Vm)

/-- An unmasked request could be delivered. -/
def Deliverable : Prop :=
  v.IfSet ∧ v.pair.master.isr = 0 ∧ v.pair.master.irr &&& ~~~v.pair.master.mask ≠ 0

/-- The task is suspended, and a request could be delivered. -/
def Stranded : Prop := v.flags.running = false ∧ v.Deliverable

end Vm

/-- The task is suspended only while the machine is still marked as halted, and nothing could be
delivered to it. -/
def SuspendsIdle (s : HltSys) : HltOp → Prop
  | .handler => ∀ sti, s.pc = .suspendTask sti → s.vm.hlted = true ∧ ¬s.vm.Deliverable
  | _ => True

/-- A state of the runs. -/
structure Woken (s : HltSys) : Prop where
  frozen : s.vm.flags.frozen = false
  zombie : s.vm.flags.zombie = false
  suspended : s.vm.flags.running = false →
    (s.pc = .ifEnabled ∨ s.pc = .leave) ∧ s.vm.hlted = true ∧ ¬s.vm.Deliverable

section Halt

variable {v v' : Vm} {s s' : HltSys} {op : HltOp}

theorem installReturnHook_same : v.installReturnHook.flags = v.flags ∧
    v.installReturnHook.hlted = v.hlted := by
  unfold Vm.installReturnHook
  split <;> exact ⟨rfl, rfl⟩

theorem vpicReturnHook_same (v : Vm) (vm86 : Bool) (junk : ℕ) :
    (v.vpicReturnHook vm86 junk).2.flags = v.flags ∧
      (v.vpicReturnHook vm86 junk).2.hlted = v.hlted := by
  unfold Vm.vpicReturnHook
  dsimp only
  split_ifs <;> exact ⟨rfl, rfl⟩

/-- In the kernel the hook delivers nothing. -/
theorem vpicReturnHook_kernel (v : Vm) :
    (v.vpicReturnHook false 0).2.pair = v.pair ∧
      (v.vpicReturnHook false 0).2.virtualEflags = v.virtualEflags := by
  unfold Vm.vpicReturnHook
  simp only [Bool.false_eq_true, false_and, if_false]
  split <;> exact ⟨rfl, rfl⟩

/-- What the machine does otherwise does not suspend its task. -/
theorem next_flags {op : PicOp} (hop : ¬HltOp.Halts op) (hstep : v.next op = some v') :
    v'.flags = v.flags := by
  cases op with
  | simulateIrq irq => exact absurd trivial hop
  | hlt => exact absurd trivial hop
  | sti thenHlt =>
    cases hstep
    cases thenHlt with
    | true => exact absurd trivial hop
    | false => exact installReturnHook_same.1
  | vpicOut port size val =>
    cases hstep
    unfold Vm.vpicOut
    dsimp only
    split_ifs <;> first | exact installReturnHook_same.1 | rfl
  | vpicIn port size =>
    cases hstep
    unfold Vm.vpicIn
    dsimp only
    split_ifs <;> rfl
  | setMask set mask =>
    cases hstep
    rfl
  | ifEnabled =>
    cases hstep
    exact installReturnHook_same.1
  | ifDisabled =>
    simp only [Vm.next] at hstep
    split at hstep
    · cases hstep
    · cases hstep
      rfl
  | vpicReturnHook vm86 junk =>
    simp only [Vm.next] at hstep
    split at hstep
    · cases hstep
      exact (vpicReturnHook_same v vm86 junk).1
    · cases hstep
  | cli =>
    cases hstep
    rfl
  | loadFlags wide val =>
    cases hstep
    unfold Vm.loadFlags
    generalize (if wide then val else Vmach.set16 v.virtualEflags val) = x
    dsimp only
    split
    · exact installReturnHook_same.1
    · rfl
  | int =>
    cases hstep
    rfl

/-- `simulate_irq` wakes a machine that is marked as halted, if its interrupt flag is set. -/
theorem simulateIrq_flags (v : Vm) (irq : UChar) :
    (v.simulateIrq irq).virtualEflags = v.virtualEflags ∧
      ((v.simulateIrq irq).flags = v.flags.wake ∧ v.IfSet ∧ v.hlted = true ∨
        (v.simulateIrq irq).flags = v.flags ∧ (v.simulateIrq irq).hlted = v.hlted ∧
          (v.IfSet → v.hlted = false)) := by
  unfold Vm.simulateIrq
  dsimp only
  split_ifs with hif hhlt
  · exact ⟨rfl, .inl ⟨rfl, hif, hhlt⟩⟩
  · exact ⟨rfl, .inr ⟨rfl, rfl, fun _ => Bool.eq_false_of_not_eq_true hhlt⟩⟩
  · exact ⟨rfl, .inr ⟨rfl, rfl, fun hc => absurd hc hif⟩⟩

theorem Woken.simulateIrq (h : Woken s) (irq : UChar) :
    Woken { s with vm := s.vm.simulateIrq irq } := by
  obtain ⟨hflags, ⟨hwake, -, -⟩ | ⟨hsame, hhlt, hmarked⟩⟩ := simulateIrq_flags s.vm irq
  · have hrunning := Flags.wake_running h.frozen h.zombie
    refine ⟨?_, ?_, fun hsusp => ?_⟩
    · exact (congrArg Flags.frozen hwake).trans ((Flags.wake_frozen _).trans h.frozen)
    · exact (congrArg Flags.zombie hwake).trans ((Flags.wake_zombie _).trans h.zombie)
    · rw [← hwake] at hrunning
      exact absurd (hrunning.symm.trans hsusp) Bool.noConfusion
  · refine ⟨(congrArg Flags.frozen hsame).trans h.frozen,
      (congrArg Flags.zombie hsame).trans h.zombie, fun hsusp => ?_⟩
    obtain ⟨hpc, hhlted, -⟩ := h.suspended ((congrArg Flags.running hsame).symm.trans hsusp)
    refine ⟨hpc, hhlt.trans hhlted, fun hdeliv => ?_⟩
    have hif : s.vm.IfSet := by
      have := hdeliv.1
      rwa [Vm.IfSet, hflags] at this
    exact Bool.false_ne_true ((hmarked hif).symm.trans hhlted)

theorem hltStep_woken : Preserves hltStep SuspendsIdle Woken := by
  intro s op s' h hok hstep
  cases op with
  | guest op =>
    simp only [hltStep] at hstep
    split at hstep
    · rename_i hc
      obtain ⟨v, hnext, rfl⟩ := Option.map_eq_some_iff.mp hstep
      have hflags := next_flags hc.2.2 hnext
      refine ⟨(congrArg Flags.frozen hflags).trans h.frozen,
        (congrArg Flags.zombie hflags).trans h.zombie, fun hsusp => ?_⟩
      have hrunning := (congrArg Flags.running hflags).symm.trans hsusp
      exact absurd (hc.2.1.symm.trans hrunning) Bool.noConfusion
    · cases hstep
  | simulateIrq irq =>
    simp only [hltStep] at hstep
    split at hstep
    · cases hstep
      exact h.simulateIrq irq
    · cases hstep
  | hlt sti =>
    simp only [hltStep] at hstep
    split at hstep
    · rename_i hc
      cases hstep
      cases sti with
      | true => exact ⟨h.frozen, h.zombie, fun hs => absurd (hc.2.symm.trans hs) Bool.noConfusion⟩
      | false => exact ⟨h.frozen, h.zombie, fun hs => absurd (hc.2.symm.trans hs) Bool.noConfusion⟩
    · cases hstep
  | handler =>
    simp only [hltStep] at hstep
    split at hstep
    · rename_i sti hpc
      cases hstep
      refine ⟨h.frozen, h.zombie, fun hs => ?_⟩
      rcases (h.suspended hs).1 with hc | hc <;> rw [hpc] at hc <;> cases hc
    · rename_i sti hpc
      cases hstep
      obtain ⟨hhlted, hidle⟩ := hok sti hpc
      refine ⟨h.frozen, h.zombie, fun _ => ⟨?_, hhlted, hidle⟩⟩
      cases sti with
      | true => exact .inl rfl
      | false => exact .inr rfl
    · cases hstep
      obtain ⟨hflags, hhlt⟩ := installReturnHook_same (v := s.vm)
      refine ⟨(congrArg Flags.frozen hflags).trans h.frozen,
        (congrArg Flags.zombie hflags).trans h.zombie, fun hs => ?_⟩
      obtain ⟨-, hhlted, hidle⟩ := h.suspended ((congrArg Flags.running hflags).symm.trans hs)
      refine ⟨.inr rfl, hhlt.trans hhlted, ?_⟩
      rw [Vm.Deliverable, Vm.IfSet, Vm.installReturnHook_flags, Vm.installReturnHook_pair]
      exact hidle
    · cases hstep
  | kernelHook =>
    simp only [hltStep] at hstep
    split at hstep
    · cases hstep
      obtain ⟨hflags, hhlt⟩ := vpicReturnHook_same s.vm false 0
      obtain ⟨hpair, heflags⟩ := vpicReturnHook_kernel s.vm
      refine ⟨(congrArg Flags.frozen hflags).trans h.frozen,
        (congrArg Flags.zombie hflags).trans h.zombie, fun hs => ?_⟩
      obtain ⟨hpc, hhlted, hidle⟩ := h.suspended ((congrArg Flags.running hflags).symm.trans hs)
      refine ⟨hpc, hhlt.trans hhlted, ?_⟩
      rw [Vm.Deliverable, Vm.IfSet, heflags, hpair]
      exact hidle
    · cases hstep
  | leave junk =>
    simp only [hltStep] at hstep
    split at hstep
    · rename_i hc
      cases hstep
      have hflags : (if s.vm.returnHook then (s.vm.vpicReturnHook true junk).2 else s.vm).flags =
          s.vm.flags := by
        split
        · exact (vpicReturnHook_same s.vm true junk).1
        · rfl
      refine ⟨(congrArg Flags.frozen hflags).trans h.frozen,
        (congrArg Flags.zombie hflags).trans h.zombie, fun hs => ?_⟩
      have hrunning := (congrArg Flags.running hflags).symm.trans hs
      exact absurd (hc.2.symm.trans hrunning) Bool.noConfusion
    · cases hstep

end Halt

/-- **HLT.** As long as the task is suspended only while the machine is still marked as halted
and nothing could be delivered to it, it is never left suspended while an unmasked request
could be delivered. -/
theorem hlt_wakes (ops : List HltOp) (s : HltSys)
    (hrun : run hltStep ⟨createVpic, .guest⟩ ops = some s)
    (hok : Along hltStep SuspendsIdle ⟨createVpic, .guest⟩ ops) : ¬s.vm.Stranded := by
  have hstart : Woken ⟨createVpic, .guest⟩ := ⟨rfl, rfl, nofun⟩
  intro hstranded
  exact ((hltStep_woken.run hstart hok hrun).suspended hstranded.1).2.2 hstranded.2

/-- STI and HLT while nothing is requested, and then IRQ 0. -/
theorem hlt_wakes_irq : ∃ s, run hltStep ⟨createVpic, .guest⟩
    [.guest (.setMask false 1), .hlt true, .handler, .handler, .handler, .simulateIrq 0] = some s ∧
      ¬s.vm.Stranded ∧ s.vm.flags.running = true := by
  refine ⟨_, rfl, hlt_wakes [.guest (.setMask false 1), .hlt true, .handler, .handler, .handler,
    .simulateIrq 0] _ rfl ?_, rfl⟩
  refine ⟨trivial, fun s₁ h₁ => ⟨trivial, fun s₂ h₂ => ⟨?_, fun s₃ h₃ => ⟨?_, fun s₄ h₄ => ⟨?_,
    fun _ _ => ⟨trivial, fun _ _ => trivial⟩⟩⟩⟩⟩⟩
  · cases h₁
    cases h₂
    exact nofun
  · cases h₁
    cases h₂
    cases h₃
    exact fun _ _ => ⟨rfl, fun hdeliv => hdeliv.2.2 (by decide)⟩
  · cases h₁
    cases h₂
    cases h₃
    cases h₄
    exact nofun

/-- IRQ 0 is raised while the interrupt flag is clear, and then the machine executes STI and
HLT. -/
theorem sti_hlt_strands : ¬∀ (ops : List HltOp) (s : HltSys),
    run hltStep ⟨createVpic, .guest⟩ ops = some s → ¬s.vm.Stranded := by
  intro hall
  refine hall [.guest (.setMask false 1), .simulateIrq 0, .hlt true, .handler, .handler, .handler]
    _ rfl ⟨rfl, by decide, rfl, by decide⟩

end Vmm386.Vpic
