import Vmm386.Lib.Ring
import Vmm386.Tasks.TaskFlags

/-!
# Queued interrupts

`kernel/misc/interrupt.c`: interrupt handlers put the number of their IRQ into a ring buffer,
and the dispatcher, a task of high priority, takes them out and calls the handlers.
-/

namespace Vmm386.Irq

open Tasks Runs

abbrev IRQ_Q_SIZ : ℕ := 128

/-- Where the dispatcher is in `service_queued_irqs`. -/
inductive DispatcherPc where
  /-- Before the test of `irqs_queued`. -/
  | test
  /-- Before the section that takes an IRQ out of the queue. -/
  | take
  /-- Before the call of the handler. -/
  | handle (irq : UChar)
  /-- In `suspend_current_task`, before `suspend_task` tests the flags. -/
  | suspendTask
  /-- Before `suspend_task` masks interrupts. -/
  | suspendSection
  /-- Before `schedule` returns. -/
  | schedule
deriving DecidableEq

/-- The queue and its dispatcher. `accepted` and `dispatched` record the IRQs that have been
put into the queue, and those whose handlers have been called. -/
structure IrqQueue where
  irqQueue : ℕ → UChar
  irqQIn : ULong
  irqQOut : ULong
  irqsQueued : ULong
  flags : Flags
  pc : DispatcherPc
  accepted : List UChar
  dispatched : List UChar

namespace IrqQueue

variable (q : IrqQueue)

/-- `(i + 1) & (IRQ_Q_SIZ - 1)`. -/
def nextIndex (i : ULong) : ULong := (i + 1) &&& 127

/-- `queue_irq`. -/
def queueIrq (irq : ULong) : IrqQueue :=
  let newIn := nextIndex q.irqQIn
  if newIn ≠ q.irqQOut then
    { q with
      irqQueue := Function.update q.irqQueue q.irqQIn.toNat (irq.setWidth 8)
      irqQIn := newIn
      irqsQueued := q.irqsQueued + 1
      flags := q.flags.wake
      accepted := q.accepted ++ [irq.setWidth 8] }
  else q

/-- `service_queued_irqs`: one step. While it is suspended the dispatcher does nothing. -/
def serviceQueuedIrqs : Option IrqQueue :=
  if q.flags.running then
    match q.pc with
    | .test =>
      if q.irqsQueued ≠ 0 then some { q with pc := .take }
      else some { q with pc := .suspendTask }
    | .take =>
      some { q with
        irqQOut := nextIndex q.irqQOut
        irqsQueued := q.irqsQueued - 1
        pc := .handle (q.irqQueue q.irqQOut.toNat) }
    | .handle irq => some { q with pc := .test, dispatched := q.dispatched ++ [irq] }
    | .suspendTask => some { q with pc := .suspendSection }
    | .suspendSection => some { q with pc := .schedule, flags := q.flags.suspend }
    | .schedule => some { q with pc := .test }
  else none

/-- The IRQs in the queue, the oldest first. -/
def queued : List UChar :=
  Ring.contents IRQ_Q_SIZ q.irqQueue q.irqQIn.toNat q.irqQOut.toNat

/-- The IRQ that the dispatcher has taken out of the queue. -/
def inHand : List UChar :=
  match q.pc with
  | .handle irq => [irq]
  | _ => []

/-- The dispatcher has found the queue empty, and is not suspended yet. -/
def AboutToSuspend : Prop := q.pc = .suspendTask ∨ q.pc = .suspendSection

instance : Decidable q.AboutToSuspend := inferInstanceAs (Decidable (_ ∨ _))

end IrqQueue

/-- What happens next: an interrupt, or a step of the dispatcher. -/
inductive IrqOp where
  | irq (irq : ULong)
  | dispatcher
deriving DecidableEq

def irqStep (q : IrqQueue) : IrqOp → Option IrqQueue
  | .irq irq => some (q.queueIrq irq)
  | .dispatcher => q.serviceQueuedIrqs

/-- The queue after `init_queued_irqs`. -/
def IrqQueue.init : IrqQueue where
  irqQueue _ := 0
  irqQIn := 0
  irqQOut := 0
  irqsQueued := 0
  flags := { Flags.runnable with immortal := true }
  pc := .test
  accepted := []
  dispatched := []

/-! ## The queue -/

namespace IrqQueue

variable {q q' : IrqQueue} {irq : ULong}

theorem toNat_nextIndex {i : ULong} (hi : i.toNat < IRQ_Q_SIZ) :
    (nextIndex i).toNat = (i.toNat + 1) % IRQ_Q_SIZ := by
  change i.toNat < 128 at hi
  have hsum : (i + 1).toNat = i.toNat + 1 := by
    rw [BitVec.toNat_add]
    exact Nat.mod_eq_of_lt (by have : (1 : ULong).toNat = 1 := rfl; omega)
  rw [nextIndex, BitVec.toNat_and, hsum]
  exact Nat.and_two_pow_sub_one_eq_mod _ 7

theorem toNat_nextIndex_lt {i : ULong} (hi : i.toNat < IRQ_Q_SIZ) :
    (nextIndex i).toNat < IRQ_Q_SIZ := by
  rw [toNat_nextIndex hi]
  exact Nat.mod_lt _ (by decide)

/-- What holds of the queue whatever happens. -/
structure Inv (q : IrqQueue) : Prop where
  inLt : q.irqQIn.toNat < IRQ_Q_SIZ
  outLt : q.irqQOut.toNat < IRQ_Q_SIZ
  counted : q.irqsQueued.toNat = q.queued.length
  fifo : q.accepted = q.dispatched ++ q.inHand ++ q.queued
  take : q.pc = .take → q.queued ≠ []

theorem length_queued_lt : q.queued.length < IRQ_Q_SIZ := by
  rw [queued, Ring.length_contents]
  exact Nat.mod_lt _ (by decide)

theorem queueIrq_inv (h : q.Inv) : (q.queueIrq irq).Inv := by
  simp only [queueIrq]
  split
  · rename_i hroom
    have hne : (q.irqQIn.toNat + 1) % IRQ_Q_SIZ ≠ q.irqQOut.toNat := by
      rw [← toNat_nextIndex h.inLt]
      exact fun heq => hroom (BitVec.eq_of_toNat_eq heq)
    have hpush := Ring.contents_push (f := q.irqQueue) (a := irq.setWidth 8) h.inLt h.outLt hne
    rw [← toNat_nextIndex h.inLt] at hpush
    have hlen := length_queued_lt (q := q)
    refine ⟨toNat_nextIndex_lt h.inLt, h.outLt, ?_, ?_, ?_⟩
    · rw [queued, hpush, List.length_append, BitVec.toNat_add, h.counted]
      change q.queued.length < 128 at hlen
      exact Nat.mod_eq_of_lt (by
        show q.queued.length + 1 < 4294967296
        omega)
    · rw [queued, hpush]
      show q.accepted ++ _ = q.dispatched ++ q.inHand ++ (q.queued ++ _)
      rw [← List.append_assoc, ← h.fifo]
    · intro _
      rw [queued, hpush]
      exact List.append_ne_nil_of_right_ne_nil _ (List.cons_ne_nil _ _)
  · exact h

theorem serviceQueuedIrqs_inv (h : q.Inv) (hstep : q.serviceQueuedIrqs = some q') : q'.Inv := by
  obtain ⟨-, hstep⟩ := Option.ite_none_right_eq_some.mp hstep
  have hfifo := h.fifo
  rw [inHand] at hfifo
  split at hstep
  · rename_i hpc
    rw [hpc] at hfifo
    split at hstep
    · rename_i hq
      cases hstep
      refine ⟨h.inLt, h.outLt, h.counted, hfifo, ?_⟩
      -- the count that has been tested is that of the queue
      intro _ hnil
      apply hq
      apply BitVec.eq_of_toNat_eq
      rw [h.counted]
      exact congrArg List.length hnil
    · cases hstep
      exact ⟨h.inLt, h.outLt, h.counted, hfifo, nofun⟩
  · rename_i hpc
    cases hstep
    rw [hpc] at hfifo
    have hne : q.irqQIn.toNat ≠ q.irqQOut.toNat := fun heq =>
      h.take hpc ((Ring.contents_eq_nil h.inLt h.outLt).mpr heq)
    have hpop := Ring.contents_pop (f := q.irqQueue) h.inLt h.outLt hne
    rw [← toNat_nextIndex h.outLt] at hpop
    change q.queued = _ at hpop
    refine ⟨h.inLt, toNat_nextIndex_lt h.outLt, ?_, ?_, nofun⟩
    · have hcount := h.counted
      have hlen := length_queued_lt (q := q)
      rw [hpop, List.length_cons] at hcount hlen
      have hle : (1 : ULong) ≤ q.irqsQueued := by
        show 1 ≤ q.irqsQueued.toNat
        omega
      rw [BitVec.toNat_sub_of_le hle, hcount]
      exact Nat.add_sub_cancel ..
    · show q.accepted = q.dispatched ++ [_] ++ _
      rw [hfifo, hpop, List.append_nil, List.append_assoc]
      rfl
  · rename_i irq hpc
    cases hstep
    rw [hpc] at hfifo
    refine ⟨h.inLt, h.outLt, h.counted, ?_, nofun⟩
    rw [hfifo]
    show _ = (q.dispatched ++ [irq]) ++ [] ++ q.queued
    rw [List.append_nil]
  · rename_i hpc
    cases hstep
    rw [hpc] at hfifo
    exact ⟨h.inLt, h.outLt, h.counted, hfifo, nofun⟩
  · rename_i hpc
    cases hstep
    rw [hpc] at hfifo
    exact ⟨h.inLt, h.outLt, h.counted, hfifo, nofun⟩
  · rename_i hpc
    cases hstep
    rw [hpc] at hfifo
    exact ⟨h.inLt, h.outLt, h.counted, hfifo, nofun⟩

theorem init_inv : init.Inv where
  inLt := by decide
  outLt := by decide
  counted := rfl
  fifo := rfl
  take := nofun

theorem irqStep_inv {op : IrqOp} (h : q.Inv) (hstep : irqStep q op = some q') : q'.Inv := by
  cases op with
  | irq irq =>
    cases hstep
    exact queueIrq_inv h
  | dispatcher => exact serviceQueuedIrqs_inv h hstep

/-- `irqs_queued` is the distance of the two indices. -/
theorem Inv.irqsQueued_eq (h : q.Inv) : q.irqsQueued = (q.irqQIn - q.irqQOut) &&& 127 := by
  have hin := h.inLt
  have hout := h.outLt
  change q.irqQIn.toNat < 128 at hin
  change q.irqQOut.toNat < 128 at hout
  apply BitVec.eq_of_toNat_eq
  rw [h.counted, queued, Ring.length_contents, Ring.count, BitVec.toNat_and, BitVec.toNat_sub]
  show _ = _ &&& 2 ^ 7 - 1
  rw [Nat.and_two_pow_sub_one_eq_mod]
  change (q.irqQIn.toNat + 128 - q.irqQOut.toNat) % 128 =
    (4294967296 - q.irqQOut.toNat + q.irqQIn.toNat) % 4294967296 % 128
  omega

/-! ## The dispatcher -/

/-- No interrupt comes in after the dispatcher has found the queue empty, until it is
suspended. -/
def InTime (q : IrqQueue) (op : IrqOp) : Prop := (∃ irq, op = .irq irq) → ¬q.AboutToSuspend

/-- The dispatcher is only suspended while the queue is empty. -/
structure Attended (q : IrqQueue) : Prop where
  frozen : q.flags.frozen = false
  zombie : q.flags.zombie = false
  empty : q.flags.running = false ∨ q.AboutToSuspend → q.queued = []

theorem queueIrq_attended (h : q.Attended) (hin : ¬q.AboutToSuspend) :
    (q.queueIrq irq).Attended := by
  simp only [queueIrq]
  split
  · refine ⟨?_, ?_, ?_⟩
    · rw [Flags.wake_frozen, h.frozen]
    · rw [Flags.wake_zombie, h.zombie]
    · rintro (hsusp | hsusp)
      · rw [Flags.wake_running h.frozen h.zombie] at hsusp
        cases hsusp
      · exact absurd hsusp hin
  · exact h

theorem serviceQueuedIrqs_attended (hinv : q.Inv) (h : q.Attended)
    (hstep : q.serviceQueuedIrqs = some q') : q'.Attended := by
  obtain ⟨hrun, hstep⟩ := Option.ite_none_right_eq_some.mp hstep
  -- nothing is to be shown unless the step leads towards the suspension
  have hgo : ∀ {q' : IrqQueue}, q'.flags = q.flags → ¬q'.AboutToSuspend → q'.Attended := by
    intro q' hflags hpc
    refine ⟨hflags ▸ h.frozen, hflags ▸ h.zombie, ?_⟩
    rintro (hsusp | hsusp)
    · rw [hflags, hrun] at hsusp
      cases hsusp
    · exact absurd hsusp hpc
  split at hstep
  · split at hstep
    · cases hstep
      exact hgo rfl (by rintro (hpc | hpc) <;> cases hpc)
    · rename_i hq
      cases hstep
      refine ⟨h.frozen, h.zombie, fun _ => ?_⟩
      have hcount := hinv.counted
      rw [not_not.mp hq] at hcount
      exact List.eq_nil_of_length_eq_zero hcount.symm
  · cases hstep
    exact hgo rfl (by rintro (hpc | hpc) <;> cases hpc)
  · cases hstep
    exact hgo rfl (by rintro (hpc | hpc) <;> cases hpc)
  · rename_i hpc
    cases hstep
    exact ⟨h.frozen, h.zombie, fun _ => h.empty (.inr (.inl hpc))⟩
  · rename_i hpc
    cases hstep
    exact ⟨h.frozen, h.zombie, fun _ => h.empty (.inr (.inr hpc))⟩
  · cases hstep
    exact hgo rfl (by rintro (hpc | hpc) <;> cases hpc)

theorem init_attended : init.Attended := ⟨rfl, rfl, fun _ => rfl⟩

end IrqQueue

/-- **Queued interrupts.** Whatever the order of interrupts and of the dispatcher's steps, the
counter is right and the handlers are called once for each IRQ in the order of their arrival.
If no interrupt comes between the dispatcher's last test and its suspension, then it is never
suspended while the queue has an IRQ in it. -/
theorem irq_runs (ops : List IrqOp) (q : IrqQueue)
    (hrun : run irqStep IrqQueue.init ops = some q) :
    q.irqsQueued = (q.irqQIn - q.irqQOut) &&& 127 ∧
      q.accepted = q.dispatched ++ q.inHand ++ q.queued ∧
      (Along irqStep IrqQueue.InTime IrqQueue.init ops →
        q.flags.running = false → q.queued = []) := by
  have hkept : Preserves irqStep (fun _ _ => True) IrqQueue.Inv := fun q op q' h _ hstep =>
    IrqQueue.irqStep_inv h hstep
  have hinv := hkept.run IrqQueue.init_inv (along_true _ _) hrun
  refine ⟨hinv.irqsQueued_eq, hinv.fifo, ?_⟩
  intro hin hsusp
  have hkept' : Preserves irqStep IrqQueue.InTime fun q => q.Inv ∧ q.Attended := by
    rintro q op q' ⟨h, ha⟩ hin hstep
    refine ⟨IrqQueue.irqStep_inv h hstep, ?_⟩
    cases op with
    | irq irq =>
      cases hstep
      exact IrqQueue.queueIrq_attended ha (hin ⟨irq, rfl⟩)
    | dispatcher => exact IrqQueue.serviceQueuedIrqs_attended h ha hstep
  have ha := (hkept'.run ⟨IrqQueue.init_inv, IrqQueue.init_attended⟩ hin hrun).2
  exact ha.empty (.inl hsusp)

/-- An interrupt, all that the dispatcher does about it, and its suspension. -/
def servedOps : List IrqOp := .irq 1 :: List.replicate 6 .dispatcher

theorem along_dispatcher (q : IrqQueue) (k : ℕ) :
    Along irqStep IrqQueue.InTime q (List.replicate k .dispatcher) := by
  induction k generalizing q with
  | zero => trivial
  | succ k ih => exact ⟨(fun hirq => nomatch hirq), fun q' _ => ih q'⟩

theorem irq_runs_served :
    ∃ q, run irqStep IrqQueue.init servedOps = some q ∧ q.accepted = [1] ∧
      q.flags.running = false ∧ q.queued = [] := by
  refine ⟨_, rfl, rfl, rfl, (irq_runs servedOps _ rfl).2.2 ?_ rfl⟩
  exact ⟨fun _ => by decide, fun q' _ => along_dispatcher q' 6⟩

/-- An interrupt comes when the dispatcher has found the queue empty: the dispatcher is
suspended all the same. -/
def lateOps : List IrqOp := [.dispatcher, .irq 1, .dispatcher, .dispatcher]

theorem irq_forgotten : ∃ q, run irqStep IrqQueue.init lateOps = some q ∧
    q.flags.running = false ∧ q.queued = [1] ∧ irqStep q .dispatcher = none :=
  ⟨_, rfl, rfl, rfl, rfl⟩

end Vmm386.Irq
