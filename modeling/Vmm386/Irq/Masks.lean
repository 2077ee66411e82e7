import Vmm386.Lib.Runs
import Vmm386.Types

/-!
# Interrupt handlers and masks

The tables of handlers in `kernel/misc/interrupt.c`, and the mask registers of the two interrupt
controllers. Every function here runs to its end undisturbed.
-/

namespace Vmm386.Irq

open Runs

/-- A handler of an IRQ: a function that was given to `alloc_irq`, or one of `irq_q_stubs`. -/
inductive Handler where
  | func (f : ℕ)
  | stub (irq : ℕ)
deriving DecidableEq

/-- `Irq_handlers`, `Irq_names` and `irq_q_handlers`, with the mask registers at the ports 0x21
and 0xA1. A null pointer is `none`. -/
structure IrqTables where
  irqHandlers : ℕ → Option Handler
  irqNames : ℕ → Option String
  irqQHandlers : ℕ → Option ℕ
  imr1 : UChar
  imr2 : UChar

/-- `outb(inb(port) & ~(1 << n), port)`. -/
def clearBit (imr : UChar) (n : ℕ) : UChar :=
  (imr.setWidth 32 &&& ~~~((1 : ULong) <<< n)).setWidth 8

/-- `outb(inb(port) | (1 << n), port)`. -/
def setBit (imr : UChar) (n : ℕ) : UChar := (imr.setWidth 32 ||| ((1 : ULong) <<< n)).setWidth 8

namespace IrqTables

variable (s : IrqTables)

/-- `alloc_irq` from the test of `irq <= 7` on. -/
def unmask (irq : ULong) : IrqTables :=
  if irq ≤ 7 then { s with imr1 := clearBit s.imr1 irq.toNat }
  else { s with imr2 := clearBit s.imr2 (irq - 7).toNat }

/-- The same test in `dealloc_irq`. -/
def mask (irq : ULong) : IrqTables :=
  if irq ≤ 7 then { s with imr1 := setBit s.imr1 irq.toNat }
  else { s with imr2 := setBit s.imr2 (irq - 7).toNat }

/-- `alloc_irq`. -/
def allocIrq (irq : ULong) (func : Option Handler) (name : Option String) : Bool × IrqTables :=
  if 15 < irq then (false, s)
  else if s.irqHandlers irq.toNat ≠ none then (false, s)
  else
    (true, { s with
      irqHandlers := Function.update s.irqHandlers irq.toNat func
      irqNames := Function.update s.irqNames irq.toNat name }.unmask irq)

/-- `dealloc_irq`. -/
def deallocIrq (irq : ULong) : IrqTables :=
  if 15 < irq then s
  else
    let s := s.mask irq
    { s with
      irqNames := Function.update s.irqNames irq.toNat none
      irqHandlers := Function.update s.irqHandlers irq.toNat none }

/-- `irq_q_handlers[irq] = func`. -/
def setQHandler (irq : ULong) (func : Option ℕ) : IrqTables :=
  { s with irqQHandlers := Function.update s.irqQHandlers irq.toNat func }

/-- `alloc_queued_irq`. -/
def allocQueuedIrq (irq : ULong) (func : Option ℕ) (name : Option String) : Bool × IrqTables :=
  if irq ≤ 15 ∧ s.irqQHandlers irq.toNat = none then
    let (rc, s) := (s.setQHandler irq func).allocIrq irq (some (.stub irq.toNat)) name
    if rc then (true, s) else (false, s.setQHandler irq none)
  else (false, s)

/-- `dealloc_queued_irq`. -/
def deallocQueuedIrq (irq : ULong) : IrqTables :=
  if 15 < irq ∨ s.irqQHandlers irq.toNat = none then s
  else (s.deallocIrq irq).setQHandler irq none

/-- All lines are masked, and no handlers are installed. -/
def initial : IrqTables := ⟨fun _ => none, fun _ => none, fun _ => none, 0xFF, 0xFF⟩

/-- The bit of IRQ `i` in the mask register of its controller. -/
def bit (i : ℕ) : Bool := if i < 8 then s.imr1.getLsbD (i % 8) else s.imr2.getLsbD (i % 8)

end IrqTables

/-- The calls that change the tables. -/
inductive Call where
  | allocIrq (irq : ULong) (func : Option ℕ) (name : Option String)
  | deallocIrq (irq : ULong)
  | allocQueuedIrq (irq : ULong) (func : Option ℕ) (name : Option String)
  | deallocQueuedIrq (irq : ULong)

/-- The IRQ that a call is about. -/
def Call.irq : Call → ULong
  | .allocIrq irq _ _ => irq
  | .deallocIrq irq => irq
  | .allocQueuedIrq irq _ _ => irq
  | .deallocQueuedIrq irq => irq

/-- One call. -/
def step (s : IrqTables) : Call → Option IrqTables
  | .allocIrq irq func name => some (s.allocIrq irq (func.map .func) name).2
  | .deallocIrq irq => some (s.deallocIrq irq)
  | .allocQueuedIrq irq func name => some (s.allocQueuedIrq irq func name).2
  | .deallocQueuedIrq irq => some (s.deallocQueuedIrq irq)

/-- Exactly the lines that have a handler are not masked, and exactly those that have a queued
handler have their stub. -/
structure Consistent (s : IrqTables) : Prop where
  masks : ∀ i < 16, s.bit i = false ↔ s.irqHandlers i ≠ none
  stubs : ∀ i < 16, s.irqQHandlers i ≠ none ↔ s.irqHandlers i = some (.stub i)

/-- The call leaves the tables consistent, and the bits of the other IRQs as they are. -/
def Masks (s : IrqTables) (c : Call) : Prop :=
  ∀ s', step s c = some s' → Consistent s' ∧ ∀ i < 16, i ≠ c.irq.toNat → s'.bit i = s.bit i

/-- The calls that keep the masks right: none installs a handler for a line of the second
controller, or a null pointer, and `dealloc_irq` is not called for a queued IRQ. A null pointer
for IRQ 15 is harmless, since there is no bit 8. -/
def Proper (s : IrqTables) : Call → Prop
  | .allocIrq irq func _ =>
    15 < irq ∨ s.irqHandlers irq.toNat ≠ none ∨ irq ≤ 7 ∧ func ≠ none ∨ irq = 15 ∧ func = none
  | .deallocIrq irq => 15 < irq ∨ s.irqQHandlers irq.toNat = none
  | .allocQueuedIrq irq func _ =>
    15 < irq ∨ s.irqQHandlers irq.toNat ≠ none ∨ s.irqHandlers irq.toNat ≠ none ∨
      irq ≤ 7 ∧ func ≠ none
  | .deallocQueuedIrq _ => True

/-! ## The registers -/

theorem getLsbD_clearBit {k : ℕ} (hk : k < 8) (imr : UChar) (n : ℕ) :
    (clearBit imr n).getLsbD k = (imr.getLsbD k && !decide (k = n)) := by
  by_cases hn : k = n
  · subst hn
    simp [clearBit, hk]
  · by_cases hlt : k < n
    · simp [clearBit, hk, hn, hlt]
    · have hne : k - n ≠ 0 := by omega
      simp [clearBit, hk, hn, hlt, hne]

theorem getLsbD_setBit {k : ℕ} (hk : k < 8) (imr : UChar) (n : ℕ) :
    (setBit imr n).getLsbD k = (imr.getLsbD k || decide (k = n)) := by
  by_cases hn : k = n
  · subst hn
    simp [setBit, hk]
  · by_cases hlt : k < n
    · simp [setBit, hk, hn, hlt]
    · have hne : k - n ≠ 0 := by omega
      simp [setBit, hk, hn, hlt, hne]

/-- The line whose bit `alloc_irq` and `dealloc_irq` change: on the second controller, the one
after the IRQ. -/
def line (irq : ULong) : ℕ := if irq ≤ 7 then irq.toNat else irq.toNat + 1

theorem line_of_le {irq : ULong} (h : irq ≤ 7) : line irq = irq.toNat := if_pos h

theorem line_of_gt {irq : ULong} (h : ¬irq ≤ 7) : line irq = irq.toNat + 1 := if_neg h

namespace IrqTables

variable {s : IrqTables} {irq : ULong} {i : ℕ}

/-- The IRQs that `irq <= 7` tells apart, as numbers. -/
theorem le_seven_iff : irq ≤ 7 ↔ irq.toNat ≤ 7 := Iff.rfl

theorem toNat_sub_seven (h : ¬irq ≤ 7) : (irq - 7).toNat = irq.toNat - 7 := by
  rw [le_seven_iff] at h
  exact BitVec.toNat_sub_of_le (BitVec.le_def.mpr (by change 7 ≤ irq.toNat; omega))

/-- What a change of one bit of the register that `irq <= 7` selects does to every line. -/
theorem bit_select {op : UChar → ℕ → UChar} {c : Bool → Bool → Bool}
    (hop : ∀ k < 8, ∀ imr n, (op imr n).getLsbD k = c (imr.getLsbD k) (decide (k = n)))
    (hc : ∀ b, c b false = b) (hi : i < 16) :
    (if irq ≤ 7 then { s with imr1 := op s.imr1 irq.toNat }
      else { s with imr2 := op s.imr2 (irq - 7).toNat }).bit i =
      c (s.bit i) (decide (i = line irq)) := by
  have hmod : i % 8 < 8 := Nat.mod_lt _ (by decide)
  unfold bit line
  by_cases h : irq ≤ 7
  · rw [if_pos h, if_pos h]
    rw [le_seven_iff] at h
    dsimp only
    by_cases hlow : i < 8
    · rw [if_pos hlow, if_pos hlow, hop _ hmod, Nat.mod_eq_of_lt hlow]
    · have hne : i ≠ irq.toNat := by omega
      rw [if_neg hlow, if_neg hlow, decide_eq_false hne, hc]
  · rw [if_neg h, if_neg h]
    dsimp only
    rw [toNat_sub_seven h]
    rw [le_seven_iff] at h
    by_cases hlow : i < 8
    · have hne : i ≠ irq.toNat + 1 := by omega
      rw [if_pos hlow, if_pos hlow, decide_eq_false hne, hc]
    · -- Bit `irq - 7` of the second register belongs to the line after the IRQ.
      have hiff : i % 8 = irq.toNat - 7 ↔ i = irq.toNat + 1 := by omega
      rw [if_neg hlow, if_neg hlow, hop _ hmod, decide_eq_decide.mpr hiff]

theorem bit_unmask (hi : i < 16) :
    (s.unmask irq).bit i = (s.bit i && !decide (i = line irq)) :=
  bit_select (c := fun b d => b && !d) (fun _ hk imr n => getLsbD_clearBit hk imr n)
    (fun b => by simp) hi

theorem bit_mask (hi : i < 16) :
    (s.mask irq).bit i = (s.bit i || decide (i = line irq)) :=
  bit_select (c := or) (fun _ hk imr n => getLsbD_setBit hk imr n) Bool.or_false hi

@[simp] theorem unmask_irqHandlers : (s.unmask irq).irqHandlers = s.irqHandlers := by
  unfold unmask
  split_ifs <;> rfl

@[simp] theorem unmask_irqQHandlers : (s.unmask irq).irqQHandlers = s.irqQHandlers := by
  unfold unmask
  split_ifs <;> rfl

@[simp] theorem mask_irqHandlers : (s.mask irq).irqHandlers = s.irqHandlers := by
  unfold mask
  split_ifs <;> rfl

@[simp] theorem mask_irqQHandlers : (s.mask irq).irqQHandlers = s.irqQHandlers := by
  unfold mask
  split_ifs <;> rfl

variable {func : Option Handler} {qfunc : Option ℕ} {name : Option String}

/-- `alloc_irq`, where it succeeds. -/
theorem allocIrq_free (h : ¬15 < irq) (hfree : s.irqHandlers irq.toNat = none)
    (func : Option Handler) (name : Option String) :
    (s.allocIrq irq func name).1 = true ∧
      (s.allocIrq irq func name).2.irqHandlers = Function.update s.irqHandlers irq.toNat func ∧
      (s.allocIrq irq func name).2.irqQHandlers = s.irqQHandlers ∧
      ∀ i < 16, (s.allocIrq irq func name).2.bit i = (s.bit i && !decide (i = line irq)) := by
  unfold allocIrq
  rw [if_neg h, if_neg (not_not_intro hfree)]
  refine ⟨rfl, unmask_irqHandlers, unmask_irqQHandlers, fun i hi => ?_⟩
  exact bit_unmask hi

theorem allocIrq_busy (h : 15 < irq ∨ s.irqHandlers irq.toNat ≠ none)
    (func : Option Handler) (name : Option String) :
    s.allocIrq irq func name = (false, s) := by
  unfold allocIrq
  by_cases hirq : 15 < irq
  · rw [if_pos hirq]
  · rw [if_neg hirq, if_pos (h.resolve_left hirq)]

/-- `dealloc_irq`, for an IRQ there is. -/
theorem deallocIrq_eq (h : ¬15 < irq) :
    (s.deallocIrq irq).irqHandlers = Function.update s.irqHandlers irq.toNat none ∧
      (s.deallocIrq irq).irqQHandlers = s.irqQHandlers ∧
      ∀ i < 16, (s.deallocIrq irq).bit i = (s.bit i || decide (i = line irq)) := by
  unfold deallocIrq
  rw [if_neg h]
  refine ⟨congrArg (Function.update · irq.toNat none) mask_irqHandlers, mask_irqQHandlers,
    fun i hi => ?_⟩
  exact bit_mask hi

@[simp] theorem bit_setQHandler : (s.setQHandler irq qfunc).bit i = s.bit i := rfl

@[simp] theorem irqHandlers_setQHandler :
    (s.setQHandler irq qfunc).irqHandlers = s.irqHandlers := rfl

theorem setQHandler_setQHandler {f f' : Option ℕ} :
    (s.setQHandler irq f).setQHandler irq f' = s.setQHandler irq f' := by
  simp [setQHandler]

theorem setQHandler_self (h : s.irqQHandlers irq.toNat = qfunc) : s.setQHandler irq qfunc = s := by
  rw [setQHandler, ← h, Function.update_eq_self]

/-- `alloc_queued_irq`, where it succeeds. -/
theorem allocQueuedIrq_free (h : ¬15 < irq) (hq : s.irqQHandlers irq.toNat = none)
    (hfree : s.irqHandlers irq.toNat = none) (qfunc : Option ℕ) (name : Option String) :
    (s.allocQueuedIrq irq qfunc name).2.irqHandlers =
        Function.update s.irqHandlers irq.toNat (some (.stub irq.toNat)) ∧
      (s.allocQueuedIrq irq qfunc name).2.irqQHandlers =
        Function.update s.irqQHandlers irq.toNat qfunc ∧
      ∀ i < 16, (s.allocQueuedIrq irq qfunc name).2.bit i =
        (s.bit i && !decide (i = line irq)) := by
  obtain ⟨hrc, hhandlers, hqueued, hbits⟩ := allocIrq_free (s := s.setQHandler irq qfunc)
    h hfree (some (.stub irq.toNat)) name
  unfold allocQueuedIrq
  rw [if_pos ⟨BitVec.not_lt.mp h, hq⟩]
  dsimp only
  rw [if_pos hrc]
  exact ⟨hhandlers, hqueued, hbits⟩

/-- `alloc_queued_irq` takes the handler back if there is one for interrupts. -/
theorem allocQueuedIrq_busy (h : 15 < irq ∨ s.irqQHandlers irq.toNat ≠ none ∨
    s.irqHandlers irq.toNat ≠ none) :
    s.allocQueuedIrq irq qfunc name = (false, s) := by
  unfold allocQueuedIrq
  by_cases hgo : irq ≤ 15 ∧ s.irqQHandlers irq.toNat = none
  · have hbusy : s.irqHandlers irq.toNat ≠ none := by
      rcases h with hirq | hq | hbusy
      · exact absurd hgo.1 (BitVec.not_le.mpr hirq)
      · exact absurd hgo.2 hq
      · exact hbusy
    have hfail := allocIrq_busy (s := s.setQHandler irq qfunc) (.inr hbusy)
      (some (.stub irq.toNat)) name
    rw [if_pos hgo, hfail]
    dsimp only
    rw [if_neg Bool.false_ne_true, setQHandler_setQHandler, setQHandler_self hgo.2]
  · rw [if_neg hgo]

end IrqTables

/-! ## One call -/

/-- Tables that are consistent, with no handlers for the second controller. -/
structure Sound (s : IrqTables) : Prop extends Consistent s where
  slaves : ∀ i, 8 ≤ i → i < 16 → s.irqHandlers i = none

variable {s s' : IrqTables} {irq : ULong}

theorem Sound.bit_of_free (h : Sound s) {i : ℕ} (hi : i < 16) (hfree : s.irqHandlers i = none) :
    s.bit i = true := by
  by_contra hbit
  exact (h.masks i hi).mp (Bool.eq_false_of_not_eq_true hbit) hfree

/-- The tables after a handler has been installed for a free line of the first controller. -/
theorem Sound.install (h : Sound s) (hirq : irq ≤ 7) {f : Handler}
    (hhandlers : s'.irqHandlers = Function.update s.irqHandlers irq.toNat (some f))
    (hqueued : ∀ i, i ≠ irq.toNat → s'.irqQHandlers i = s.irqQHandlers i)
    (hstub : s'.irqQHandlers irq.toNat ≠ none ↔ f = .stub irq.toNat)
    (hbits : ∀ i < 16, s'.bit i = (s.bit i && !decide (i = line irq))) :
    Sound s' ∧ ∀ i < 16, i ≠ irq.toNat → s'.bit i = s.bit i := by
  rw [line_of_le hirq] at hbits
  have hother : ∀ i < 16, i ≠ irq.toNat → s'.bit i = s.bit i := by
    intro i hi hne
    rw [hbits i hi, decide_eq_false hne, Bool.not_false, Bool.and_true]
  refine ⟨⟨⟨fun i hi => ?_, fun i hi => ?_⟩, fun i hi hi' => ?_⟩, hother⟩
  · by_cases hne : i = irq.toNat
    · rw [hbits i hi, hhandlers, hne, Function.update_self]
      simp
    · rw [hother i hi hne, hhandlers, Function.update_of_ne hne]
      exact h.masks i hi
  · by_cases hne : i = irq.toNat
    · rw [hhandlers, hne, Function.update_self, Option.some_inj]
      exact hstub
    · rw [hqueued i hne, hhandlers, Function.update_of_ne hne]
      exact h.stubs i hi
  · have hne : i ≠ irq.toNat := by
      have hle := IrqTables.le_seven_iff.mp hirq
      omega
    rw [hhandlers, Function.update_of_ne hne]
    exact h.slaves i hi hi'

/-- The tables after the handlers of a line have been removed. -/
theorem Sound.remove (h : Sound s) (hirq : irq.toNat < 16)
    (hhandlers : s'.irqHandlers = Function.update s.irqHandlers irq.toNat none)
    (hqueued : ∀ i, i ≠ irq.toNat → s'.irqQHandlers i = s.irqQHandlers i)
    (hnone : s'.irqQHandlers irq.toNat = none)
    (hbits : ∀ i < 16, s'.bit i = (s.bit i || decide (i = line irq))) :
    Sound s' ∧ ∀ i < 16, i ≠ irq.toNat → s'.bit i = s.bit i := by
  -- the bit of another line is set already
  have hother : ∀ i < 16, i ≠ irq.toNat → s'.bit i = s.bit i := by
    intro i hi hne
    by_cases hline : i = line irq
    · have hgt : ¬irq ≤ 7 := fun hle => hne (hline.trans (line_of_le hle))
      have height : 8 ≤ i := by
        rw [line_of_gt hgt] at hline
        rw [IrqTables.le_seven_iff] at hgt
        omega
      rw [hbits i hi, h.bit_of_free hi (h.slaves i height hi), Bool.true_or]
    · rw [hbits i hi, decide_eq_false hline, Bool.or_false]
  refine ⟨⟨⟨fun i hi => ?_, fun i hi => ?_⟩, fun i hi hi' => ?_⟩, hother⟩
  · by_cases hne : i = irq.toNat
    · have hset : s'.bit i = true := by
        rw [hbits i hi]
        by_cases hle : irq ≤ 7
        · rw [line_of_le hle, decide_eq_true hne, Bool.or_true]
        · have height : 8 ≤ i := by
            rw [IrqTables.le_seven_iff] at hle
            omega
          rw [h.bit_of_free hi (h.slaves i height hi), Bool.true_or]
      rw [hset, hhandlers, hne, Function.update_self]
      simp
    · rw [hother i hi hne, hhandlers, Function.update_of_ne hne]
      exact h.masks i hi
  · by_cases hne : i = irq.toNat
    · rw [hne, hnone, hhandlers, Function.update_self]
      simp
    · rw [hqueued i hne, hhandlers, Function.update_of_ne hne]
      exact h.stubs i hi
  · by_cases hne : i = irq.toNat
    · rw [hhandlers, hne, Function.update_self]
    · rw [hhandlers, Function.update_of_ne hne]
      exact h.slaves i hi hi'

theorem Sound.queue_free (h : Sound s) {i : ℕ} (hi : i < 16) (hfree : s.irqHandlers i = none) :
    s.irqQHandlers i = none := by
  by_contra hq
  have hstub := (h.stubs i hi).mp hq
  exact Option.some_ne_none _ (hstub.symm.trans hfree)

/-- A proper call keeps the tables sound, and the bits of the other IRQs. -/
theorem Sound.step (h : Sound s) {c : Call} (hc : Proper s c) (hs' : step s c = some s') :
    Sound s' ∧ ∀ i < 16, i ≠ c.irq.toNat → s'.bit i = s.bit i := by
  have hsame : ∀ irq : ULong, Sound s ∧ ∀ i < 16, i ≠ irq.toNat → s.bit i = s.bit i :=
    fun _ => ⟨h, fun _ _ _ => rfl⟩
  cases c with
  | allocIrq irq func name =>
    cases hs'
    simp only [Call.irq]
    by_cases hbusy : 15 < irq ∨ s.irqHandlers irq.toNat ≠ none
    · rw [IrqTables.allocIrq_busy hbusy]
      exact hsame irq
    rw [not_or, not_not] at hbusy
    obtain ⟨-, hhandlers, hqueued, hbits⟩ := IrqTables.allocIrq_free
      hbusy.1 hbusy.2 (func.map Handler.func) name
    have hlt : irq.toNat < 16 := Nat.lt_succ_of_le (not_lt.mp hbusy.1)
    rcases hc with hirq | hne | ⟨hirq, hfunc⟩ | ⟨hirq, hfunc⟩
    · exact absurd hirq hbusy.1
    · exact absurd hbusy.2 hne
    · obtain ⟨f, rfl⟩ := Option.ne_none_iff_exists'.mp hfunc
      refine h.install hirq hhandlers (fun i _ => congrFun hqueued i) ?_ hbits
      rw [hqueued, h.queue_free hlt hbusy.2]
      simp
    · -- the line behind the last one
      subst hirq hfunc
      rw [Option.map_none] at hhandlers hqueued hbits ⊢
      have hkeep : ∀ i < 16, (s.allocIrq 15 none name).2.bit i = s.bit i := by
        intro i hi
        have hne : i ≠ line 15 := by
          have h16 : line 15 = 16 := rfl
          omega
        rw [hbits i hi, decide_eq_false hne, Bool.not_false, Bool.and_true]
      have hfree : Function.update s.irqHandlers (BitVec.toNat (15 : ULong)) none =
          s.irqHandlers := by
        rw [← hbusy.2, Function.update_eq_self]
      rw [hfree] at hhandlers
      refine ⟨⟨⟨fun i hi => ?_, fun i hi => ?_⟩, fun i hi hi' => ?_⟩, fun i hi _ => hkeep i hi⟩
      · rw [hkeep i hi, hhandlers]
        exact h.masks i hi
      · rw [hqueued, hhandlers]
        exact h.stubs i hi
      · rw [hhandlers]
        exact h.slaves i hi hi'
  | deallocIrq irq =>
    cases hs'
    simp only [Call.irq]
    by_cases hirq : 15 < irq
    · have heq : s.deallocIrq irq = s := if_pos hirq
      rw [heq]
      exact hsame irq
    · obtain ⟨hhandlers, hqueued, hbits⟩ := IrqTables.deallocIrq_eq (s := s) hirq
      refine h.remove (Nat.lt_succ_of_le (not_lt.mp hirq)) hhandlers
        (fun i _ => congrFun hqueued i) ?_ hbits
      rw [hqueued]
      exact hc.resolve_left hirq
  | allocQueuedIrq irq func name =>
    cases hs'
    simp only [Call.irq]
    by_cases hbusy : 15 < irq ∨ s.irqQHandlers irq.toNat ≠ none ∨ s.irqHandlers irq.toNat ≠ none
    · rw [IrqTables.allocQueuedIrq_busy hbusy]
      exact hsame irq
    · rw [not_or, not_or, not_not, not_not] at hbusy
      obtain ⟨hhandlers, hqueued, hbits⟩ := IrqTables.allocQueuedIrq_free
        hbusy.1 hbusy.2.1 hbusy.2.2 func name
      rcases hc with hirq | hq | hne | ⟨hirq, hfunc⟩
      · exact absurd hirq hbusy.1
      · exact absurd hbusy.2.1 hq
      · exact absurd hbusy.2.2 hne
      · refine h.install hirq hhandlers (fun i hi => ?_) ?_ hbits
        · rw [hqueued, Function.update_of_ne hi]
        · rw [hqueued, Function.update_self]
          exact iff_of_true hfunc rfl
  | deallocQueuedIrq irq =>
    cases hs'
    simp only [Call.irq]
    unfold IrqTables.deallocQueuedIrq
    split_ifs with hskip
    · exact hsame irq
    · rw [not_or] at hskip
      obtain ⟨hhandlers, hqueued, hbits⟩ := IrqTables.deallocIrq_eq (s := s) hskip.1
      refine h.remove (Nat.lt_succ_of_le (not_lt.mp hskip.1)) hhandlers (fun i hi => ?_) ?_ hbits
      · exact (Function.update_of_ne hi _ _).trans (congrFun hqueued i)
      · exact Function.update_self _ _ _

/-- The bit that unmasking a line of the second controller should have cleared. -/
theorem Sound.bit_of_gt (h : Sound s) (hirq : ¬irq ≤ 7) (hlt : irq.toNat < 16)
    (hbits : ∀ i < 16, s'.bit i = (s.bit i && !decide (i = line irq))) :
    s'.bit irq.toNat = true := by
  have hne : irq.toNat ≠ line irq := by
    rw [line_of_gt hirq]
    omega
  have height : 8 ≤ irq.toNat := by
    rw [IrqTables.le_seven_iff] at hirq
    omega
  rw [hbits _ hlt, decide_eq_false hne, h.bit_of_free hlt (h.slaves _ height hlt)]
  rfl

/-- A call that leaves the tables consistent, and the bits of the other IRQs, is proper. -/
theorem Sound.proper (h : Sound s) {c : Call} (hc : Masks s c) : Proper s c := by
  cases c with
  | allocIrq irq func name =>
    obtain ⟨hcons, hother⟩ := hc _ rfl
    by_cases hbusy : 15 < irq ∨ s.irqHandlers irq.toNat ≠ none
    · exact hbusy.imp_right .inl
    refine .inr (.inr ?_)
    rw [not_or, not_not] at hbusy
    obtain ⟨-, hhandlers, hqueued, hbits⟩ := IrqTables.allocIrq_free
      hbusy.1 hbusy.2 (func.map Handler.func) name
    have hlt : irq.toNat < 16 := Nat.lt_succ_of_le (not_lt.mp hbusy.1)
    have hmask := hcons.masks irq.toNat hlt
    rw [hhandlers, Function.update_self] at hmask
    by_cases hirq : irq ≤ 7
    · refine .inl ⟨hirq, fun hfunc => ?_⟩
      subst hfunc
      have hclear := hbits irq.toNat hlt
      rw [line_of_le hirq, decide_eq_true rfl, Bool.not_true, Bool.and_false] at hclear
      exact hmask.mp hclear rfl
    · have hset := h.bit_of_gt hirq hlt hbits
      have hfunc : func = none := by
        by_contra hne
        obtain ⟨f, rfl⟩ := Option.ne_none_iff_exists'.mp hne
        exact Bool.false_ne_true ((hmask.mpr (Option.some_ne_none _)).symm.trans hset)
      refine .inr ⟨?_, hfunc⟩
      by_contra hne
      -- the bit of the next line has been cleared
      have hlast : irq.toNat ≠ 15 := fun h15 => hne (BitVec.eq_of_toNat_eq h15)
      have hnext := hother (irq.toNat + 1) (by omega) (Nat.succ_ne_self _)
      rw [IrqTables.le_seven_iff] at hirq
      have hfree := h.slaves (irq.toNat + 1) (by omega) (by omega)
      have hclear := hbits (irq.toNat + 1) (by omega)
      rw [line_of_gt hirq, decide_eq_true rfl, Bool.not_true, Bool.and_false] at hclear
      have hbit := h.bit_of_free (by omega) hfree
      exact Bool.false_ne_true (hclear.symm.trans (hnext.trans hbit))
  | deallocIrq irq =>
    obtain ⟨hcons, -⟩ := hc _ rfl
    by_cases hirq : 15 < irq
    · exact .inl hirq
    · refine .inr ?_
      obtain ⟨hhandlers, hqueued, -⟩ := IrqTables.deallocIrq_eq (s := s) hirq
      have hstub := hcons.stubs irq.toNat (Nat.lt_succ_of_le (not_lt.mp hirq))
      rw [hhandlers, hqueued, Function.update_self] at hstub
      by_contra hq
      exact Option.some_ne_none _ (hstub.mp hq).symm
  | allocQueuedIrq irq func name =>
    obtain ⟨hcons, -⟩ := hc _ rfl
    by_cases hbusy : 15 < irq ∨ s.irqQHandlers irq.toNat ≠ none ∨ s.irqHandlers irq.toNat ≠ none
    · exact hbusy.imp_right fun hq => hq.imp_right .inl
    refine .inr (.inr (.inr ?_))
    rw [not_or, not_or, not_not, not_not] at hbusy
    obtain ⟨hhandlers, hqueued, hbits⟩ := IrqTables.allocQueuedIrq_free
      hbusy.1 hbusy.2.1 hbusy.2.2 func name
    have hlt : irq.toNat < 16 := Nat.lt_succ_of_le (not_lt.mp hbusy.1)
    have hmask := hcons.masks irq.toNat hlt
    have hstub := hcons.stubs irq.toNat hlt
    rw [hhandlers, Function.update_self] at hmask hstub
    rw [hqueued, Function.update_self] at hstub
    refine ⟨?_, hstub.mpr rfl⟩
    by_contra hirq
    have hset := h.bit_of_gt hirq hlt hbits
    exact Bool.false_ne_true ((hmask.mpr (Option.some_ne_none _)).symm.trans hset)
  | deallocQueuedIrq irq => trivial

/-! ## Sequences of calls -/

theorem initial_sound : Sound IrqTables.initial := by
  refine ⟨⟨fun i hi => ?_, fun i hi => ?_⟩, fun i _ _ => rfl⟩
  · have hbit : IrqTables.initial.bit i = true := by
      revert hi
      revert i
      decide
    rw [hbit]
    simp [IrqTables.initial]
  · simp [IrqTables.initial]

/-- A sequence of calls can always be made. -/
theorem run_isSome (s : IrqTables) (calls : List Call) : ∃ s', run step s calls = some s' := by
  induction calls generalizing s with
  | nil => exact ⟨s, rfl⟩
  | cons c calls ih =>
    obtain ⟨s₁, h₁⟩ : ∃ s₁, step s c = some s₁ := by
      cases c <;> exact ⟨_, rfl⟩
    obtain ⟨s', h'⟩ := ih s₁
    exact ⟨s', run_cons_eq_some.mpr ⟨s₁, h₁, h'⟩⟩

/-- **Interrupt masks.** From tables without handlers and with all lines masked, the calls of a
sequence keep the masks, the handlers and the stubs in step, each without touching the bit of
another IRQ, exactly when they are all proper. -/
theorem masks_along_iff (calls : List Call) :
    Along step Masks IrqTables.initial calls ↔ Along step Proper IrqTables.initial calls := by
  obtain ⟨s', hrun⟩ := run_isSome IrqTables.initial calls
  have hkept : Preserves step Proper Sound := fun s c s' h hc hs' => (h.step hc hs').1
  refine along_iff (fun s c s' h hs' => ⟨h.proper, fun hc => ?_⟩) hkept initial_sound hrun
  intro t ht
  obtain ⟨hsound, hother⟩ := h.step hc ht
  exact ⟨hsound.toConsistent, hother⟩

/-- The clock of the CMOS, IRQ 8. -/
theorem masks_second_controller :
    ¬∀ calls : List Call, Along step Masks IrqTables.initial calls := by
  intro h
  obtain ⟨hcons, -⟩ := (h [.allocIrq 8 (some 1) none]).1 _ rfl
  exact absurd ((hcons.masks 8 (by decide)).mpr (by decide)) (by decide)

end Vmm386.Irq
