import Vmm386.Lib.Runs
import Vmm386.Tasks.TaskFlags
import Vmm386.Vmach.Vm

/-!
# The virtual interrupt controllers

`drivers/virtual/vpic/vpic.c`, and what the instructions that `vm_gpe_handler` emulates do to
the interrupt flag of a virtual machine.
-/

namespace Vmm386.Vpic

open Tasks
open Vmach (FLAGS_IF FLAGS_TF set16)

/-- `1 << n`, as it is stored in a register; the processor takes the count modulo 32. -/
def bit (n : ℕ) : UChar := ((1 : ULong) <<< (n % 32)).setWidth 8

/-- `BSF`: where no bit is set, what was in the destination stays. -/
def bsf (junk : ℕ) (w : UChar) : ℕ := if w = 0 then junk else w.ctz.toNat

/-- `enum pic_state`. -/
inductive PicState where
  | normal
  | waitICW2
  | waitICW3
  | waitICW4
  | readISR
  | readIRR
deriving DecidableEq

/-- `struct vpic`, with `is_slave` in the type. -/
structure Pic (isSlave : Bool) where
  base : UChar
  mask : UChar
  irr : UChar
  isr : UChar
  needICW4 : Bool
  state : PicState
  link : UChar

/-- `struct vpic_pair`. -/
structure PicPair where
  master : Pic false
  slave : Pic true

namespace Pic

variable {isSlave : Bool} (p : Pic isSlave)

/-- `pic->irr = (pic->irr | (1 << n)) & ~pic->mask`. -/
def request (n : ℕ) : Pic isSlave := { p with irr := (p.irr ||| bit n) &&& ~~~p.mask }

/-- `vpic_return_hook`: line `n` goes from the requests into service. -/
def serve (n : ℕ) : Pic isSlave := { p with irr := p.irr &&& ~~~bit n, isr := bit n }

/-- `vpic_out`: a write to 0x20 or 0xA0, and whether it is an EOI. -/
def outCommand (val : ULong) : Bool × Pic isSlave :=
  if p.state = .normal then
    if val &&& 0x10 ≠ 0 then
      (false, { p with state := .waitICW2, needICW4 := decide (val &&& 1 ≠ 0) })
    else if val &&& 0x18 = 0 then
      if val &&& 0xf8 = 0x20 ∨ val &&& 0xf8 = 0x60 then (true, { p with isr := 0 })
      else (false, p)
    else if val &&& 0x18 = 0x08 then
      if val &&& 2 ≠ 0 then
        (false, { p with state := if val &&& 1 ≠ 0 then .readIRR else .readISR })
      else (false, p)
    else (false, p)
  else (false, p)

/-- `vpic_out`: a write to 0x21 or 0xA1. -/
def outData (val : ULong) : Pic isSlave :=
  match p.state with
  | .normal => { p with mask := val.setWidth 8 }
  | .waitICW2 => { p with base := (val &&& 7).setWidth 8, state := .waitICW3 }
  | .waitICW3 => { p with
      link := if isSlave then (val &&& 7).setWidth 8 else val.setWidth 8
      state := if p.needICW4 then .waitICW4 else .normal }
  | .waitICW4 => { p with state := .normal }
  | _ => p

/-- `vpic_in`: a read from 0x20 or 0xA0. -/
def inCommand : ULong × Pic isSlave :=
  (if p.state = .readISR then p.isr.setWidth 32
    else if p.state = .readIRR then p.irr.setWidth 32 else -1,
    { p with state := .normal })

end Pic

namespace PicPair

variable (p : PicPair)

/-- `simulate_irq`: the requests. -/
def raise (irq : UChar) : PicPair :=
  if 8 ≤ irq then
    { slave := p.slave.request (irq - 8).toNat, master := p.master.request p.slave.link.toNat }
  else { p with master := p.master.request irq.toNat }

/-- `vpic_return_hook`: an IRQ goes into service. Its number and its vector are returned. -/
def deliver (junk : ℕ) : (ℕ × ℕ) × PicPair :=
  let irq := bsf junk p.master.irr
  let master := p.master.serve irq
  if master.link = bit irq then
    let sirq := bsf junk p.slave.irr
    let slave := p.slave.serve sirq
    ((8 + sirq, slave.base.toNat + sirq),
      { slave := slave
        master := if slave.irr ≠ 0 then master.request slave.link.toNat else master })
  else ((irq, master.base.toNat + irq), { p with master := master })

/-- `set_mask`. -/
def setMask (set : Bool) (mask : UShort) : PicPair :=
  let low : UChar := mask.setWidth 8
  let high : UChar := (mask >>> 8).setWidth 8
  if set then
    { master := { p.master with mask := p.master.mask ||| low }
      slave := { p.slave with mask := p.slave.mask ||| high } }
  else
    { master := { p.master with mask := p.master.mask &&& ~~~low }
      slave := { p.slave with mask := p.slave.mask &&& ~~~high } }

end PicPair

/-- The controllers of a virtual machine, and the fields of `struct vm` and of its task that
they use: `return_hook` is `vpic_return_hook` or null. -/
structure Vm where
  pair : PicPair
  virtualEflags : ULong
  hlted : Bool
  returnHook : Bool
  flags : Flags

namespace Vm

variable (v : Vm)

/-- The machine's interrupt flag is set. -/
abbrev IfSet : Prop := v.virtualEflags &&& FLAGS_IF ≠ 0

/-- `install_return_hook`, and `IF_enabled`. -/
def installReturnHook : Vm :=
  if v.IfSet ∧ v.pair.master.irr ≠ 0 then { v with returnHook := true } else v

/-- `IF_disabled`. -/
def ifDisabled : Vm := { v with returnHook := false }

/-- `vpic_return_hook`, with what is delivered. `vm86` tells whether the machine's code was
interrupted. -/
def vpicReturnHook (vm86 : Bool) (junk : ℕ) : Option (ℕ × ℕ) × Vm :=
  let r :=
    if vm86 ∧ v.IfSet ∧ v.pair.master.isr = 0 ∧ v.pair.master.irr ≠ 0 then
      let d := v.pair.deliver junk
      (some d.1, { v with
        pair := d.2
        virtualEflags := v.virtualEflags &&& ~~~(FLAGS_IF ||| FLAGS_TF) })
    else (none, v)
  (r.1, if r.2.pair.master.irr = 0 then { r.2 with returnHook := false } else r.2)

/-- `simulate_irq`. -/
def simulateIrq (irq : UChar) : Vm :=
  let v := { v with pair := v.pair.raise irq }
  if v.IfSet then
    let v := if v.hlted then { v with flags := v.flags.wake, hlted := false } else v
    { v with returnHook := true }
  else v

/-- `vpic_out`. -/
def vpicOut (port : UShort) (size : ℕ) (val : ULong) : Vm :=
  if size = 1 then
    if port = 0x20 then
      let r := v.pair.master.outCommand val
      let v := { v with pair := { v.pair with master := r.2 } }
      if r.1 then v.installReturnHook else v
    else if port = 0xa0 then
      let r := v.pair.slave.outCommand val
      let v := { v with pair := { v.pair with slave := r.2 } }
      if r.1 then v.installReturnHook else v
    else if port = 0x21 then
      { v with pair := { v.pair with master := v.pair.master.outData val } }
    else if port = 0xa1 then
      { v with pair := { v.pair with slave := v.pair.slave.outData val } }
    else v
  else v

/-- `vpic_in`. -/
def vpicIn (port : UShort) (size : ℕ) : ULong × Vm :=
  if size = 1 then
    if port = 0x20 then
      let r := v.pair.master.inCommand
      (r.1, { v with pair := { v.pair with master := r.2 } })
    else if port = 0xa0 then
      let r := v.pair.slave.inCommand
      (r.1, { v with pair := { v.pair with slave := r.2 } })
    else if port = 0x21 then (v.pair.master.mask.setWidth 32, v)
    else if port = 0xa1 then (v.pair.slave.mask.setWidth 32, v)
    else (-1, v)
  else (-1, v)

/-- `vm_gpe_handler`: CLI. -/
def cli : Vm := { v with virtualEflags := v.virtualEflags &&& ~~~FLAGS_IF }.ifDisabled

/-- `vm_gpe_handler`: HLT. -/
def hlt : Vm := { v with hlted := true, flags := v.flags.suspend }

/-- `vm_gpe_handler`: STI, with the HLT that may follow it. -/
def sti (thenHlt : Bool) : Vm :=
  let v := { v with virtualEflags := v.virtualEflags ||| FLAGS_IF }
  (if thenHlt then v.hlt else v).installReturnHook

/-- `vm_gpe_handler`: POPF and IRET of the flags `val`. -/
def loadFlags (wide : Bool) (val : ULong) : Vm :=
  let v := { v with virtualEflags := if wide then val else set16 v.virtualEflags val }
  if v.IfSet then v.installReturnHook else v.ifDisabled

/-- `vm_gpe_handler`: INT. -/
def int : Vm := { v with virtualEflags := v.virtualEflags &&& ~~~(FLAGS_IF ||| FLAGS_TF) }

end Vm

/-- `create_vpic`, for a machine as `create_vm` makes it. -/
def createVpic : Vm where
  pair :=
    { master := ⟨0x08, 0xff, 0, 0, false, .normal, 0⟩
      slave := ⟨0x70, 0xff, 0, 0, false, .normal, 0⟩ }
  virtualEflags := 2
  hlted := false
  returnHook := false
  flags := Flags.runnable

/-! ## Runs -/

inductive PicOp where
  | simulateIrq (irq : UChar)
  | vpicOut (port : UShort) (size : ℕ) (val : ULong)
  | vpicIn (port : UShort) (size : ℕ)
  | setMask (set : Bool) (mask : UShort)
  | ifEnabled
  | ifDisabled
  | vpicReturnHook (vm86 : Bool) (junk : ℕ)
  | cli
  | sti (thenHlt : Bool)
  | loadFlags (wide : Bool) (val : ULong)
  | int
  | hlt

/-- The next state. The lines are numbered up to 15; `IF_disabled` is called where the flag is
clear, and the hook where it is installed. -/
def Vm.next (v : Vm) : PicOp → Option Vm
  | .simulateIrq irq => if irq < 16 then some (v.simulateIrq irq) else none
  | .vpicOut port size val => some (v.vpicOut port size val)
  | .vpicIn port size => some (v.vpicIn port size).2
  | .setMask set mask => some { v with pair := v.pair.setMask set mask }
  | .ifEnabled => some v.installReturnHook
  | .ifDisabled => if v.IfSet then none else some v.ifDisabled
  | .vpicReturnHook vm86 junk =>
    if v.returnHook then some (v.vpicReturnHook vm86 junk).2 else none
  | .cli => some v.cli
  | .sti thenHlt => some (v.sti thenHlt)
  | .loadFlags wide val => some (v.loadFlags wide val)
  | .int => some v.int
  | .hlt => some v.hlt

/-- IRQ `n` is requested. The master's line that `link` names stands for the slave. -/
def PicPair.pending (p : PicPair) (n : ℕ) : Bool :=
  if n < 8 then p.master.irr.getLsbD n && decide (p.master.link ≠ bit n)
  else p.slave.irr.getLsbD (n - 8)

/-- A machine, with how often each IRQ came to be requested, and the numbers and vectors of
those that were delivered. -/
structure PicSys where
  vm : Vm
  accepted : ℕ → ℕ
  delivered : List (ℕ × ℕ)

namespace PicSys

/-- Nothing has been delivered, and each IRQ that is requested has been accepted once. -/
def start (v : Vm) : PicSys := ⟨v, fun n => (v.pair.pending n).toNat, []⟩

/-- How often IRQ `n` has been delivered. -/
def deliveries (s : PicSys) (n : ℕ) : ℕ := (s.delivered.map Prod.fst).count n

end PicSys

/-- A step, with its record. -/
def picStep (s : PicSys) (op : PicOp) : Option PicSys :=
  (s.vm.next op).map fun v =>
    { vm := v
      accepted :=
        match op with
        | .simulateIrq _ => fun n =>
          s.accepted n + (v.pair.pending n && !s.vm.pair.pending n).toNat
        | _ => s.accepted
      delivered :=
        match op with
        | .vpicReturnHook vm86 junk =>
          s.delivered ++ (s.vm.vpicReturnHook vm86 junk).1.toList
        | _ => s.delivered }

end Vmm386.Vpic
