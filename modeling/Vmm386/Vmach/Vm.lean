import Vmm386.Mm.PageDirTheorems

/-!
# Virtual machines

The memory of a virtual machine: `drivers/virtual/vm/vmach.c` and the page fault handler and
the interrupt simulator of `drivers/virtual/vm/fault.c`. Only the registers that the latter
uses are modelled.
-/

namespace Vmm386.Vmach

open Mm

abbrev PF_ERROR_PROTECTION : ULong := 1

abbrev FLAGS_IF : ULong := 0x200

abbrev FLAGS_TF : ULong := 0x100

abbrev USER_EFLAGS : ULong := 0xcff

/-- `page_dir` of the machine's task, and the fields of `struct vm` for its memory and flags. -/
structure Vm where
  pageDir : ULong
  a20State : Bool
  himemPtes : ULong → ULong
  virtualEflags : ULong

/-- The memory, `empty_page`, `logical_kernel_pd`, and the pages that are neither free nor
taken for the virtual machine. -/
structure Kernel extends Memory where
  emptyPage : ULong
  logicalKernelPd : ULong
  others : Finset ULong

structure VmSys extends Kernel where
  vm : Vm

/-- The fields of `struct vm86_regs` that are used. -/
structure Vm86Regs where
  eip : ULong
  cs : UShort
  eflags : ULong
  esp : ULong
  ss : UShort

/-- Address of the `i`-th page. -/
def lowAddr (i : ULong) : ULong := i * PAGE_SIZE

/-- Address of the `i`-th page from 1M on. -/
def highAddr (i : ULong) : ULong := 0x100000 + i * PAGE_SIZE

namespace VmSys

/-- `kernel->get_pte` in the machine's page directory. -/
def getPte (s : VmSys) (addr : ULong) : ULong := s.mem.getPte s.vm.pageDir addr

/-- `kernel->set_pte` in the machine's page directory. -/
def setPte (s : VmSys) (addr pte : ULong) : VmSys :=
  { s with mem := s.mem.setPte s.vm.pageDir addr pte }

/-- `kernel->map_page` in the machine's page directory. -/
def mapPage (s : VmSys) (pg addr flags : ULong) : VmSys :=
  { s with mem := s.mem.mapPage s.vm.pageDir pg addr flags }

/-- `kernel->put_pd_val` in the machine's page directory. -/
def putPdVal (s : VmSys) (size : ℕ) (val lin : ULong) : VmSys :=
  { s with toMemory := s.toMemory.putPdVal s.vm.pageDir size val lin }

/-- `set_gate_a20`: an iteration when the gate is enabled. -/
def restoreHigh (s : VmSys) (i : ℕ) : VmSys :=
  s.setPte (highAddr (BitVec.ofNat 32 i)) (s.vm.himemPtes (BitVec.ofNat 32 i))

/-- `set_gate_a20`: an iteration when the gate is disabled. -/
def aliasHigh (s : VmSys) (i : ℕ) : VmSys :=
  let i := BitVec.ofNat 32 i
  let saved := s.getPte (highAddr i)
  { s with vm := { s.vm with himemPtes := Function.update s.vm.himemPtes i saved } }.setPte
    (highAddr i) (s.getPte (lowAddr i) &&& ~~~PTE_FREEABLE)

/-- `set_gate_a20`. -/
def setGateA20 (s : VmSys) (state : Bool) : VmSys :=
  if s.vm.a20State = state then s
  else
    let s := (List.range 16).foldl (if state then restoreHigh else aliasHigh) s
    { s with vm := { s.vm with a20State := state } }

/-- `vm_pfl_handler`. On a protection error the faulting instruction is skipped, which is not
part of the state. -/
def vmPflHandler (s : VmSys) (errorCode lin : ULong) : Bool × VmSys :=
  if errorCode &&& PF_ERROR_PROTECTION ≠ 0 then
    (if lin < 0xa0000 ∨ 0xfffff < lin then false else true, s)
  else
    let new := s.mem.pages.allocPage
    let s := { s with mem := { s.mem with pages := new.2 } }
    let lin := if s.vm.a20State = false ∧ 0x100000 ≤ lin then lin - 0x100000 else lin
    let pte := s.getPte lin
    let s := s.mapPage new.1 (lin &&& PAGE_MASK)
      ((pte &&& (PTE_USER ||| PTE_READ_WRITE ||| PTE_FREEABLE)) ||| PTE_PRESENT)
    let s :=
      if s.vm.a20State = false ∧ lin < 0x10000 then
        s.mapPage new.1 ((lin &&& PAGE_MASK) + 0x100000)
          ((pte &&& (PTE_USER ||| PTE_READ_WRITE)) ||| PTE_PRESENT)
      else s
    (true, s)

end VmSys

/-- `SET16`. -/
def set16 (x : ULong) (v : ULong) : ULong := (x &&& 0xffff0000) ||| (v &&& 0xffff)

/-- The address of the word on top of the stack. -/
def Vm86Regs.top (regs : Vm86Regs) : ULong :=
  (regs.ss.zeroExtend 32 <<< 4) + (regs.esp &&& 0xffff)

/-- The registers after `push_far_sp`. -/
def Vm86Regs.push (regs : Vm86Regs) : Vm86Regs :=
  { regs with esp := set16 regs.esp ((regs.esp &&& 0xffff) - 2) }

namespace VmSys

/-- `push_far_sp`. -/
def pushFarSp (s : VmSys) (regs : Vm86Regs) (value : ULong) : Vm86Regs × VmSys :=
  (regs.push, s.putPdVal 2 value regs.push.top)

/-- `simulate_vm_int`. -/
def simulateVmInt (s : VmSys) (regs : Vm86Regs) (vector : ULong) : Vm86Regs × VmSys :=
  let vec := s.mem.linToPhys s.vm.pageDir (vector * 4)
  let r := s.pushFarSp regs ((s.vm.virtualEflags &&& ~~~USER_EFLAGS) |||
    (regs.eflags &&& USER_EFLAGS))
  let s := { r.2 with
    vm := { r.2.vm with virtualEflags := r.2.vm.virtualEflags &&& ~~~(FLAGS_IF ||| FLAGS_TF) } }
  let r := s.pushFarSp r.1 (r.1.cs.zeroExtend 32)
  let r := r.2.pushFarSp r.1 r.1.eip
  ({ r.1 with
    cs := loadShort r.2.bytes (toLogical (vec + 2))
    eip := set16 r.1.eip ((loadShort r.2.bytes (toLogical vec)).zeroExtend 32) }, r.2)

end VmSys

/-! ## Creation and death -/

/-- `fill_vm_page_dir`: a loop that sets the entries from `x` to `stop`, both in K. -/
def fillRange (pd pte stop : ULong) : ℕ → ULong → Mem → ULong × Mem
  | 0, x, m => (x, m)
  | k + 1, x, m =>
    if x < stop then fillRange pd pte stop k (x + 4) (m.setPte pd (x * 1024) pte) else (x, m)

/-- `fill_vm_page_dir`. -/
def fillVmPageDir (pd emptyPage : ULong) (baseMem extendedMem : UShort) (m : Mem) : Mem :=
  let template := PTE_USER ||| PTE_READ_WRITE ||| PTE_FREEABLE
  let r := fillRange pd template (baseMem.zeroExtend 32) ADDRESSES 0 m
  let r := fillRange pd (toPhysical emptyPage ||| PTE_USER ||| PTE_PRESENT) 1024 ADDRESSES 640 r.2
  (fillRange pd template (1024 + extendedMem.zeroExtend 32) ADDRESSES r.1 r.2).2

/-- `hardware.base_mem`: `min` compares its arguments as `int`s. -/
def baseMem (virtualMem : ULong) : UShort :=
  (if (640 : ULong).slt virtualMem then 640 else virtualMem).truncate 16

/-- `hardware.extended_mem`. -/
def extendedMem (virtualMem : ULong) : UShort :=
  (if 1024 < virtualMem then virtualMem - 1024 else 0).truncate 16

namespace Kernel

/-- `create_vm` up to `set_gate_a20`, with `make_task_page_dir` for `add_task`. -/
def fillVm (k : Kernel) (virtualMem : ULong) : Option VmSys :=
  let r := k.mem.makeTaskPageDir k.logicalKernelPd
  if r.1 = NULL then none
  else some { k with
    mem := fillVmPageDir r.1 k.emptyPage (baseMem virtualMem) (extendedMem virtualMem) r.2
    vm := { pageDir := r.1, a20State := true, himemPtes := fun _ => 0, virtualEflags := 2 } }

/-- `create_vm`. -/
def createVm (k : Kernel) (virtualMem : ULong) : Option VmSys :=
  (k.fillVm virtualMem).map fun s => s.setGateA20 false

end Kernel

/-- What `kill_vm` does to the memory, by `reclaim_task`. -/
def VmSys.killVm (s : VmSys) : Kernel :=
  { s.toKernel with mem := s.mem.deletePageDir s.vm.pageDir }

/-! ## Lives -/

/-- What happens to a virtual machine, and what the rest of the system does meanwhile. -/
inductive VmOp where
  | setGateA20 (state : Bool)
  | pageFault (errorCode lin : ULong)
  | putPdVal (size : ℕ) (val lin : ULong)
  | simulateVmInt (regs : Vm86Regs) (vector : ULong)
  /-- Someone else takes a page. -/
  | allocPage
  /-- Someone else gives the page `p` back. -/
  | freePage (p : ULong)

/-- A step. The user's segments end at `KERNEL_BASE_ADDR`; without a protection error there is
a fault only where no page is present. -/
def vmStep (s : VmSys) : VmOp → Option VmSys
  | .setGateA20 state => some (s.setGateA20 state)
  | .pageFault errorCode lin =>
    if lin < KERNEL_BASE_ADDR ∧
        (errorCode &&& PF_ERROR_PROTECTION = 0 → ¬Present (s.getPte lin)) then
      some (s.vmPflHandler errorCode lin).2
    else none
  | .putPdVal size val lin =>
    if lin < KERNEL_BASE_ADDR then some (s.putPdVal size val lin) else none
  | .simulateVmInt regs vector => some (s.simulateVmInt regs vector).2
  | .allocPage =>
    let r := s.mem.pages.allocPage
    some { s with
      mem := { s.mem with pages := r.2 }
      others := if r.1 = NULL then s.others else insert r.1 s.others }
  | .freePage p =>
    if p ∈ s.others ∧ p ≠ s.emptyPage then
      some { s with
        mem := { s.mem with pages := s.mem.pages.freePage p }
        others := s.others.erase p }
    else none

end Vmm386.Vmach
