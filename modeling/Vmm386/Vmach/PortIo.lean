import Vmm386.Vmach.Flags

/-!
# Port instructions

The port instructions of a virtual machine's program trap: `vm_gpe_handler` of
`drivers/virtual/vm/fault.c` executes them, with the handlers that `drivers/virtual/vm/vmach.c`
keeps for the ports. The program's memory is taken by linear address. What is printed is left
out, and so are the cases of the instructions that no port belongs to.
-/

namespace Vmm386.PortIo

open Mm Vmach

abbrev PFX_ADDR : ULong := 1

abbrev PFX_LOCK : ULong := 2

abbrev PFX_OP : ULong := 4

abbrev PFX_CS : ULong := 8

abbrev PFX_DS : ULong := 16

abbrev PFX_ES : ULong := 32

abbrev PFX_FS : ULong := 64

abbrev PFX_GS : ULong := 128

abbrev PFX_SS : ULong := 256

abbrev FLAGS_DF : ULong := 0x400

/-- `struct vm86_regs`, as the program has it. -/
structure UserRegs extends Vm86Regs where
  eax : ULong
  ebx : ULong
  ecx : ULong
  edx : ULong
  edi : ULong
  esi : ULong
  ebp : ULong
  es : UShort
  ds : UShort
  fs : UShort
  gs : UShort

/-- The program's memory, and the state `D` of the devices. -/
structure World (D : Type*) where
  mem : ULong → UChar
  dev : D

/-- `struct io_handler`: `input` is its `in`, `output` its `out`. -/
structure IoHandler (D : Type*) where
  lowPort : UShort
  highPort : UShort
  input : UShort → ℕ → World D → ULong × World D
  output : UShort → ℕ → ULong → World D → World D

/-- `local_io` of the machine, and `global_io`. -/
structure IoLists (D : Type*) where
  localIo : List (IoHandler D)
  globalIo : List (IoHandler D)

namespace IoLists

variable {D : Type*} (io : IoLists D)

/-- `get_io_handler`. -/
def getIoHandler (port : UShort) : Option (IoHandler D) :=
  (io.localIo ++ io.globalIo).find? fun ioh => ioh.lowPort ≤ port ∧ port ≤ ioh.highPort

/-- `ioh ? ioh->in(vm, port, size) : (u_long)-1`. -/
def readPort (port : UShort) (size : ℕ) (w : World D) : ULong × World D :=
  match io.getIoHandler port with
  | none => (-1, w)
  | some ioh => ioh.input port size w

end IoLists

/-- A machine whose program has trapped. -/
structure Guest (D : Type*) extends World D where
  regs : UserRegs
  virtualEflags : ULong

/-- The bit of a prefix. -/
def prefixBit (byte : UChar) : Option ULong :=
  if byte = 0x67 then some PFX_ADDR
  else if byte = 0x80 then some PFX_LOCK
  else if byte = 0x66 then some PFX_OP
  else if byte = 0x2e then some PFX_CS
  else if byte = 0x3e then some PFX_DS
  else if byte = 0x26 then some PFX_ES
  else if byte = 0x64 then some PFX_FS
  else if byte = 0x65 then some PFX_GS
  else if byte = 0x36 then some PFX_SS
  else none

/-- `get_data_seg`. -/
def getDataSeg (regs : UserRegs) (prefixes : ULong) : UShort :=
  if prefixes &&& (PFX_CS ||| PFX_ES ||| PFX_FS ||| PFX_GS ||| PFX_SS) = 0 then regs.ds
  else if prefixes &&& PFX_CS ≠ 0 then regs.cs
  else if prefixes &&& PFX_ES ≠ 0 then regs.es
  else if prefixes &&& PFX_FS ≠ 0 then regs.fs
  else if prefixes &&& PFX_GS ≠ 0 then regs.gs
  else if prefixes &&& PFX_SS ≠ 0 then regs.ss
  else regs.ds

/-- The size of the operand. -/
def opSize (byte : UChar) (prefixes : ULong) : ℕ :=
  if byte &&& 1 ≠ 0 then if prefixes &&& PFX_OP ≠ 0 then 4 else 2 else 1

/-- The mask for it. -/
def opMask (byte : UChar) (prefixes : ULong) : ULong :=
  if byte &&& 1 ≠ 0 then if prefixes &&& PFX_OP ≠ 0 then 0xffffffff else 0x0000ffff
  else 0x000000ff

/-- `push_di` and `pop_si`: the offset in a segment that EDI or ESI stands for. -/
def offset (prefixes x : ULong) : ULong := if prefixes &&& PFX_ADDR ≠ 0 then x else x &&& 0xffff

/-- `push_di` and `pop_si`: EDI or ESI afterwards. An assignment to `(u_short)regs->edi` assigns
the sum of 16 bits to the whole register. -/
def advance (prefixes eflags : ULong) (size : ℕ) (x : ULong) : ULong :=
  if prefixes &&& PFX_ADDR ≠ 0 then
    if eflags &&& FLAGS_DF ≠ 0 then x - BitVec.ofNat 32 size else x + BitVec.ofNat 32 size
  else
    let low : UShort := x.truncate 16
    (if eflags &&& FLAGS_DF ≠ 0 then low - BitVec.ofNat 16 size
      else low + BitVec.ofNat 16 size).zeroExtend 32

/-- `addr_mask` of a repeated instruction. -/
def addrMask (byte : UChar) (prefixes : ULong) : ULong :=
  if byte &&& 1 ≠ 0 then if prefixes &&& PFX_ADDR ≠ 0 then 0xffffffff else 0x0000ffff
  else 0x000000ff

/-- The mask of its `count`. -/
def countMask (prefixes : ULong) : ULong :=
  if prefixes &&& PFX_ADDR ≠ 0 then 0xffffffff else 0x0000ffff

/-- Where a handled trap leaves the machine. -/
inductive Outcome where
  /-- Its program goes on. -/
  | resumed
  /-- `dump_regs` has frozen the task. -/
  | stopped
  /-- The case of an instruction without a port is next. -/
  | other (byte : UChar) (prefixes : ULong)
  deriving DecidableEq

namespace Guest

variable {D : Type*} (g : Guest D)

def setEip (eip : ULong) : Guest D := { g with regs := { g.regs with eip := eip } }

/-- The address that `pop_cs` reads. -/
def codeAddr : ULong := (g.regs.cs.zeroExtend 32 <<< 4) + (g.regs.eip &&& 0xffff)

/-- `pop_cs`. -/
def popCs : UChar × Guest D := (g.mem g.codeAddr, g.setEip (set16 g.regs.eip (g.regs.eip + 1)))

/-- `get_prefixes`, of which it takes `fuel` bytes at most. -/
def getPrefixes : ℕ → ULong → Guest D → Option (ULong × Guest D)
  | 0, _, _ => none
  | fuel + 1, prefixes, g =>
    let r := g.popCs
    match prefixBit r.1 with
    | some bit => getPrefixes fuel (prefixes ||| bit) r.2
    | none => some (prefixes, r.2.setEip (set16 r.2.regs.eip ((r.2.regs.eip &&& 0xffff) - 1)))

/-- `get_user_byte`, `get_user_short` and `get_user_long`. -/
def getUser (size : ℕ) (addr : ULong) : ULong := (flatMem.getUser size addr g.mem).1

/-- `put_user_byte`, `put_user_short` and `put_user_long`. -/
def putUser (size : ℕ) (addr val : ULong) : Guest D :=
  { g with mem := flatMem.putUser size addr val g.mem }

/-- `push_di`. -/
def pushDi (prefixes : ULong) (size : ℕ) (val : ULong) : Guest D :=
  let g := g.putUser size ((g.regs.es.zeroExtend 32 <<< 4) + offset prefixes g.regs.edi) val
  { g with regs := { g.regs with edi := advance prefixes g.regs.eflags size g.regs.edi } }

/-- `pop_si`. -/
def popSi (prefixes : ULong) (size : ℕ) : ULong × Guest D :=
  (g.getUser size (((getDataSeg g.regs prefixes).zeroExtend 32 <<< 4) + offset prefixes g.regs.esi),
    { g with regs := { g.regs with esi := advance prefixes g.regs.eflags size g.regs.esi } })

/-- The port of an instruction: DX, or the byte behind the opcode. -/
def portOf (byte : UChar) : UShort × Guest D :=
  if byte &&& 0x08 ≠ 0 then (g.regs.edx.truncate 16, g)
  else
    let r := g.popCs
    (r.1.zeroExtend 16, r.2)

variable (io : IoLists D)

/-- The case of IN and INS: `val` is a `u_short`. -/
def doIn (byte : UChar) (prefixes : ULong) : Guest D :=
  let p := g.portOf byte
  let mask := opMask byte prefixes
  let r := io.readPort p.1 (opSize byte prefixes) p.2.toWorld
  let val : UShort := (r.1 &&& mask).truncate 16
  let g : Guest D := { p.2 with toWorld := r.2 }
  if byte &&& 0x80 ≠ 0 then
    { g with regs := { g.regs with eax := (g.regs.eax &&& ~~~mask) ||| val.zeroExtend 32 } }
  else g.pushDi prefixes (opSize byte prefixes) (val.zeroExtend 32)

/-- The case of OUT and OUTS. -/
def doOut (byte : UChar) (prefixes : ULong) : Guest D :=
  let p := g.portOf byte
  let size := opSize byte prefixes
  match io.getIoHandler p.1 with
  | none => p.2
  | some ioh =>
    if byte &&& 0x80 ≠ 0 then
      { p.2 with
        toWorld := ioh.output p.1 size (p.2.regs.eax &&& opMask byte prefixes) p.2.toWorld }
    else
      let r := p.2.popSi prefixes size
      { r.2 with toWorld := ioh.output p.1 size r.1 r.2.toWorld }

/-- The loop of REP INS. -/
def insLoop (port : UShort) (size : ℕ) (base mask : ULong) : ℕ → ULong → World D → World D
  | 0, _, w => w
  | count + 1, addr, w =>
    let r := io.readPort port size w
    insLoop port size base mask count ((addr + BitVec.ofNat 32 size) &&& mask)
      { r.2 with mem := flatMem.putUser size (base + addr) r.1 r.2.mem }

/-- The case of REP INS. -/
def repIns (byte : UChar) (prefixes : ULong) : Guest D :=
  let mask := addrMask byte prefixes
  { g with
    toWorld := insLoop io (g.regs.edx.truncate 16) (opSize byte prefixes)
      (g.regs.es.zeroExtend 32 <<< 4) mask (g.regs.ecx &&& countMask prefixes).toNat
      (g.regs.edi &&& mask) g.toWorld
    regs := { g.regs with ecx := g.regs.ecx &&& ~~~mask } }

/-- The loop of REP OUTS. -/
def outsLoop (ioh : IoHandler D) (port : UShort) (size : ℕ) (base mask : ULong) :
    ℕ → ULong → World D → World D
  | 0, _, w => w
  | count + 1, addr, w =>
    outsLoop ioh port size base mask count ((addr + BitVec.ofNat 32 size) &&& mask)
      (ioh.output port size (flatMem.getUser size (base + addr) w.mem).1 w)

/-- The case of REP OUTS. -/
def repOuts (byte : UChar) (prefixes : ULong) : Guest D :=
  let mask := addrMask byte prefixes
  let port : UShort := g.regs.edx.truncate 16
  { g with
    toWorld := match io.getIoHandler port with
      | none => g.toWorld
      | some ioh => outsLoop ioh port (opSize byte prefixes)
        ((getDataSeg g.regs prefixes).zeroExtend 32 <<< 4) mask
        (g.regs.ecx &&& countMask prefixes).toNat (g.regs.esi &&& mask) g.toWorld
    regs := { g.regs with ecx := g.regs.ecx &&& ~~~mask } }

/-- `simulate_vm_int`. -/
def simulateVmInt (vector : ULong) : Guest D :=
  let m := Machine.simulateVmInt flatMem ⟨g.regs.toVm86Regs, g.virtualEflags, g.mem⟩ vector
  { g with
    mem := m.mem
    virtualEflags := m.virtualEflags
    regs := { g.regs with toVm86Regs := m.regs } }

/-- `stop`. -/
def stop (origEip : ULong) : Outcome × Guest D := (.stopped, g.setEip origEip)

/-- The case of 0x0f. No `break` ends it. -/
def escape (origEip : ULong) : Outcome × Guest D :=
  let r := g.popCs
  if r.1 = 0x00 ∨ r.1 = 0x01 then ((r.2.setEip origEip).simulateVmInt 6).stop origEip
  else r.2.stop origEip

/-- The case of REP. No `break` ends it, so that the case of 0x0f is next. -/
def rep (prefixes origEip : ULong) : Outcome × Guest D :=
  let r := g.popCs
  if r.1 = 0x6c ∨ r.1 = 0x6d then (r.2.repIns io r.1 prefixes).escape origEip
  else if r.1 = 0x6e ∨ r.1 = 0x6f then (r.2.repOuts io r.1 prefixes).escape origEip
  else r.2.stop origEip

/-- `vm_gpe_handler`; `none` when the segment has nothing but prefixes. -/
def vmGpeHandler : Option (Outcome × Guest D) :=
  if g.regs.eflags &&& EFLAGS_VM = 0 then some (.stopped, g)
  else
    (getPrefixes 65536 0 g).map fun p =>
      let r := p.2.popCs
      if r.1 ∈ [0xe4, 0xe5, 0xec, 0xed, 0x6c, 0x6d] then (.resumed, r.2.doIn io r.1 p.1)
      else if r.1 ∈ [0xe6, 0xe7, 0xee, 0xef, 0x6e, 0x6f] then (.resumed, r.2.doOut io r.1 p.1)
      else if r.1 = 0xf3 then r.2.rep io p.1 g.regs.eip
      else if r.1 = 0x0f then r.2.escape g.regs.eip
      else if r.1 ∈ [0xfa, 0xfb, 0x9c, 0x9d, 0xcc, 0xcd, 0xcf, 0xf4] then (.other r.1 p.1, r.2)
      else r.2.stop g.regs.eip

end Guest

end Vmm386.PortIo
