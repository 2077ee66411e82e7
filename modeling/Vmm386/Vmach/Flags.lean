import Mathlib.Data.List.Basic
import Vmm386.Vmach.Vm

/-!
# The flags register of a virtual machine

`vm_gpe_handler` keeps a machine's flags register in two words: the bits of `USER_EFLAGS` in the
`eflags` that its code runs with, the others in `virtual_eflags`. A processor with a register of
its own is compared with this, over any memory.
-/

namespace Vmm386.Vmach

open Mm

abbrev EFLAGS_VM : ULong := 0x20000

/-- The memory `M` of a machine: `get_user_short` and `get_user_long`, `put_user_short` and
`put_user_long`, `put_pd_val`, `lin_to_phys`, and the loads of `simulate_vm_int`. -/
structure UserMem (M : Type*) where
  getUser : ℕ → ULong → M → ULong × M
  putUser : ℕ → ULong → ULong → M → M
  putPdVal : ℕ → ULong → ULong → M → M
  linToPhys : ULong → M → ULong
  loadShort : ULong → M → UShort

namespace UserMem

variable {M : Type*} (U : UserMem M)

/-- `pop_sp`. -/
def popSp (regs : Vm86Regs) (size : ℕ) (m : M) : ULong × Vm86Regs × M :=
  if size = 2 ∨ size = 4 then
    let r := U.getUser size regs.top m
    (r.1, { regs with esp := set16 regs.esp ((regs.esp &&& 0xffff) + BitVec.ofNat 32 size) }, r.2)
  else (0, regs, m)

/-- `push_sp`. -/
def pushSp (regs : Vm86Regs) (size : ℕ) (value : ULong) (m : M) : Vm86Regs × M :=
  if size = 2 ∨ size = 4 then
    let regs :=
      { regs with esp := set16 regs.esp ((regs.esp &&& 0xffff) - BitVec.ofNat 32 size) }
    (regs, U.putUser size regs.top value m)
  else (regs, m)

/-- `push_far_sp`. -/
def pushFarSp (regs : Vm86Regs) (value : ULong) (m : M) : Vm86Regs × M :=
  (regs.push, U.putPdVal 2 regs.push.top value m)

end UserMem

/-- The registers of a machine, `virtual_eflags`, and its memory. -/
structure Machine (M : Type*) where
  regs : Vm86Regs
  virtualEflags : ULong
  mem : M

/-- The flags register that the two words stand for. -/
def flagsWord (virtualEflags eflags : ULong) : ULong :=
  (virtualEflags &&& ~~~USER_EFLAGS) ||| (eflags &&& USER_EFLAGS)

namespace Machine

variable {M : Type*} (U : UserMem M) (m : Machine M)

/-- CLI. -/
def cli : Machine M := { m with virtualEflags := m.virtualEflags &&& ~~~FLAGS_IF }

/-- STI. -/
def sti : Machine M := { m with virtualEflags := m.virtualEflags ||| FLAGS_IF }

/-- PUSHF. -/
def pushf (wide : Bool) : Machine M :=
  let r := U.pushSp m.regs (if wide then 4 else 2) (flagsWord m.virtualEflags m.regs.eflags) m.mem
  { m with regs := r.1, mem := r.2 }

/-- `REGS->eflags = (vm->virtual_eflags & USER_EFLAGS) | FLAGS_IF | EFLAGS_VM`, after the flags
`val` were popped. -/
def loadFlags (wide : Bool) (val : ULong) : Machine M :=
  let virtualEflags := if wide then val else set16 m.virtualEflags val
  { m with
    virtualEflags := virtualEflags
    regs := { m.regs with eflags := (virtualEflags &&& USER_EFLAGS) ||| FLAGS_IF ||| EFLAGS_VM } }

/-- POPF. -/
def popf (wide : Bool) : Machine M :=
  let r := U.popSp m.regs (if wide then 4 else 2) m.mem
  { m with regs := r.2.1, mem := r.2.2 }.loadFlags wide r.1

/-- `simulate_vm_int`. -/
def simulateVmInt (vector : ULong) : Machine M :=
  let vec := U.linToPhys (vector * 4) m.mem
  let r := U.pushFarSp m.regs (flagsWord m.virtualEflags m.regs.eflags) m.mem
  let virtualEflags := m.virtualEflags &&& ~~~(FLAGS_IF ||| FLAGS_TF)
  let r := U.pushFarSp r.1 (r.1.cs.zeroExtend 32) r.2
  let r := U.pushFarSp r.1 r.1.eip r.2
  { regs := { r.1 with
      cs := U.loadShort (vec + 2) r.2
      eip := set16 r.1.eip ((U.loadShort vec r.2).zeroExtend 32) }
    virtualEflags := virtualEflags
    mem := r.2 }

/-- IRET. -/
def iret (wide : Bool) : Machine M :=
  let r := U.popSp m.regs (if wide then 4 else 2) m.mem
  let regs := { r.2.1 with eip := if wide then r.1 else set16 r.2.1.eip r.1 }
  let r := U.popSp regs 2 r.2.2
  let regs := { r.2.1 with cs := r.1.truncate 16 }
  let r := U.popSp regs (if wide then 4 else 2) r.2.2
  { m with regs := r.2.1, mem := r.2.2 }.loadFlags wide r.1

end Machine

/-! ## A processor -/

/-- A processor: `eflags` is its flags register. -/
structure Processor (M : Type*) where
  regs : Vm86Regs
  mem : M

namespace Processor

variable {M : Type*} (U : UserMem M) (p : Processor M)

/-- The flags register. -/
def flags : ULong := p.regs.eflags

def setFlags (flags : ULong) : Processor M := { p with regs := { p.regs with eflags := flags } }

def pushf (wide : Bool) : Processor M :=
  let r := U.pushSp p.regs (if wide then 4 else 2) p.flags p.mem
  ⟨r.1, r.2⟩

def popf (wide : Bool) : Processor M :=
  let r := U.popSp p.regs (if wide then 4 else 2) p.mem
  { p with regs := r.2.1, mem := r.2.2 }.setFlags (if wide then r.1 else set16 p.flags r.1)

/-- INT: the frame has words of 16 bits. -/
def int (vector : ULong) : Processor M :=
  let vec := U.linToPhys (vector * 4) p.mem
  let r := U.pushFarSp p.regs p.flags p.mem
  let r := U.pushFarSp r.1 (r.1.cs.zeroExtend 32) r.2
  let r := U.pushFarSp r.1 r.1.eip r.2
  { regs := { r.1 with
      cs := U.loadShort (vec + 2) r.2
      eip := set16 r.1.eip ((U.loadShort vec r.2).zeroExtend 32)
      eflags := p.flags &&& ~~~(FLAGS_IF ||| FLAGS_TF) }
    mem := r.2 }

/-- IRET: all three are words of the operand size, and CS is the low half of its word. -/
def iret (wide : Bool) : Processor M :=
  let size := if wide then 4 else 2
  let r := U.popSp p.regs size p.mem
  let regs := { r.2.1 with eip := if wide then r.1 else set16 r.2.1.eip r.1 }
  let r := U.popSp regs size r.2.2
  let regs := { r.2.1 with cs := r.1.truncate 16 }
  let r := U.popSp regs size r.2.2
  { p with regs := r.2.1, mem := r.2.2 }.setFlags (if wide then r.1 else set16 p.flags r.1)

end Processor

/-! ## Runs -/

/-- What the machine's code sees of its registers without a trap: the flags of
`USER_EFLAGS`. -/
def Vm86Regs.user (regs : Vm86Regs) : Vm86Regs := { regs with eflags := regs.eflags &&& USER_EFLAGS }

/-- The registers after an instruction that leaves the other flags alone. -/
def Vm86Regs.withUser (regs new : Vm86Regs) : Vm86Regs :=
  { new with eflags := (regs.eflags &&& ~~~USER_EFLAGS) ||| (new.eflags &&& USER_EFLAGS) }

/-- An instruction, decoded. -/
inductive Instr (M : Type*) where
  | cli
  | sti
  | pushf (wide : Bool)
  | popf (wide : Bool)
  | int (vector : ULong)
  | iret (wide : Bool)
  /-- One that does not trap. -/
  | user (f : Vm86Regs → M → Vm86Regs × M)

variable {M : Type*}

/-- The machine executes it, or `vm_gpe_handler` emulates it. -/
def Machine.step (U : UserMem M) (m : Machine M) : Instr M → Machine M
  | .cli => m.cli
  | .sti => m.sti
  | .pushf wide => m.pushf U wide
  | .popf wide => m.popf U wide
  | .int vector => m.simulateVmInt U vector
  | .iret wide => m.iret U wide
  | .user f =>
    let r := f m.regs.user m.mem
    { m with regs := m.regs.withUser r.1, mem := r.2 }

/-- The processor executes it. -/
def Processor.step (U : UserMem M) (p : Processor M) : Instr M → Processor M
  | .cli => p.setFlags (p.flags &&& ~~~FLAGS_IF)
  | .sti => p.setFlags (p.flags ||| FLAGS_IF)
  | .pushf wide => p.pushf U wide
  | .popf wide => p.popf U wide
  | .int vector => p.int U vector
  | .iret wide => p.iret U wide
  | .user f =>
    let r := f p.regs.user p.mem
    ⟨p.regs.withUser r.1, r.2⟩

/-- The machine's code runs with VM and IF set, and no flags of its own but those of
`USER_EFLAGS`. -/
def Machine.Protected (m : Machine M) : Prop :=
  m.regs.eflags &&& ~~~USER_EFLAGS = EFLAGS_VM ||| FLAGS_IF

/-- The processor that the machine stands for. -/
def Machine.processor (m : Machine M) : Processor M where
  regs := { m.regs with eflags := flagsWord m.virtualEflags m.regs.eflags }
  mem := m.mem

/-! ## The two words -/

section Words

variable {v e x : ULong}

theorem flagsWord_and (h : USER_EFLAGS &&& x = USER_EFLAGS) :
    flagsWord (v &&& x) e = flagsWord v e &&& x := by
  rw [flagsWord, flagsWord, BitVec.and_or_distrib_right, BitVec.and_assoc, BitVec.and_assoc,
    BitVec.and_assoc, BitVec.and_comm x, h]

theorem flagsWord_or (h : x &&& ~~~USER_EFLAGS = x) :
    flagsWord (v ||| x) e = flagsWord v e ||| x := by
  rw [flagsWord, flagsWord, BitVec.and_or_distrib_right, h, BitVec.or_assoc, BitVec.or_assoc,
    BitVec.or_comm x]

theorem and_user (x : ULong) : (x &&& ~~~USER_EFLAGS) ||| (x &&& USER_EFLAGS) = x := by
  rw [← BitVec.and_or_distrib_left]
  exact BitVec.and_allOnes

/-- The user's flags of what POPF and IRET load. -/
theorem load_and_user (x : ULong) :
    ((x &&& USER_EFLAGS) ||| FLAGS_IF ||| EFLAGS_VM) &&& USER_EFLAGS = x &&& USER_EFLAGS := by
  rw [BitVec.or_assoc, BitVec.and_or_distrib_right, BitVec.and_assoc, BitVec.and_self]
  exact BitVec.or_zero

theorem load_and_not_user (x : ULong) :
    ((x &&& USER_EFLAGS) ||| FLAGS_IF ||| EFLAGS_VM) &&& ~~~USER_EFLAGS = EFLAGS_VM ||| FLAGS_IF := by
  have hzero : USER_EFLAGS &&& ~~~USER_EFLAGS = 0 := by decide
  have hor : (FLAGS_IF ||| EFLAGS_VM) &&& ~~~USER_EFLAGS = EFLAGS_VM ||| FLAGS_IF := by decide
  rw [BitVec.or_assoc, BitVec.and_or_distrib_right, BitVec.and_assoc, hzero, hor]
  exact (congrArg (· ||| (EFLAGS_VM ||| FLAGS_IF)) BitVec.and_zero).trans BitVec.zero_or

/-- What is loaded is the flags register. -/
theorem flagsWord_load (x : ULong) :
    flagsWord x ((x &&& USER_EFLAGS) ||| FLAGS_IF ||| EFLAGS_VM) = x := by
  rw [flagsWord, load_and_user, and_user]

/-- The user's flags are among the low ones. -/
theorem set16_flagsWord : set16 (flagsWord v e) x = set16 v x := by
  have hlow : (~~~USER_EFLAGS &&& 0xffff0000 : ULong) = 0xffff0000 := by decide
  have hzero : (USER_EFLAGS &&& 0xffff0000 : ULong) = 0 := by decide
  rw [set16, set16, flagsWord, BitVec.and_or_distrib_right, BitVec.and_assoc, BitVec.and_assoc, hlow,
    hzero]
  exact congrArg (· ||| (x &&& 0xffff)) (congrArg _ BitVec.and_zero |>.trans BitVec.or_zero)

theorem user_and_user : flagsWord v e &&& USER_EFLAGS = e &&& USER_EFLAGS := by
  have hzero : ~~~USER_EFLAGS &&& USER_EFLAGS = 0 := by decide
  rw [flagsWord, BitVec.and_or_distrib_right, BitVec.and_assoc, BitVec.and_assoc, hzero,
    BitVec.and_self]
  exact (congrArg (· ||| (e &&& USER_EFLAGS)) BitVec.and_zero).trans BitVec.zero_or

theorem user_and_not_user : flagsWord v e &&& ~~~USER_EFLAGS = v &&& ~~~USER_EFLAGS := by
  have hzero : USER_EFLAGS &&& ~~~USER_EFLAGS = 0 := by decide
  rw [flagsWord, BitVec.and_or_distrib_right, BitVec.and_assoc, BitVec.and_assoc, hzero,
    BitVec.and_self]
  exact (congrArg ((v &&& ~~~USER_EFLAGS) ||| ·) BitVec.and_zero).trans BitVec.or_zero

end Words

/-! ## One instruction -/

section Step

variable {U : UserMem M} {m : Machine M}

/-- A push does not look at the flags. -/
theorem pushSp_eflags (regs : Vm86Regs) (e : ULong) (size : ℕ) (val : ULong) (mem : M) :
    U.pushSp { regs with eflags := e } size val mem =
      ({ (U.pushSp regs size val mem).1 with eflags := e }, (U.pushSp regs size val mem).2) := by
  unfold UserMem.pushSp
  split <;> rfl

theorem popSp_eflags (regs : Vm86Regs) (e : ULong) (size : ℕ) (mem : M) :
    U.popSp { regs with eflags := e } size mem =
      ((U.popSp regs size mem).1, { (U.popSp regs size mem).2.1 with eflags := e },
        (U.popSp regs size mem).2.2) := by
  unfold UserMem.popSp
  split <;> rfl

theorem pushSp_eflags_same (regs : Vm86Regs) (size : ℕ) (val : ULong) (mem : M) :
    (U.pushSp regs size val mem).1.eflags = regs.eflags := by
  unfold UserMem.pushSp
  split <;> rfl

theorem loadFlags_processor (regs : Vm86Regs) (v val : ULong) (wide : Bool) (mem : M) (e : ULong) :
    ((⟨regs, v, mem⟩ : Machine M).loadFlags wide val).processor =
      ⟨{ regs with eflags := if wide then val else set16 (flagsWord v e) val }, mem⟩ := by
  unfold Machine.loadFlags Machine.processor
  rw [set16_flagsWord]
  simp only [flagsWord_load]

theorem processor_pushf (wide : Bool) :
    (m.pushf U wide).processor = m.processor.pushf U wide := by
  unfold Machine.pushf Processor.pushf Processor.flags Machine.processor
  simp only [pushSp_eflags, pushSp_eflags_same]

theorem processor_popf (wide : Bool) : (m.popf U wide).processor = m.processor.popf U wide := by
  unfold Machine.popf
  rw [loadFlags_processor _ _ _ _ _ m.regs.eflags]
  unfold Processor.popf Processor.setFlags Processor.flags Machine.processor
  simp only [popSp_eflags]

theorem processor_int (vector : ULong) :
    (m.simulateVmInt U vector).processor = m.processor.int U vector := by
  have hflags : ∀ e, flagsWord (m.virtualEflags &&& ~~~(FLAGS_IF ||| FLAGS_TF)) e =
      flagsWord m.virtualEflags e &&& ~~~(FLAGS_IF ||| FLAGS_TF) :=
    fun e => flagsWord_and (by decide)
  unfold Machine.simulateVmInt Processor.int Processor.flags Machine.processor
  simp only [hflags]
  rfl

theorem popSp_two (regs : Vm86Regs) (mem : M) :
    U.popSp regs 2 mem = ((U.getUser 2 regs.top mem).1,
      { regs with esp := set16 regs.esp ((regs.esp &&& 0xffff) + 2) },
      (U.getUser 2 regs.top mem).2) := if_pos (.inl rfl)

theorem processor_iret : (m.iret U false).processor = m.processor.iret U false := by
  unfold Machine.iret
  rw [loadFlags_processor _ _ _ _ _ m.regs.eflags]
  unfold Processor.iret Processor.setFlags Processor.flags Machine.processor
  simp only [popSp_two, Bool.false_eq_true, if_false]
  rfl

theorem processor_user (f : Vm86Regs → M → Vm86Regs × M) :
    (m.step U (.user f)).processor = m.processor.step U (.user f) := by
  have huser : ({ m.regs with eflags := flagsWord m.virtualEflags m.regs.eflags } : Vm86Regs).user =
      m.regs.user := by
    unfold Vm86Regs.user
    simp only [user_and_user]
  unfold Machine.step Processor.step Machine.processor
  simp only [huser]
  unfold Vm86Regs.withUser
  have hold : ∀ x : ULong, ((m.regs.eflags &&& ~~~USER_EFLAGS) ||| (x &&& USER_EFLAGS)) &&&
      USER_EFLAGS = x &&& USER_EFLAGS := fun x => user_and_user
  simp only [user_and_not_user]
  rw [flagsWord, hold]

/-- Every instruction does to the machine what it does to the processor, but for the wide
IRET. -/
theorem processor_step (i : Instr M) (hi : i ≠ .iret true) :
    (m.step U i).processor = m.processor.step U i := by
  cases i with
  | cli =>
    unfold Machine.step Processor.step Machine.cli Machine.processor
    rw [flagsWord_and (by decide)]
    rfl
  | sti =>
    unfold Machine.step Processor.step Machine.sti Machine.processor
    rw [flagsWord_or (by decide)]
    rfl
  | pushf wide => exact processor_pushf wide
  | popf wide => exact processor_popf wide
  | int vector => exact processor_int vector
  | iret wide =>
    cases wide with
    | true => exact absurd rfl hi
    | false => exact processor_iret
  | user f => exact processor_user f

theorem loadFlags_protected (wide : Bool) (val : ULong) : (m.loadFlags wide val).Protected :=
  load_and_not_user _

theorem step_protected (h : m.Protected) (i : Instr M) : (m.step U i).Protected := by
  cases i with
  | cli => exact h
  | sti => exact h
  | pushf wide =>
    show (U.pushSp m.regs _ _ m.mem).1.eflags &&& ~~~USER_EFLAGS = _
    rw [pushSp_eflags_same]
    exact h
  | popf wide => exact loadFlags_protected wide _
  | int vector => exact h
  | iret wide => exact loadFlags_protected wide _
  | user f => exact user_and_not_user.trans h

end Step

/-- **The flags register.** In every run the machine's code runs with VM and IF set and no
other flags of its own than those of `USER_EFLAGS`. In a run without a wide IRET, the machine
does what a processor with its own flags register does, so that its code finds the same flags
in memory. -/
theorem flags_refined (U : UserMem M) (m : Machine M) (hm : m.Protected) (is : List (Instr M)) :
    (is.foldl (Machine.step U) m).Protected ∧
      ((∀ i ∈ is, i ≠ .iret true) →
        (is.foldl (Machine.step U) m).processor = is.foldl (Processor.step U) m.processor) := by
  induction is generalizing m with
  | nil => exact ⟨hm, fun _ => rfl⟩
  | cons i is ih =>
    obtain ⟨hprot, hsame⟩ := ih (m.step U i) (step_protected hm i)
    refine ⟨hprot, fun hall => ?_⟩
    rw [List.foldl_cons, List.foldl_cons, ← processor_step i (hall i (List.mem_cons_self ..))]
    exact hsame fun j hj => hall j (List.mem_cons_of_mem _ hj)

/-- A flat memory. -/
def flatMem : UserMem (ULong → UChar) where
  getUser size lin m := ((List.range size).foldr
    (fun i x => (x <<< 8) ||| (m (lin + BitVec.ofNat 32 i)).zeroExtend 32) 0, m)
  putUser size lin val m := storeBytes size lin val m
  putPdVal size lin val m := storeBytes size lin val m
  linToPhys lin _ := lin
  loadShort lin m := Mm.loadShort m lin

/-- A new machine, with its stack at 0x100 and a frame of IRET there whose flags are 0x202. -/
def newMachine : Machine (ULong → UChar) where
  regs := ⟨0, 0xffff, EFLAGS_VM ||| FLAGS_IF ||| 2, 0x100, 0⟩
  virtualEflags := 2
  mem := storeBytes 4 0x108 0x202 fun _ => 0

/-- STI and PUSHF store 0x202, as on a processor. -/
theorem flags_refined_sti : (newMachine.step flatMem .sti |>.step flatMem (.pushf false)).Protected ∧
    ((newMachine.step flatMem .sti).step flatMem (.pushf false)).processor =
      (newMachine.processor.step flatMem .sti).step flatMem (.pushf false) ∧
    loadShort ((newMachine.step flatMem .sti).step flatMem (.pushf false)).mem 0xfe = 0x202 := by
  obtain ⟨hprot, hsame⟩ := flags_refined flatMem newMachine rfl [.sti, .pushf false]
  refine ⟨hprot, hsame ?_, by decide⟩
  intro i hi
  rcases List.mem_cons.mp hi with rfl | hi
  · exact nofun
  · rw [List.mem_singleton.mp hi]
    exact nofun

/-- A wide IRET takes the flags from the wrong place. -/
theorem wide_iret_misreads : ¬∀ (U : UserMem (ULong → UChar)) (m : Machine (ULong → UChar)),
    m.Protected → ∀ is : List (Instr (ULong → UChar)),
      (is.foldl (Machine.step U) m).processor.flags =
        (is.foldl (Processor.step U) m.processor).flags := by
  intro hall
  exact absurd (hall flatMem newMachine rfl [.iret true]) (by decide)

end Vmm386.Vmach
