import Vmm386.Mm.ForeignAccess
import Vmm386.Vmach.PortIo
import Vmm386.Vmach.RoundTrip

/-!
# Port input

The bytes of an instruction are taken one by one, prefixes first. IN and INS deliver what a
handler returns, through a variable of 16 bits.
-/

namespace Vmm386.PortIo

open Mm Vmach

namespace Guest

variable {D : Type*} {g : Guest D} {code pre : List UChar} {b : UChar} {m n : ℕ}

/-! ## Taking bytes -/

/-- The machine, `n` bytes of code later. -/
def skip (g : Guest D) (n : ℕ) : Guest D :=
  g.setEip (set16 g.regs.eip (g.regs.eip + BitVec.ofNat 32 n))

/-- The program is in virtual 8086 mode, with the bytes `code` at CS:IP. -/
structure At (g : Guest D) (code : List UChar) : Prop where
  virtual : g.regs.eflags &&& EFLAGS_VM ≠ 0
  bytes : ∀ n b, code[n]? = some b → g.mem (g.skip n).codeAddr = b

theorem set16_congr {x v w : ULong} (h : v.toNat % 65536 = w.toNat % 65536) :
    set16 x v = set16 x w := by
  have hlow : v &&& 0xffff = w &&& 0xffff := by
    apply BitVec.eq_of_toNat_eq
    rw [toNat_low, toNat_low, h]
  rw [← set16_low, hlow, set16_low]

theorem toNat_set16_mod (x v : ULong) : (set16 x v).toNat % 65536 = v.toNat % 65536 := by
  rw [← toNat_low, set16_and, toNat_low]

theorem setEip_setEip (e e' : ULong) : (g.setEip e).setEip e' = g.setEip e' := rfl

theorem skip_zero : g.skip 0 = g := by
  have hsum : g.regs.eip + BitVec.ofNat 32 0 = g.regs.eip := by simp
  have heip : set16 g.regs.eip g.regs.eip = g.regs.eip := by rw [← set16_low, set16_self]
  rw [skip, hsum, heip]
  rfl

theorem skip_skip : (g.skip m).skip n = g.skip (m + n) := by
  have hmod := toNat_set16_mod g.regs.eip (g.regs.eip + BitVec.ofNat 32 m)
  have heip : set16 (set16 g.regs.eip (g.regs.eip + BitVec.ofNat 32 m))
      (set16 g.regs.eip (g.regs.eip + BitVec.ofNat 32 m) + BitVec.ofNat 32 n) =
      set16 g.regs.eip (g.regs.eip + BitVec.ofNat 32 (m + n)) := by
    rw [set16_set16]
    apply set16_congr
    rw [BitVec.toNat_add] at hmod
    simp only [BitVec.toNat_add, BitVec.toNat_ofNat] at hmod ⊢
    omega
  exact congrArg g.setEip heip

theorem popCs_eq : g.popCs = (g.mem g.codeAddr, g.skip 1) := rfl

/-- `get_prefixes` puts the byte back that is no prefix. -/
theorem setEip_popCs : g.popCs.2.setEip
    (set16 g.popCs.2.regs.eip ((g.popCs.2.regs.eip &&& 0xffff) - 1)) = g := by
  have hmod := toNat_set16_mod g.regs.eip (g.regs.eip + 1)
  have heip : set16 (set16 g.regs.eip (g.regs.eip + 1))
      ((set16 g.regs.eip (g.regs.eip + 1) &&& 0xffff) - 1) = g.regs.eip := by
    rw [set16_set16]
    refine (set16_congr ?_).trans (set16_self _)
    rw [BitVec.toNat_add] at hmod
    rw [BitVec.toNat_sub, toNat_low, toNat_low, hmod]
    show (2 ^ 32 - 1 + (g.regs.eip.toNat + 1) % 2 ^ 32 % 65536) % 2 ^ 32 % 65536 = _
    omega
  exact congrArg g.setEip heip

theorem At.popCs (h : g.At (b :: code)) : g.popCs = (b, g.skip 1) := by
  have hb := h.bytes 0 b rfl
  rw [skip_zero] at hb
  rw [popCs_eq, hb]

theorem At.skip (h : g.At (pre ++ code)) : (g.skip pre.length).At code := by
  refine ⟨h.virtual, fun n b hb => ?_⟩
  rw [skip_skip]
  apply h.bytes
  rw [List.getElem?_append_right (Nat.le_add_right ..), Nat.add_sub_cancel_left]
  exact hb

theorem At.skip_one (h : g.At (b :: code)) : (g.skip 1).At code := by
  have hcons : g.At ([b] ++ code) := h
  exact hcons.skip

end Guest

/-! ## Prefixes -/

/-- The bits of some prefixes. -/
def prefixBits : List UChar → ULong
  | [] => 0
  | b :: pre => (prefixBit b).getD 0 ||| prefixBits pre

/-- A bit that one prefix alone stands for. -/
theorem prefixBits_and {c : UChar} {bit : ULong} (pre : List UChar)
    (hbit : ∀ b, (prefixBit b).getD 0 &&& bit = 0 ↔ b ≠ c) :
    prefixBits pre &&& bit = 0 ↔ c ∉ pre := by
  induction pre with
  | nil => simp [prefixBits]
  | cons b pre ih =>
    have hor : ∀ x y : ULong, x ||| y = 0 ↔ x = 0 ∧ y = 0 := fun _ _ => BitVec.or_eq_zero_iff
    rw [prefixBits, BitVec.and_comm, BitVec.and_or_distrib_left, hor, BitVec.and_comm, hbit,
      BitVec.and_comm, ih, List.mem_cons, not_or]
    exact and_congr_left' ⟨Ne.symm, Ne.symm⟩

theorem prefixBits_op (pre : List UChar) : prefixBits pre &&& PFX_OP = 0 ↔ 0x66 ∉ pre := by
  apply prefixBits_and
  intro b
  unfold prefixBit
  split_ifs <;> simp_all

theorem prefixBits_addr (pre : List UChar) : prefixBits pre &&& PFX_ADDR = 0 ↔ 0x67 ∉ pre := by
  apply prefixBits_and
  intro b
  unfold prefixBit
  split_ifs <;> simp_all

/-- `get_prefixes` takes the prefixes, and no more. -/
theorem Guest.At.getPrefixes {D : Type*} {g : Guest D} {pre code : List UChar} {b : UChar}
    {fuel : ℕ} (h : g.At (pre ++ b :: code)) (bits : ULong)
    (hpre : ∀ b ∈ pre, prefixBit b ≠ none) (hb : prefixBit b = none)
    (hfuel : pre.length < fuel) :
    Guest.getPrefixes fuel bits g = some (bits ||| prefixBits pre, g.skip pre.length) := by
  induction pre generalizing g fuel bits with
  | nil =>
    obtain ⟨fuel, rfl⟩ := Nat.exists_eq_add_of_lt hfuel
    have hpop : g.popCs = (b, g.skip 1) := Guest.At.popCs h
    have hback := g.setEip_popCs
    rw [hpop] at hback
    rw [show [].length + fuel + 1 = fuel + 1 by simp, Guest.getPrefixes, hpop]
    simp only [hb, hback]
    simp [prefixBits, Guest.skip_zero]
  | cons c pre ih =>
    obtain ⟨fuel, rfl⟩ : ∃ n, fuel = n + 1 := ⟨fuel - 1, by omega⟩
    obtain ⟨bit, hbit⟩ := Option.ne_none_iff_exists'.mp (hpre c (List.mem_cons_self ..))
    have hpop : g.popCs = (c, g.skip 1) := Guest.At.popCs h
    rw [Guest.getPrefixes, hpop]
    simp only [hbit]
    rw [ih h.skip_one _ (fun b hb => hpre b (List.mem_cons_of_mem _ hb))
      (Nat.lt_of_succ_lt_succ hfuel), prefixBits, hbit, Guest.skip_skip, BitVec.or_assoc,
      List.length_cons, Nat.add_comm 1]
    rfl

/-! ## IN and INS -/

/-- An instruction of the port input: the immediate ones have a byte behind the opcode. -/
structure InForm where
  pre : List UChar
  opcode : UChar
  imm : UChar
  hpre : ∀ b ∈ pre, prefixBit b ≠ none
  hopcode : opcode ∈ ([0xe4, 0xe5, 0xec, 0xed, 0x6c, 0x6d] : List UChar)
  hlength : pre.length + 2 ≤ 65536

namespace InForm

variable {D : Type*} (i : InForm) (io : IoLists D) (g : Guest D)

def Immediate : Prop := i.opcode = 0xe4 ∨ i.opcode = 0xe5

def IsString : Prop := i.opcode = 0x6c ∨ i.opcode = 0x6d

def IsByte : Prop := i.opcode = 0xe4 ∨ i.opcode = 0xec ∨ i.opcode = 0x6c

instance : Decidable i.Immediate := inferInstanceAs (Decidable (_ ∨ _))

instance : Decidable i.IsString := inferInstanceAs (Decidable (_ ∨ _))

instance : Decidable i.IsByte := inferInstanceAs (Decidable (_ ∨ _))

def bytes : List UChar := i.pre ++ i.opcode :: if i.Immediate then [i.imm] else []

/-- Bytes of the operand: the prefix 0x66 makes words of 16 bits ones of 32. -/
def size : ℕ := if i.IsByte then 1 else if 0x66 ∈ i.pre then 4 else 2

def port : UShort := if i.Immediate then i.imm.zeroExtend 16 else g.regs.edx.truncate 16

/-- What the port returns. -/
def value : ULong := (io.readPort (i.port g) i.size g.toWorld).1

/-- The memory and the devices after that. -/
def after : World D := (io.readPort (i.port g) i.size g.toWorld).2

/-- Where INS stores: the prefix 0x67 makes it the whole of EDI. -/
def dest : ULong :=
  (g.regs.es.zeroExtend 32 <<< 4) + if 0x67 ∈ i.pre then g.regs.edi else g.regs.edi &&& 0xffff

/-- EDI or DI is now behind, or before, the operand. -/
def Advances (edi : ULong) : Prop :=
  let sum := if g.regs.eflags &&& FLAGS_DF ≠ 0 then g.regs.edi - BitVec.ofNat 32 i.size
    else g.regs.edi + BitVec.ofNat 32 i.size
  if 0x67 ∈ i.pre then edi = sum else edi &&& 0xffff = sum &&& 0xffff

/-- The machine behind the instruction, with another EAX. -/
def loaded (eax : ULong) : Guest D :=
  { g.skip i.bytes.length with
    toWorld := i.after io g
    regs := { (g.skip i.bytes.length).regs with eax := eax } }

/-- The machine behind the instruction, with another memory and another EDI. -/
def stored (mem : ULong → UChar) (edi : ULong) : Guest D :=
  { g.skip i.bytes.length with
    mem := mem
    dev := (i.after io g).dev
    regs := { (g.skip i.bytes.length).regs with edi := edi } }

/-- IN: the low bits of EAX are those of the value. -/
def Loads (g' : Guest D) : Prop :=
  ∃ eax, g' = i.loaded io g eax ∧
    eax.toNat % 2 ^ (8 * i.size) = (i.value io g).toNat % 2 ^ (8 * i.size) ∧
    eax.toNat / 2 ^ (8 * i.size) = g.regs.eax.toNat / 2 ^ (8 * i.size)

/-- INS: the bytes at ES:EDI are those of the value. -/
def Stores (g' : Guest D) : Prop :=
  ∃ mem edi, g' = i.stored io g mem edi ∧
    (∀ k < i.size, mem (byteAddr (i.dest g) k) = (i.value io g >>> (8 * k)).truncate 8) ∧
    (∀ a, (∀ k < i.size, a ≠ byteAddr (i.dest g) k) → mem a = (i.after io g).mem a) ∧
    i.Advances g edi

/-- The instruction is executed, and nothing else is. -/
def Delivers : Prop :=
  ∃ g', g.vmGpeHandler io = some (.resumed, g') ∧
    if i.IsString then i.Stores io g g' else i.Loads io g g'

end InForm

/-! ## The emulation -/

section

variable {D : Type*} {i : InForm} {io : IoLists D} {g : Guest D}

/-- The bits of the six opcodes. -/
theorem opcode_bits : ∀ b ∈ ([0xe4, 0xe5, 0xec, 0xed, 0x6c, 0x6d] : List UChar),
    (b &&& 0x08 ≠ 0 ↔ ¬(b = 0xe4 ∨ b = 0xe5)) ∧ (b &&& 0x80 ≠ 0 ↔ ¬(b = 0x6c ∨ b = 0x6d)) ∧
      (b &&& 1 ≠ 0 ↔ ¬(b = 0xe4 ∨ b = 0xec ∨ b = 0x6c)) ∧ prefixBit b = none := by
  decide

theorem InForm.opSize_eq (i : InForm) : opSize i.opcode (prefixBits i.pre) = i.size := by
  have hbit : i.opcode &&& 1 ≠ 0 ↔ ¬i.IsByte := (opcode_bits _ i.hopcode).2.2.1
  have hop : prefixBits i.pre &&& PFX_OP ≠ 0 ↔ 0x66 ∈ i.pre := by
    rw [Ne, prefixBits_op, not_not]
  rw [opSize, InForm.size]
  simp only [hbit, hop, ite_not]

/-- The mask covers the operand. -/
theorem opMask_eq (byte : UChar) (prefixes : ULong) :
    opMask byte prefixes = BitVec.ofNat 32 (2 ^ (8 * opSize byte prefixes) - 1) := by
  rw [opMask, opSize]
  split_ifs <;> rfl

/-- The port, and the end of the instruction. -/
theorem InForm.portOf (h : g.At i.bytes) :
    (g.skip (i.pre.length + 1)).portOf i.opcode = (i.port g, g.skip i.bytes.length) := by
  have hbit : i.opcode &&& 0x08 ≠ 0 ↔ ¬i.Immediate := (opcode_bits _ i.hopcode).1
  have hat : (g.skip (i.pre.length + 1)).At (if i.Immediate then [i.imm] else []) := by
    rw [← Guest.skip_skip]
    exact (Guest.At.skip h).skip_one
  rw [Guest.portOf, InForm.port, InForm.bytes]
  by_cases himm : i.Immediate
  · rw [if_pos himm] at hat
    rw [if_neg (mt hbit.mp (not_not.mpr himm)), if_pos himm, if_pos himm, hat.popCs,
      Guest.skip_skip, List.length_append]
    rfl
  · rw [if_pos (hbit.mpr himm), if_neg himm, if_neg himm, List.length_append]
    rfl

/-- What the variable `val` holds of a value. -/
def InForm.latched (i : InForm) (v : ULong) : ULong :=
  ((v &&& opMask i.opcode (prefixBits i.pre)).truncate 16 : UShort).zeroExtend 32

/-- The six opcodes end in one case of the handler. -/
theorem InForm.vmGpeHandler (io : IoLists D) (h : g.At i.bytes) :
    g.vmGpeHandler io = some (.resumed,
      (g.skip (i.pre.length + 1)).doIn io i.opcode (prefixBits i.pre)) := by
  have hlength := i.hlength
  have hprefixes := h.getPrefixes 0 i.hpre (opcode_bits _ i.hopcode).2.2.2
    (show i.pre.length < 65536 by omega)
  have hpop := (Guest.At.skip h).popCs
  have hzero : (0 : ULong) ||| prefixBits i.pre = prefixBits i.pre := BitVec.zero_or
  rw [Guest.vmGpeHandler, if_neg h.virtual, hprefixes, hzero, Option.map_some]
  simp only [hpop, if_pos i.hopcode, Guest.skip_skip]

/-- IN. -/
theorem InForm.doIn_in (h : g.At i.bytes) (hin : ¬i.IsString) :
    (g.skip (i.pre.length + 1)).doIn io i.opcode (prefixBits i.pre) =
      i.loaded io g ((g.regs.eax &&& ~~~BitVec.ofNat 32 (2 ^ (8 * i.size) - 1)) |||
        i.latched (i.value io g)) := by
  have hbit : i.opcode &&& 0x80 ≠ 0 := (opcode_bits _ i.hopcode).2.1.mpr hin
  rw [← i.opSize_eq, ← opMask_eq, Guest.doIn, InForm.portOf h]
  simp only [if_pos hbit, i.opSize_eq]
  rfl

/-- INS. -/
theorem InForm.doIn_ins (h : g.At i.bytes) (hins : i.IsString) :
    (g.skip (i.pre.length + 1)).doIn io i.opcode (prefixBits i.pre) =
      i.stored io g (storeBytes i.size (i.dest g) (i.latched (i.value io g)) (i.after io g).mem)
        (advance (prefixBits i.pre) g.regs.eflags i.size g.regs.edi) := by
  have hbit : ¬i.opcode &&& 0x80 ≠ 0 := mt (opcode_bits _ i.hopcode).2.1.mp (not_not.mpr hins)
  have haddr : prefixBits i.pre &&& PFX_ADDR ≠ 0 ↔ 0x67 ∈ i.pre := by
    rw [Ne, prefixBits_addr, not_not]
  have hdest : i.dest g =
      (g.regs.es.zeroExtend 32 <<< 4) + offset (prefixBits i.pre) g.regs.edi := by
    rw [InForm.dest, offset]
    simp only [haddr]
  rw [Guest.doIn, InForm.portOf h, hdest]
  simp only [if_neg hbit, i.opSize_eq]
  rfl

/-- EDI or DI, afterwards. -/
theorem InForm.advances (i : InForm) (g : Guest D) :
    i.Advances g (advance (prefixBits i.pre) g.regs.eflags i.size g.regs.edi) := by
  have haddr : prefixBits i.pre &&& PFX_ADDR ≠ 0 ↔ 0x67 ∈ i.pre := by
    rw [Ne, prefixBits_addr, not_not]
  unfold InForm.Advances advance
  simp only [haddr]
  by_cases hwide : 0x67 ∈ i.pre
  · rw [if_pos hwide, if_pos hwide]
  · rw [if_neg hwide, if_neg hwide]
    have hsize : i.size ≤ 4 := by
      rw [InForm.size]
      split_ifs <;> omega
    apply BitVec.eq_of_toNat_eq
    rw [toNat_low, toNat_low]
    by_cases hdown : g.regs.eflags &&& FLAGS_DF ≠ 0
    · rw [if_pos hdown, if_pos hdown]
      simp only [BitVec.truncate_eq_setWidth, BitVec.toNat_setWidth, BitVec.toNat_sub,
        BitVec.toNat_ofNat]
      omega
    · rw [if_neg hdown, if_neg hdown]
      simp only [BitVec.truncate_eq_setWidth, BitVec.toNat_setWidth, BitVec.toNat_add,
        BitVec.toNat_ofNat]
      omega

end

/-! ## What is delivered -/

section

variable {x y v e : ULong} {k : ℕ}

theorem getLsbD_low (j : ℕ) :
    (BitVec.ofNat 32 (2 ^ k - 1)).getLsbD j = (decide (j < 32) && decide (j < k)) := by
  rw [BitVec.getLsbD_ofNat, Nat.testBit_two_pow_sub_one]

/-- The value replaces the low bits, and leaves the others. -/
theorem merge_low (hv : ∀ j < k, y.getLsbD j = v.getLsbD j) (hhigh : ∀ j, k ≤ j → y.getLsbD j = false) :
    ((e &&& ~~~BitVec.ofNat 32 (2 ^ k - 1)) ||| y).toNat % 2 ^ k = v.toNat % 2 ^ k ∧
      ((e &&& ~~~BitVec.ofNat 32 (2 ^ k - 1)) ||| y).toNat / 2 ^ k = e.toNat / 2 ^ k := by
  constructor <;> apply Nat.eq_of_testBit_eq <;> intro j
  · rw [Nat.testBit_mod_two_pow, Nat.testBit_mod_two_pow, BitVec.testBit_toNat,
      BitVec.testBit_toNat, BitVec.getLsbD_or, BitVec.getLsbD_and, BitVec.getLsbD_not, getLsbD_low]
    by_cases hj : j < k
    · rw [hv j hj]
      simp [hj]
    · simp [hj]
  · rw [Nat.testBit_div_two_pow, Nat.testBit_div_two_pow, BitVec.testBit_toNat,
      BitVec.testBit_toNat, BitVec.getLsbD_or, BitVec.getLsbD_and, BitVec.getLsbD_not,
      getLsbD_low, hhigh _ (Nat.le_add_left ..)]
    have hge : ¬j + k < k := by omega
    by_cases hj : j + k < 32
    · simp [hge, hj]
    · simp [BitVec.getLsbD_of_ge e (j + k) (by omega)]

/-- A value is determined by its bytes. -/
theorem eq_of_bytes (h : ∀ k < 4, (x >>> (8 * k)).truncate 8 = ((y >>> (8 * k)).truncate 8 : UChar)) :
    x = y := by
  have hbyte : ∀ k < 4, x.toNat / 2 ^ (8 * k) % 256 = y.toNat / 2 ^ (8 * k) % 256 := by
    intro k hk
    have := congrArg BitVec.toNat (h k hk)
    simpa only [BitVec.truncate_eq_setWidth, BitVec.toNat_setWidth, BitVec.toNat_ushiftRight,
      Nat.shiftRight_eq_div_pow] using this
  have h₀ := hbyte 0 (by omega)
  have h₁ := hbyte 1 (by omega)
  have h₂ := hbyte 2 (by omega)
  have h₃ := hbyte 3 (by omega)
  apply BitVec.eq_of_toNat_eq
  norm_num at h₀ h₁ h₂ h₃
  omega

/-- The low bytes of a value depend on its low bits. -/
theorem byte_congr {n : ℕ} (h : ∀ j < 8 * n, x.getLsbD j = y.getLsbD j) (hk : k < n) :
    (x >>> (8 * k)).truncate 8 = ((y >>> (8 * k)).truncate 8 : UChar) := by
  apply BitVec.eq_of_getLsbD_eq
  intro j hj
  rw [BitVec.truncate_eq_setWidth, BitVec.truncate_eq_setWidth, BitVec.getLsbD_setWidth,
    BitVec.getLsbD_setWidth, BitVec.getLsbD_ushiftRight, BitVec.getLsbD_ushiftRight,
    h _ (by omega)]

end

section

variable {D : Type*} {i : InForm} {io : IoLists D} {g : Guest D}

theorem InForm.getLsbD_latched (i : InForm) (v : ULong) (j : ℕ) :
    (i.latched v).getLsbD j = (v.getLsbD j && (decide (j < 16) && decide (j < 8 * i.size))) := by
  rw [InForm.latched, opMask_eq, i.opSize_eq, BitVec.truncate_eq_setWidth,
    BitVec.getLsbD_setWidth, BitVec.getLsbD_setWidth, BitVec.getLsbD_and, getLsbD_low]
  by_cases hj : j < 16
  · have hj' : j < 32 := by omega
    simp [hj, hj']
  · simp [hj]

theorem InForm.size_cases (i : InForm) : i.size = 1 ∨ i.size = 2 ∨ i.size = 4 := by
  rw [InForm.size]
  split_ifs <;> simp

/-- The variable has room for the operand, or the value needs no more. -/
theorem InForm.latched_low (h : i.size < 4 ∨ v.toNat < 2 ^ 16) :
    ∀ j < 8 * i.size, (i.latched v).getLsbD j = v.getLsbD j := by
  intro j hj
  rw [i.getLsbD_latched]
  by_cases hj' : j < 16
  · simp [hj, hj']
  · have hhigh : v.getLsbD j = false := by
      rcases h with hsize | hv
      · rcases i.size_cases with h | h | h <;> omega
      · exact Nat.testBit_lt_two_pow (hv.trans_le (Nat.pow_le_pow_right (by omega) (by omega)))
    rw [hhigh]
    rfl

/-- Its high half is lost. -/
theorem InForm.toNat_latched_lt (i : InForm) (v : ULong) : (i.latched v).toNat < 2 ^ 16 := by
  rw [InForm.latched, BitVec.truncate_eq_setWidth, BitVec.toNat_setWidth]
  exact lt_of_le_of_lt (Nat.mod_le _ _) (BitVec.isLt _)

/-- The mask of 32 bits leaves nothing of EAX. -/
theorem latched_of_wide (e y : ULong) :
    (e &&& ~~~BitVec.ofNat 32 (2 ^ (8 * 4) - 1)) ||| y = y := by
  have hzero : ~~~BitVec.ofNat 32 (2 ^ (8 * 4) - 1) = (0 : ULong) := by decide
  have hand : e &&& 0 = (0 : ULong) := BitVec.and_zero
  have hor : (0 : ULong) ||| y = y := BitVec.zero_or
  rw [hzero, hand, hor]

/-- What EAX has then. -/
theorem InForm.loads_iff (i : InForm) (io : IoLists D) (g : Guest D) :
    i.Loads io g (i.loaded io g ((g.regs.eax &&& ~~~BitVec.ofNat 32 (2 ^ (8 * i.size) - 1)) |||
        i.latched (i.value io g))) ↔
      i.size < 4 ∨ (i.value io g).toNat < 2 ^ 16 := by
  constructor
  · intro hloads
    by_cases hsize : i.size < 4
    · exact .inl hsize
    · obtain ⟨eax, heq, hmod, -⟩ := hloads
      have hfour : i.size = 4 := by
        rcases i.size_cases with h | h | h <;> omega
      have heax : _ = eax := congrArg (fun g : Guest D => g.regs.eax) heq
      change (g.regs.eax &&& ~~~BitVec.ofNat 32 (2 ^ (8 * i.size) - 1)) ||| _ = eax at heax
      rw [hfour, latched_of_wide] at heax
      rw [← heax, hfour] at hmod
      have hlt := i.toNat_latched_lt (i.value io g)
      have hv := (i.value io g).isLt
      right
      omega
  · intro h
    have hlow := InForm.latched_low h
    have hhigh : ∀ j, 8 * i.size ≤ j → (i.latched (i.value io g)).getLsbD j = false := by
      intro j hj
      rw [i.getLsbD_latched]
      simp [hj]
    have hmerge := merge_low (e := g.regs.eax) hlow hhigh
    exact ⟨_, rfl, hmerge⟩

/-- What the bytes at ES:EDI are then. -/
theorem InForm.stores_iff (i : InForm) (io : IoLists D) (g : Guest D) :
    i.Stores io g (i.stored io g
        (storeBytes i.size (i.dest g) (i.latched (i.value io g)) (i.after io g).mem)
        (advance (prefixBits i.pre) g.regs.eflags i.size g.regs.edi)) ↔
      i.size < 4 ∨ (i.value io g).toNat < 2 ^ 16 := by
  have hle : i.size ≤ 4 := by
    rcases i.size_cases with h | h | h <;> omega
  constructor
  · intro hstores
    by_cases hsize : i.size < 4
    · exact .inl hsize
    · obtain ⟨mem, edi, heq, hbytes, -, -⟩ := hstores
      have hfour : i.size = 4 := by omega
      have hmem : storeBytes i.size (i.dest g) (i.latched (i.value io g)) (i.after io g).mem =
        mem := congrArg (fun g : Guest D => g.mem) heq
      have hsame : i.latched (i.value io g) = i.value io g := by
        refine eq_of_bytes fun k hk => ?_
        rw [← hbytes k (by omega), ← hmem, storeBytes_byteAddr (by omega) hle]
      rw [← hsame]
      exact .inr (i.toNat_latched_lt _)
  · intro h
    refine ⟨_, _, rfl, fun k hk => ?_, fun a ha => storeBytes_of_ne ha, i.advances g⟩
    rw [storeBytes_byteAddr hk hle]
    exact byte_congr (InForm.latched_low h) hk

/-- IN and INS deliver the value of the port and change nothing else, unless it is one of 32 bits
that does not fit into a `u_short`. -/
theorem delivers_iff (i : InForm) (io : IoLists D) (g : Guest D) (h : g.At i.bytes) :
    i.Delivers io g ↔ i.size < 4 ∨ (i.value io g).toNat < 2 ^ 16 := by
  have hrun := InForm.vmGpeHandler io h
  unfold InForm.Delivers
  rw [hrun]
  by_cases hins : i.IsString
  · rw [InForm.doIn_ins h hins, ← i.stores_iff]
    simp only [if_pos hins, Option.some.injEq, Prod.mk.injEq, true_and, exists_eq_left']
  · rw [InForm.doIn_in h hins, ← i.loads_iff]
    simp only [if_neg hins, Option.some.injEq, Prod.mk.injEq, true_and, exists_eq_left']

end

/-- IN EAX,DX. -/
def inEax : InForm := ⟨[0x66], 0xed, 0, by decide, by decide, by decide⟩

/-- A device that returns `v` from every port. -/
def constant (v : ULong) : IoLists Unit :=
  ⟨[], [⟨0, 0xffff, fun _ _ w => (v, w), fun _ _ _ w => w⟩]⟩

/-- A program of one instruction, at address 0. -/
def trapped (code : List UChar) : Guest Unit where
  mem a := code.getD a.toNat 0
  dev := ()
  regs := { eip := 0, cs := 0, eflags := EFLAGS_VM, esp := 0x100, ss := 0x100, eax := 0, ebx := 0,
            ecx := 0, edx := 0, edi := 0, esi := 0, ebp := 0, es := 0x200, ds := 0, fs := 0, gs := 0 }
  virtualEflags := 2

theorem trapped_at {code : List UChar} (h : code.length ≤ 65536) : (trapped code).At code := by
  refine ⟨(by decide : (EFLAGS_VM &&& EFLAGS_VM : ULong) ≠ 0), fun n b hb => ?_⟩
  have hn : n < code.length := (List.getElem?_eq_some_iff.mp hb).1
  have haddr : ((trapped code).skip n).codeAddr = set16 0 (0 + BitVec.ofNat 32 n) &&& 0xffff :=
    BitVec.zero_add _
  have hnat : ((trapped code).skip n).codeAddr.toNat = n := by
    rw [haddr, set16_and, toNat_low, BitVec.toNat_add, BitVec.toNat_ofNat]
    show (0 + n % 2 ^ 32) % 2 ^ 32 % 65536 = n
    omega
  change code.getD ((trapped code).skip n).codeAddr.toNat 0 = b
  rw [hnat, List.getD_eq_getElem?_getD, hb]
  rfl

/-- A value of 16 bits in EAX. -/
theorem delivers_inEax : inEax.Delivers (constant 0x5678) (trapped [0x66, 0xed]) :=
  (delivers_iff inEax (constant 0x5678) (trapped [0x66, 0xed]) (trapped_at (by decide))).mpr
    (.inr (by decide))

/-- Of 0x12345678, EAX has 0x5678. -/
theorem inEax_truncates : ¬∀ (i : InForm) (io : IoLists Unit) (g : Guest Unit), g.At i.bytes →
    i.Delivers io g := by
  intro hall
  have hat : (trapped [0x66, 0xed]).At inEax.bytes := trapped_at (by decide)
  obtain ⟨g', hrun, hdelivers⟩ := hall inEax (constant 0x12345678) (trapped [0x66, 0xed]) hat
  rw [if_neg (by decide)] at hdelivers
  rw [InForm.vmGpeHandler _ hat, InForm.doIn_in hat (by decide), Option.some.injEq,
    Prod.mk.injEq] at hrun
  rw [← hrun.2, InForm.loads_iff] at hdelivers
  exact absurd hdelivers (by decide)

end Vmm386.PortIo
