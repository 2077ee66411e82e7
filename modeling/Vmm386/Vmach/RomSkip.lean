import Vmm386.Vmach.InsLenTheorems
import Vmm386.Vmach.RoundTrip

/-!
# Skipped writes to the ROM

On a protection error, `vm_pfl_handler` of `drivers/virtual/vm/fault.c` moves IP behind the
instruction that wrote. It takes the instruction from the address IP, and not from CS:IP.
-/

namespace Vmm386.Vmach

open InsLen Mm

/-- The bytes that `get_user_byte` reads from `pc` on. -/
def codeAt (mem : ULong → UChar) (pc : ULong) (n : ℕ) : UChar := mem (pc + BitVec.ofNat 32 n)

/-- `vm_pfl_handler` on a protection error. `mem` is the user segment, of which `get_inslen` reads
at most `fuel` bytes up to the end of the opcode. -/
def protectionFault (mem : ULong → UChar) (fuel : ℕ) (lin : ULong) (regs : Vm86Regs) :
    Option (Bool × Vm86Regs) :=
  if lin < 0xa0000 ∨ 0xfffff < lin then some (false, regs)
  else
    let ip := regs.eip &&& 0xffff
    (getInslen (codeAt mem ip) fuel false).map fun n =>
      (true, { regs with eip := set16 regs.eip (ip + BitVec.ofNat 32 n) })

/-- The linear address of CS:IP. -/
def codeLin (cs ip : UShort) : ULong := (cs.zeroExtend 32 <<< 4) + ip.zeroExtend 32

/-- The instruction decoder supports the instruction at `lin`, and finds `n` bytes. -/
def LengthAt (mem : ULong → UChar) (lin : ULong) (n : ℕ) : Prop :=
  ∃ fuel, getInslen (codeAt mem lin) fuel false = some n

/-- Whatever the instruction at CS:IP is, IP is moved by its length. -/
def SkipsInstruction (cs ip : UShort) : Prop :=
  ∀ (mem : ULong → UChar) (regs : Vm86Regs) (lin : ULong) (n : ℕ),
    regs.cs = cs → regs.eip.truncate 16 = ip → 0xa0000 ≤ lin → lin ≤ 0xfffff →
    LengthAt mem (codeLin cs ip) n →
    ∃ fuel, protectionFault mem fuel lin regs =
      some (true, { regs with eip := set16 regs.eip (ip.zeroExtend 32 + BitVec.ofNat 32 n) })

variable {mem : ULong → UChar} {regs : Vm86Regs} {lin : ULong} {fuel : ℕ} {cs ip : UShort}

/-- The answer is that of the model of the handler without registers. -/
theorem protectionFault_fst {r : Bool × Vm86Regs} (s : VmSys) {errorCode : ULong}
    (hcode : errorCode &&& PF_ERROR_PROTECTION ≠ 0)
    (h : protectionFault mem fuel lin regs = some r) : r.1 = (s.vmPflHandler errorCode lin).1 := by
  unfold protectionFault at h
  rw [VmSys.vmPflHandler, if_pos hcode]
  dsimp only
  split_ifs at h ⊢ with hlin
  · rw [← Option.some.inj h]
  · obtain ⟨n, -, rfl⟩ := Option.map_eq_some_iff.mp h
    rfl

/-- `GET16` -/
theorem truncate_zeroExtend (x : ULong) : (x.truncate 16).zeroExtend 32 = x &&& 0xffff := by
  apply BitVec.eq_of_toNat_eq
  have hlt : x.toNat % 65536 < 2 ^ 32 := Nat.lt_trans (Nat.mod_lt _ (by decide)) (by decide)
  rw [toNat_low, BitVec.toNat_setWidth, BitVec.toNat_setWidth]
  exact Nat.mod_eq_of_lt hlt

theorem protectionFault_eq (hlo : 0xa0000 ≤ lin) (hhi : lin ≤ 0xfffff)
    (hip : regs.eip.truncate 16 = ip) :
    protectionFault mem fuel lin regs =
      (getInslen (codeAt mem (ip.zeroExtend 32)) fuel false).map fun n =>
        (true, { regs with eip := set16 regs.eip (ip.zeroExtend 32 + BitVec.ofNat 32 n) }) := by
  have hlin : ¬(lin < 0xa0000 ∨ 0xfffff < lin) := by
    rw [not_or, BitVec.not_lt, BitVec.not_lt]
    exact ⟨hlo, hhi⟩
  rw [protectionFault, if_neg hlin, ← hip, truncate_zeroExtend]

/-- The base of the code segment is not 0. -/
theorem codeLin_ne (hcs : cs ≠ 0) : codeLin cs ip ≠ ip.zeroExtend 32 := by
  intro h
  have hpos : 0 < cs.toNat := Nat.pos_of_ne_zero fun h0 => hcs (BitVec.eq_of_toNat_eq h0)
  have heq := congrArg BitVec.toNat h
  have hbound := cs.isLt
  have hip := ip.isLt
  simp only [codeLin, BitVec.toNat_add, BitVec.toNat_shiftLeft, Nat.shiftLeft_eq,
    BitVec.toNat_setWidth] at heq
  omega

/-- `mov ax, imm16` at `pc`, `nop` everywhere else. -/
def movAt (pc addr : ULong) : UChar := if addr = pc then 0xb8 else 0x90

theorem getInslen_movAt (pc : ULong) : getInslen (codeAt (movAt pc) pc) 1 false = some 3 := by
  have hbyte : codeAt (movAt pc) pc 0 = 0xb8 := by
    simp [codeAt, movAt]
  unfold getInslen scan
  dsimp only
  rw [hbyte]
  rfl

theorem getInslen_nop {pc lin : ULong} (h : lin ≠ pc) :
    getInslen (codeAt (movAt pc) lin) 1 false = some 1 := by
  have hbyte : codeAt (movAt pc) lin 0 = 0x90 := by
    simp [codeAt, movAt, h]
  unfold getInslen scan
  dsimp only
  rw [hbyte]
  rfl

/-- Two moves of IP that differ by two. -/
theorem set16_add_ne (x y : ULong) :
    set16 x (y + BitVec.ofNat 32 3) ≠ set16 x (y + BitVec.ofNat 32 1) := by
  intro h
  have hlow := congrArg (fun e : ULong => (e &&& 0xffff).toNat) h
  rw [set16_and, set16_and, toNat_low, toNat_low, BitVec.toNat_add, BitVec.toNat_add] at hlow
  simp only [BitVec.toNat_ofNat] at hlow
  omega

theorem not_skipsInstruction (hcs : cs ≠ 0) : ¬SkipsInstruction cs ip := by
  intro h
  let regs : Vm86Regs :=
    { eip := ip.zeroExtend 32, cs := cs, eflags := 0, esp := 0, ss := 0 }
  have hip : regs.eip.truncate 16 = ip := by simp [regs]
  obtain ⟨fuel, hfuel⟩ := h (movAt (ip.zeroExtend 32)) regs 0xa0000 1 rfl hip (by decide)
    (by decide) ⟨1, getInslen_nop (codeLin_ne hcs)⟩
  rw [protectionFault_eq (by decide) (by decide) hip] at hfuel
  obtain ⟨m, hm, heq⟩ := Option.map_eq_some_iff.mp hfuel
  have hthree : m = 3 := getInslen_unique hm (getInslen_movAt _)
  rw [hthree] at heq
  exact set16_add_ne _ _ (congrArg (fun r : Bool × Vm86Regs => r.2.eip) heq)

/-- Only in the code segment 0 is the right instruction skipped. -/
theorem skipsInstruction_iff (cs ip : UShort) : SkipsInstruction cs ip ↔ cs = 0 := by
  constructor
  · exact fun h => by_contra fun hcs => not_skipsInstruction hcs h
  · rintro rfl mem regs lin n - hip hlo hhi ⟨fuel, hlen⟩
    have hbase : codeLin 0 ip = ip.zeroExtend 32 := by
      rw [codeLin]
      exact BitVec.zero_add _
    rw [hbase] at hlen
    refine ⟨fuel, ?_⟩
    rw [protectionFault_eq hlo hhi hip, hlen, Option.map_some]

/-- A program at 1000:0000. -/
theorem segment_not_skipped : ¬∀ cs ip, SkipsInstruction cs ip :=
  fun h => not_skipsInstruction (by decide) (h 0x1000 0)

end Vmm386.Vmach
