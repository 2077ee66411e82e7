import Vmm386.Vmach.PortInput

/-!
# Repeated port instructions

REP INS and REP OUTS have loops of their own in `vm_gpe_handler`. No `break` stands behind them,
and the cases that follow end with the task frozen at the instruction.
-/

namespace Vmm386.PortIo

open Mm Vmach

/-- A repeated INS or OUTS: REP stands before, behind or between the other prefixes. -/
structure RepForm where
  pre : List UChar
  pre' : List UChar
  opcode : UChar
  hpre : ∀ b ∈ pre, prefixBit b ≠ none
  hpre' : ∀ b ∈ pre', prefixBit b ≠ none
  hopcode : opcode ∈ ([0x6c, 0x6d, 0x6e, 0x6f] : List UChar)
  hlength : pre.length + pre'.length + 2 < 65536

namespace RepForm

variable {D : Type*} (i : RepForm) (io : IoLists D) (g : Guest D)

def bytes : List UChar := i.pre ++ 0xf3 :: (i.pre' ++ [i.opcode])

/-- The other prefixes. -/
def bits : ULong := prefixBits (i.pre ++ i.pre')

/-- The case of INS or OUTS, with these prefixes. -/
def once : Guest D :=
  if i.opcode = 0x6c ∨ i.opcode = 0x6d then g.doIn io i.opcode i.bits
  else g.doOut io i.opcode i.bits

/-- CX, or ECX with the prefix 0x67. -/
def count : ℕ :=
  if 0x67 ∈ i.pre ++ i.pre' then g.regs.ecx.toNat else (g.regs.ecx &&& 0xffff).toNat

/-- The single instruction, `count` times; then the count is zero and the instruction is over. -/
def repeated : Guest D :=
  let g' := (i.once io)^[i.count g] g
  { g' with regs := { g'.regs with
      ecx := if 0x67 ∈ i.pre ++ i.pre' then 0 else g.regs.ecx &&& 0xffff0000
      eip := (g.skip i.bytes.length).regs.eip } }

/-- The emulation comes to that. -/
def Repeats : Prop := ∃ o, g.vmGpeHandler io = some (o, i.repeated io g)

end RepForm

section

variable {D : Type*} {i : RepForm} {io : IoLists D} {g : Guest D} {prefixes eip : ULong}

/-- Both cases of the two-byte escape end in the default. -/
theorem Guest.escape_stopped (g : Guest D) (eip : ULong) :
    (g.escape eip).1 = .stopped ∧ (g.escape eip).2.regs.eip = eip := by
  unfold Guest.escape
  dsimp only
  split_ifs
  · exact ⟨rfl, rfl⟩
  · exact ⟨rfl, rfl⟩

/-- All cases of REP end there, too. -/
theorem Guest.rep_stopped (g : Guest D) (io : IoLists D) (prefixes eip : ULong) :
    (g.rep io prefixes eip).1 = .stopped ∧ (g.rep io prefixes eip).2.regs.eip = eip := by
  unfold Guest.rep
  dsimp only
  split_ifs
  · exact Guest.escape_stopped _ _
  · exact Guest.escape_stopped _ _
  · exact ⟨rfl, rfl⟩

/-- REP freezes the task, with EIP at the instruction. -/
theorem RepForm.stopped (io : IoLists D) (h : g.At i.bytes) :
    ∃ g', g.vmGpeHandler io = some (.stopped, g') ∧ g'.regs.eip = g.regs.eip := by
  have hlength := i.hlength
  have hprefixes := h.getPrefixes 0 i.hpre (by decide)
    (show i.pre.length < 65536 by omega)
  have hpop := (Guest.At.skip h).popCs
  have hstopped := ((g.skip i.pre.length).skip 1).rep_stopped io (0 ||| prefixBits i.pre) g.regs.eip
  refine ⟨_, ?_, hstopped.2⟩
  rw [Guest.vmGpeHandler, if_neg h.virtual, hprefixes, Option.map_some]
  simp only [hpop]
  rw [if_neg (by decide), if_neg (by decide), if_pos trivial]
  exact congrArg some (Prod.ext hstopped.1 rfl)

/-- The instruction is not empty. -/
theorem RepForm.skip_ne (i : RepForm) (g : Guest D) :
    (g.skip i.bytes.length).regs.eip ≠ g.regs.eip := by
  have hlength := i.hlength
  have hbytes : i.bytes.length = i.pre.length + i.pre'.length + 2 := by
    simp only [RepForm.bytes, List.length_append, List.length_cons, List.length_nil]
    omega
  intro heip
  have hmod := Guest.toNat_set16_mod g.regs.eip (g.regs.eip + BitVec.ofNat 32 i.bytes.length)
  change set16 g.regs.eip (g.regs.eip + BitVec.ofNat 32 i.bytes.length) = g.regs.eip at heip
  rw [heip, BitVec.toNat_add, BitVec.toNat_ofNat] at hmod
  omega

/-- No repeated instruction is emulated: EIP is never moved past it. -/
theorem not_repeats (i : RepForm) (io : IoLists D) (g : Guest D) (h : g.At i.bytes) :
    ¬i.Repeats io g := by
  rintro ⟨o, hrun⟩
  obtain ⟨g', hstopped, heip⟩ := RepForm.stopped io h
  rw [hstopped, Option.some.injEq, Prod.mk.injEq] at hrun
  rw [hrun.2] at heip
  exact i.skip_ne g heip

end

/-- REP INSB. -/
def repInsb : RepForm := ⟨[], [], 0x6c, nofun, nofun, by decide, by decide⟩

/-- REP INSB is not emulated. -/
theorem not_repeats_repInsb : ¬repInsb.Repeats (constant 0) (trapped [0xf3, 0x6c]) :=
  not_repeats repInsb (constant 0) (trapped [0xf3, 0x6c]) (trapped_at (by decide))

/-- The same with CX = 1. -/
def trappedOnce : Guest Unit :=
  { trapped [0xf3, 0x6c] with regs := { (trapped [0xf3, 0x6c]).regs with ecx := 1 } }

/-- The byte is stored, and EIP is 0 still. -/
theorem repInsb_stops : ¬∀ (i : RepForm) (io : IoLists Unit) (g : Guest Unit), g.At i.bytes →
    i.Repeats io g := by
  intro hall
  have htrapped : (trapped [0xf3, 0x6c]).At repInsb.bytes := trapped_at (by decide)
  have hat : trappedOnce.At repInsb.bytes := ⟨htrapped.virtual, htrapped.bytes⟩
  obtain ⟨o, hrun⟩ := hall repInsb (constant 0) trappedOnce hat
  obtain ⟨g', hstopped, heip⟩ := RepForm.stopped (constant 0) hat
  rw [hstopped, Option.some.injEq, Prod.mk.injEq] at hrun
  rw [hrun.2] at heip
  exact absurd heip (repInsb.skip_ne trappedOnce)

end Vmm386.PortIo
