import Vmm386.Lib.Bits
import Vmm386.Lib.Runs
import Vmm386.Vkbd.Vkbd

/-!
# The ring of a virtual keyboard

The ring is a queue from which the byte that was read last can be put back. It is one along a run
if and only if every step is `StepOk` (`alongOrderly_iff`): `vkbd_unout` is right only where the
read position is not 0, the ring is not empty, and there is a byte to put back.
-/

namespace Vmm386.VkbdModule

open Kbd Runs

/-! ## Runs -/

/-- What the host and the guest do. -/
inductive VkbdOp where
  | key (shiftState : ULong) (keyCode upCode : UChar)
  | switchFrom (shiftState : ULong)
  | switchTo (shiftState : ULong)
  | readPort (port : UShort) (size : ℕ)
  | writePort (port : UShort) (size : ℕ) (val : ULong)

/-- The keyboard after a step. -/
def Vkbd.after (keymap : Keymap) (vk : Vkbd) : VkbdOp → Vkbd
  | .key shiftState keyCode upCode => vk.useKey keymap shiftState keyCode upCode
  | .switchFrom shiftState => vk.switchFrom shiftState
  | .switchTo shiftState => vk.switchTo shiftState
  | .readPort port size => (vk.readPort port size).2
  | .writePort port size val => vk.writePort port size val

def vkbdStep (keymap : Keymap) (vk : Vkbd) (op : VkbdOp) : Option Vkbd := some (vk.after keymap op)

/-- The queue after the events of a log, and the byte that can be put back. An event that a queue
of 15 places does not allow leads to `none`. -/
def replay : List RingEvent → Option (List ULong × Option ULong)
  | [] => some ([], none)
  | e :: earlier => (replay earlier).bind fun r =>
    match e with
    | .entered val kept =>
      if kept = decide (r.1.length < 15) then some (if kept then r.1 ++ [val] else r.1, r.2)
      else none
    | .read val =>
      match r.1 with
      | [] => none
      | b :: rest => if val = b then some (rest, some b) else none
    | .emptied => some ([], if r.1 = [] then r.2 else none)
    | .resent =>
      match r.2 with
      | none => none
      | some b => if r.1.length < 15 then some (b :: r.1, none) else none

namespace Vkbd

variable (vk : Vkbd)

/-- The bytes in a ring, the oldest first. -/
def ringContents (buf : ℤ → ULong) (i o : ℤ) : List ULong :=
  Ring.contents 16 (fun k => buf k) i.toNat o.toNat

def contents : List ULong := ringContents vk.buf vk.inPos vk.outPos

/-- The ring is a queue, and the flags tell whether it is empty. -/
structure Orderly : Prop where
  inPos : 0 ≤ vk.inPos ∧ vk.inPos < 16
  outPos : 0 ≤ vk.outPos ∧ vk.outPos < 16
  queue : ∃ last, replay vk.log = some (vk.contents, last)
  status : vk.statusByte &&& KB_STAT_OUTPUT_FULL ≠ 0 ↔ ¬vk.IsEmpty
  port : vk.outputPort &&& KB_OUTP_OUTPUT_FULL ≠ 0 ↔ ¬vk.IsEmpty

/-- `vkbd_unout` is called. -/
def Resends : VkbdOp → Prop
  | .writePort port size val =>
    size = 1 ∧ port = 0x60 ∧ val = KB_KBD_RESEND ∧ vk.this8042Command = 0 ∧
      (vk.thisKbdCommand = 0 ∨ vk.thisKbdCommand.zeroExtend 32 = KB_KBD_SET_LEDS)
  | _ => False

/-- The output port is set. -/
def SetsOutputPort : VkbdOp → UChar → Prop
  | .writePort port size val, value =>
    size = 1 ∧ port = 0x60 ∧ val.truncate 8 = value ∧
      vk.this8042Command.zeroExtend 32 = KB_8042_WRITE_OUTPUT_PORT
  | _, _ => False

/-- There is a byte to put back, or no room for it. -/
def CanResend : Prop :=
  0 < vk.outPos ∧ (vk.outPos - 1 = vk.inPos ∨
    ¬vk.IsEmpty ∧ ∃ q b, replay vk.log = some (q, some b))

/-- A resend is possible, and the output port is set to a value with the right flag. -/
structure StepOk (op : VkbdOp) : Prop where
  resend : vk.Resends op → vk.CanResend
  port : ∀ value, vk.SetsOutputPort op value →
    (value &&& KB_OUTP_OUTPUT_FULL ≠ 0 ↔ ¬vk.IsEmpty)

/-- `Orderly`, with the byte that can be put back. -/
structure Sound (last : Option ULong) : Prop where
  inPos : 0 ≤ vk.inPos ∧ vk.inPos < 16
  outPos : 0 ≤ vk.outPos ∧ vk.outPos < 16
  queue : replay vk.log = some (vk.contents, last)
  last : ∀ b, last = some b → vk.buf ((vk.outPos + 15) % 16) = b
  status : vk.statusByte &&& KB_STAT_OUTPUT_FULL ≠ 0 ↔ ¬vk.IsEmpty
  port : vk.outputPort &&& KB_OUTP_OUTPUT_FULL ≠ 0 ↔ ¬vk.IsEmpty

variable {vk} {last : Option ULong} {val : ULong}

theorem Sound.orderly (h : vk.Sound last) : vk.Orderly :=
  ⟨h.inPos, h.outPos, ⟨last, h.queue⟩, h.status, h.port⟩

/-! ## The helpers -/

theorem or_full (x : UChar) : (x ||| KB_STAT_OUTPUT_FULL) &&& KB_STAT_OUTPUT_FULL ≠ 0 ∧
    (x ||| KB_OUTP_OUTPUT_FULL) &&& KB_OUTP_OUTPUT_FULL ≠ 0 := by
  rw [Bits.or_and_self, Bits.or_and_self]
  decide

theorem and_full (x : UChar) : (x &&& ~~~KB_STAT_OUTPUT_FULL) &&& KB_STAT_OUTPUT_FULL = 0 ∧
    (x &&& ~~~KB_OUTP_OUTPUT_FULL) &&& KB_OUTP_OUTPUT_FULL = 0 :=
  ⟨Bits.and_not_and_self x _, Bits.and_not_and_self x _⟩

theorem tmod_eq (h : 0 ≤ vk.inPos) : (vk.inPos + 1).tmod 16 = (vk.inPos + 1) % 16 :=
  Int.tmod_eq_emod_of_nonneg (by omega)

section Ring

variable {buf : ℤ → ULong} {i o : ℤ}

theorem ring_push (hi : 0 ≤ i ∧ i < 16) (ho : 0 ≤ o ∧ o < 16) (hroom : (i + 1) % 16 ≠ o) :
    ringContents (Function.update buf i val) ((i + 1) % 16) o = ringContents buf i o ++ [val] := by
  have hupdate : (fun k : ℕ => Function.update buf i val k) =
      Function.update (fun k : ℕ => buf k) i.toNat val := by
    funext k
    by_cases hk : k = i.toNat
    · have hcast : (k : ℤ) = i := by omega
      rw [hk, Function.update_self, ← hk, hcast, Function.update_self]
    · rw [Function.update_of_ne hk, Function.update_of_ne (by omega)]
  have hsucc : ((i + 1) % 16).toNat = (i.toNat + 1) % 16 := by omega
  rw [ringContents, ringContents, hupdate, hsucc]
  exact Ring.contents_push (by omega) (by omega) (by omega)

theorem ring_pop (hi : 0 ≤ i ∧ i < 16) (ho : 0 ≤ o ∧ o < 16) (hne : i ≠ o) :
    ringContents buf i o = buf o :: ringContents buf i ((o + 1) % 16) := by
  have hcast : (o.toNat : ℤ) = o := Int.toNat_of_nonneg ho.1
  have hsucc : ((o + 1) % 16).toNat = (o.toNat + 1) % 16 := by omega
  have hpop := Ring.contents_pop (n := 16) (f := fun k : ℕ => buf k) (i := i.toNat) (o := o.toNat)
    (by omega) (by omega) (by omega)
  rwa [hcast, ← hsucc] at hpop

theorem ring_eq_nil (hi : 0 ≤ i ∧ i < 16) (ho : 0 ≤ o ∧ o < 16) :
    ringContents buf i o = [] ↔ i = o := by
  rw [ringContents, Ring.contents_eq_nil (by omega) (by omega)]
  omega

theorem length_ring (hi : 0 ≤ i ∧ i < 16) (ho : 0 ≤ o ∧ o < 16) :
    (ringContents buf i o).length < 15 ↔ (i + 1) % 16 ≠ o := by
  rw [ringContents, Ring.length_contents, Ring.count_eq (by omega) (by omega)]
  split <;> omega

end Ring

theorem Sound.vkbdIn (h : vk.Sound last) (val : ULong) : (vk.vkbdIn val).Sound last := by
  have hlen := @length_ring vk.buf _ _ h.inPos h.outPos
  unfold Vkbd.vkbdIn
  dsimp only
  rw [tmod_eq h.inPos.1]
  by_cases hfull : (vk.inPos + 1) % 16 = vk.outPos
  · have hnot : ¬vk.contents.length < 15 := fun hlt => hlen.mp hlt hfull
    rw [if_pos hfull]
    refine ⟨h.inPos, h.outPos, ?_, h.last, h.status, h.port⟩
    rw [replay, h.queue, Option.bind_some]
    exact if_pos (decide_eq_false hnot).symm
  · have hlt : vk.contents.length < 15 := hlen.mpr hfull
    have hin := h.inPos
    have hout := h.outPos
    rw [if_neg hfull]
    refine ⟨⟨Int.emod_nonneg _ (by decide), Int.emod_lt_of_pos _ (by decide)⟩, hout, ?_, ?_,
      iff_of_true (or_full _).1 hfull, iff_of_true (or_full _).2 hfull⟩
    · rw [replay, h.queue, Option.bind_some]
      refine (if_pos (decide_eq_true hlt).symm).trans ?_
      exact congrArg (fun q => some (q, last)) (ring_push h.inPos h.outPos hfull).symm
    · intro b hb
      have hne : (vk.outPos + 15) % 16 ≠ vk.inPos := by omega
      rw [← h.last b hb]
      exact Function.update_of_ne hne _ _

theorem Sound.vkbdOut (h : vk.Sound last) (hne : ¬vk.IsEmpty) :
    vk.vkbdOut.2.Sound (some (vk.buf vk.outPos)) := by
  have hout := h.outPos
  have hmod : (vk.outPos + 1).tmod 16 = (vk.outPos + 1) % 16 :=
    Int.tmod_eq_emod_of_nonneg (by omega)
  have hbounds : 0 ≤ (vk.outPos + 1) % 16 ∧ (vk.outPos + 1) % 16 < 16 := by omega
  have hprev : ((vk.outPos + 1) % 16 + 15) % 16 = vk.outPos := by omega
  have hqueue : replay (.read (vk.buf vk.outPos) :: vk.log) =
      some (ringContents vk.buf vk.inPos ((vk.outPos + 1) % 16), some (vk.buf vk.outPos)) := by
    rw [replay, h.queue, Option.bind_some, contents, ring_pop h.inPos h.outPos hne]
    exact if_pos rfl
  unfold Vkbd.vkbdOut
  dsimp only
  rw [hmod]
  split
  · next hempty =>
    refine ⟨h.inPos, hbounds, hqueue, ?_, iff_of_false (not_not.mpr (and_full _).1) ?_,
      iff_of_false (not_not.mpr (and_full _).2) ?_⟩
    · rintro b ⟨⟩
      exact congrArg vk.buf hprev
    · exact not_not.mpr hempty
    · exact not_not.mpr hempty
  · next hempty =>
    refine ⟨h.inPos, hbounds, hqueue, ?_, iff_of_true (h.status.mpr hne) hempty,
      iff_of_true (h.port.mpr hne) hempty⟩
    rintro b ⟨⟩
    exact congrArg vk.buf hprev

theorem Sound.vkbdEmpty (h : vk.Sound last) :
    vk.vkbdEmpty.Sound (if vk.contents = [] then last else none) := by
  have hnil : ringContents vk.buf vk.inPos vk.inPos = [] := (ring_eq_nil h.inPos h.inPos).mpr rfl
  refine ⟨h.inPos, h.inPos, ?_, ?_, iff_of_false (not_not.mpr (and_full _).1) (not_not.mpr rfl),
    iff_of_false (not_not.mpr (and_full _).2) (not_not.mpr rfl)⟩
  · show replay (.emptied :: vk.log) = some (ringContents vk.buf vk.inPos vk.inPos, _)
    rw [hnil, replay, h.queue]
    rfl
  · intro b hb
    by_cases hempty : vk.contents = []
    · rw [if_pos hempty] at hb
      have heq : vk.inPos = vk.outPos := (ring_eq_nil h.inPos h.outPos).mp hempty
      show vk.buf ((vk.inPos + 15) % 16) = b
      rw [heq]
      exact h.last b hb
    · rw [if_neg hempty] at hb
      cases hb

/-- There is a byte to put back. -/
theorem Sound.vkbdUnout (h : vk.Sound last) (hcan : vk.CanResend) :
    ∃ last', vk.vkbdUnout.Sound last' := by
  obtain ⟨hpos, hcan⟩ := hcan
  have hout := h.outPos
  have hmod : (vk.outPos - 1).tmod 16 = vk.outPos - 1 := by
    rw [Int.tmod_eq_emod_of_nonneg (by omega)]
    omega
  unfold Vkbd.vkbdUnout
  dsimp only
  rw [hmod]
  by_cases hfull : vk.outPos - 1 = vk.inPos
  · rw [if_pos hfull]
    exact ⟨last, h.vkbdIn _⟩
  · obtain ⟨hne, q, b, hlast⟩ := hcan.resolve_left hfull
    rw [if_neg hfull]
    rw [h.queue] at hlast
    obtain ⟨-, rfl⟩ := Prod.mk.inj (Option.some.inj hlast)
    have hin := h.inPos
    have hbyte : vk.buf (vk.outPos - 1) = b := by
      rw [← h.last b rfl]
      congr 1
      omega
    have hlt : vk.contents.length < 15 := (length_ring h.inPos h.outPos).mpr (by omega)
    have hback : ringContents vk.buf vk.inPos (vk.outPos - 1) = b :: vk.contents := by
      have hsucc : (vk.outPos - 1 + 1) % 16 = vk.outPos := by omega
      rw [ring_pop h.inPos (by omega) fun heq => hfull heq.symm, hbyte, hsucc, contents]
    refine ⟨none, h.inPos, ⟨by dsimp only; omega, by dsimp only; omega⟩, ?_, nofun,
      iff_of_true (h.status.mpr hne) fun heq => hfull heq.symm,
      iff_of_true (h.port.mpr hne) fun heq => hfull heq.symm⟩
    show replay (.resent :: vk.log) = some (ringContents vk.buf vk.inPos (vk.outPos - 1), none)
    rw [hback, replay, h.queue]
    exact if_pos hlt

/-- Where `vkbd_unout` leaves a queue, there was a byte to put back. -/
theorem Sound.canResend (h : vk.Sound last) (ho : vk.vkbdUnout.Orderly) : vk.CanResend := by
  have hout := h.outPos
  unfold Vkbd.vkbdUnout at ho
  dsimp only at ho
  by_cases hzero : vk.outPos = 0
  · -- the index is -1
    have hneg : (vk.outPos - 1).tmod 16 = -1 := by
      rw [hzero]
      decide
    have hne : ¬(-1 : ℤ) = vk.inPos := by have := h.inPos; omega
    rw [hneg, if_neg hne] at ho
    exact absurd ho.outPos.1 (show ¬(0 : ℤ) ≤ -1 by decide)
  · have hmod : (vk.outPos - 1).tmod 16 = vk.outPos - 1 := by
      rw [Int.tmod_eq_emod_of_nonneg (by omega)]
      omega
    rw [hmod] at ho
    by_cases hfull : vk.outPos - 1 = vk.inPos
    · exact ⟨by omega, Or.inl hfull⟩
    · rw [if_neg hfull] at ho
      have hne : ¬vk.IsEmpty := h.status.mp (ho.status.mpr fun heq => hfull heq.symm)
      obtain ⟨last', hreplay⟩ := ho.queue
      cases last with
      | none =>
        rw [replay, h.queue] at hreplay
        cases hreplay
      | some b => exact ⟨by omega, Or.inr ⟨hne, vk.contents, b, h.queue⟩⟩

/-! ## Steps -/

/-- Other fields do not matter. -/
theorem Sound.congr {vk' : Vkbd} (h : vk.Sound last) (hbuf : vk'.buf = vk.buf)
    (hin : vk'.inPos = vk.inPos) (hout : vk'.outPos = vk.outPos) (hlog : vk'.log = vk.log)
    (hport : vk'.outputPort = vk.outputPort)
    (hstatus : vk'.statusByte &&& KB_STAT_OUTPUT_FULL = vk.statusByte &&& KB_STAT_OUTPUT_FULL) :
    vk'.Sound last := by
  have hcontents : vk'.contents = vk.contents := by
    rw [contents, contents, hbuf, hin, hout]
  have hempty : vk'.IsEmpty ↔ vk.IsEmpty := by
    rw [IsEmpty, IsEmpty, hin, hout]
  constructor
  · rw [hin]
    exact h.inPos
  · rw [hout]
    exact h.outPos
  · rw [hlog, hcontents]
    exact h.queue
  · rw [hbuf, hout]
    exact h.last
  · rw [hstatus, hempty]
    exact h.status
  · rw [hport, hempty]
    exact h.port

theorem status_command (x : UChar) :
    (x ||| KB_STAT_COMMAND) &&& KB_STAT_OUTPUT_FULL = x &&& KB_STAT_OUTPUT_FULL ∧
      (x &&& ~~~KB_STAT_COMMAND) &&& KB_STAT_OUTPUT_FULL = x &&& KB_STAT_OUTPUT_FULL :=
  ⟨Bits.or_and_of_disjoint (by decide) x, Bits.and_not_and_of_disjoint (by decide) x⟩

theorem Sound.of_ite {p : Prop} [Decidable p] {vk' : Vkbd} (h : p → vk.Sound last)
    (h' : ¬p → vk'.Sound last) : (if p then vk else vk').Sound last := by
  split
  next hp => exact h hp
  next hp => exact h' hp

theorem exists_sound_ite {p : Prop} [Decidable p] {vk' : Vkbd} (h : p → ∃ last, vk.Sound last)
    (h' : ¬p → ∃ last, vk'.Sound last) : ∃ last, (if p then vk else vk').Sound last := by
  split
  next hp => exact h hp
  next hp => exact h' hp

theorem Sound.write8042 (h : vk.Sound last) (val : ULong) : (vk.write8042 val).Sound last := by
  have hstart : Sound { vk with
      statusByte := vk.statusByte ||| KB_STAT_COMMAND, this8042Command := 0 } last :=
    h.congr rfl rfl rfl rfl rfl (status_command _).1
  refine of_ite (fun _ => hstart.vkbdIn _) fun _ => ?_
  refine of_ite (fun _ => hstart.congr rfl rfl rfl rfl rfl rfl) fun _ => ?_
  refine of_ite (fun _ => hstart.vkbdIn _) fun _ => ?_
  refine of_ite (fun _ => hstart.vkbdIn _) fun _ => ?_
  refine of_ite (fun _ => hstart.congr rfl rfl rfl rfl rfl rfl) fun _ => ?_
  refine of_ite (fun _ => hstart.congr rfl rfl rfl rfl rfl rfl) fun _ => ?_
  refine of_ite (fun _ => hstart.vkbdIn _) fun _ => ?_
  refine of_ite (fun _ => hstart.vkbdIn _) fun _ => ?_
  exact of_ite (fun _ => hstart.congr rfl rfl rfl rfl rfl rfl) fun _ => hstart

theorem Sound.write8255 (h : vk.Sound last) (val : ULong) : (vk.write8255 val).Sound last := by
  unfold Vkbd.write8255
  dsimp only
  split_ifs
  · exact h.congr rfl rfl rfl rfl rfl rfl
  · exact h.congr rfl rfl rfl rfl rfl rfl
  · exact h.congr rfl rfl rfl rfl rfl rfl

theorem Sound.doKbdCmd (h : vk.Sound last) (hcan : val = KB_KBD_RESEND → vk.CanResend) :
    ∃ last', (vk.doKbdCmd val).Sound last' := by
  have hstart : Sound { vk with thisKbdCommand := 0 } last := h.congr rfl rfl rfl rfl rfl rfl
  refine exists_sound_ite (fun _ => ⟨last, ?_⟩) fun _ => ?_
  · exact (hstart.vkbdIn _).congr rfl rfl rfl rfl rfl rfl
  refine exists_sound_ite (fun _ => ⟨last, hstart.vkbdIn _⟩) fun _ => ?_
  refine exists_sound_ite (fun _ => ⟨last, (hstart.vkbdIn _).vkbdIn _⟩) fun _ => ?_
  refine exists_sound_ite (fun _ => ⟨_, hstart.vkbdEmpty.vkbdIn _⟩) fun _ => ?_
  refine exists_sound_ite (fun hresend => hstart.vkbdUnout (hcan hresend)) fun _ => ?_
  exact exists_sound_ite (fun _ => ⟨_, (hstart.vkbdEmpty.vkbdIn _).vkbdIn _⟩)
    fun _ => ⟨last, hstart⟩

theorem Sound.readPort (h : vk.Sound last) (port : UShort) (size : ℕ) :
    ∃ last', (vk.readPort port size).2.Sound last' := by
  unfold Vkbd.readPort
  split_ifs with hsize hdata hempty
  · exact ⟨last, h⟩
  · exact ⟨last, h⟩
  · exact ⟨_, h.vkbdOut hempty⟩
  · exact ⟨last, h.congr rfl rfl rfl rfl rfl rfl⟩
  · exact ⟨last, h⟩
  · exact ⟨last, h⟩

/-- The keyboard when a byte for port `0x60` is looked at. -/
def atData (vk : Vkbd) : Vkbd := { vk with statusByte := vk.statusByte &&& ~~~KB_STAT_COMMAND }

theorem Sound.atData (h : vk.Sound last) : vk.atData.Sound last :=
  h.congr rfl rfl rfl rfl rfl (status_command _).2

theorem Sound.writeData (h : vk.Sound last)
    (hok : vk.StepOk (.writePort 0x60 1 val)) : ∃ last', (vk.writeData val).Sound last' := by
  have hstart := h.atData
  refine exists_sound_ite (fun hcommand => ?_) fun hcommand => ?_
  · -- the byte is for the 8042
    refine exists_sound_ite (fun _ => ⟨last, hstart.congr rfl rfl rfl rfl rfl rfl⟩) fun _ => ?_
    refine exists_sound_ite (fun houtput => ⟨last, ?_⟩)
      fun _ => ⟨last, hstart.congr rfl rfl rfl rfl rfl rfl⟩
    have hport := hok.port _ ⟨rfl, rfl, rfl, houtput⟩
    exact ⟨hstart.inPos, hstart.outPos, hstart.queue, hstart.last, hstart.status, hport⟩
  refine exists_sound_ite (fun hkbd => ?_) fun hkbd => ?_
  · -- the byte is for the keyboard command
    refine exists_sound_ite (fun hleds => ?_) fun _ => ?_
    · refine exists_sound_ite (fun _ => hstart.doKbdCmd fun hval => ?_) fun _ => ⟨last, ?_⟩
      · exact hok.resend ⟨rfl, rfl, hval, not_not.mp hcommand, Or.inr hleds⟩
      · have hled : Sound { vk.atData with ledState := val.truncate 8 } last :=
          hstart.congr rfl rfl rfl rfl rfl rfl
        exact (hled.vkbdIn _).congr rfl rfl rfl rfl rfl rfl
    · refine exists_sound_ite (fun _ => ⟨last, ?_⟩)
        fun _ => ⟨last, hstart.congr rfl rfl rfl rfl rfl rfl⟩
      exact (hstart.vkbdIn _).congr rfl rfl rfl rfl rfl rfl
  · exact hstart.doKbdCmd fun hval =>
      hok.resend ⟨rfl, rfl, hval, not_not.mp hcommand, Or.inl (not_not.mp hkbd)⟩

theorem Sound.writePort (h : vk.Sound last) {port : UShort} {size : ℕ}
    (hok : vk.StepOk (.writePort port size val)) :
    ∃ last', (vk.writePort port size val).Sound last' := by
  unfold Vkbd.writePort
  split_ifs with hsize h61 h64 h60
  · exact ⟨last, h⟩
  · exact ⟨last, h.write8255 val⟩
  · exact ⟨last, h.write8042 val⟩
  · obtain rfl : size = 1 := not_not.mp hsize
    subst h60
    exact h.writeData hok
  · exact ⟨last, h⟩

theorem Sound.enterCodes (vkFlags : ULong) (codes : Str) {cooked : Option Str}
    (h : vk.Sound last) : (Vkbd.enterCodes vkFlags cooked codes vk).Sound last := by
  induction codes generalizing vk cooked with
  | nil => exact h
  | cons c codes ih => exact ih (h.vkbdIn _)

theorem Sound.useKey (h : vk.Sound last) (keymap : Keymap) (shiftState : ULong)
    (keyCode upCode : UChar) : (vk.useKey keymap shiftState keyCode upCode).Sound last := by
  have hshift : Sound { vk with shiftState := shiftState } last :=
    h.congr rfl rfl rfl rfl rfl rfl
  unfold Vkbd.useKey
  dsimp only
  have hlock : Sound (if upCode = 0 then
      { vk with
        shiftState := shiftState
        lockState := (CookedKbd.toggleLockState keyCode (vk.lockState.zeroExtend 32)).truncate 8 }
      else { vk with shiftState := shiftState }) last := by
    split
    · exact h.congr rfl rfl rfl rfl rfl rfl
    · exact hshift
  split
  · exact hlock.vkbdIn _
  · split
    · exact hlock.enterCodes _ _
    · exact hlock

theorem Sound.ite {p : Prop} [Decidable p] {vk' : Vkbd} (h : vk.Sound last)
    (h' : vk'.Sound last) : (if p then vk' else vk).Sound last :=
  of_ite (fun _ => h') fun _ => h

theorem Sound.switchFrom (h : vk.Sound last) (shiftState : ULong) :
    (vk.switchFrom shiftState).Sound last := by
  unfold Vkbd.switchFrom
  have h₁ := h.ite (p := shiftState &&& S_LEFT_SHIFT ≠ 0) (h.vkbdIn 0xaa)
  have h₂ := h₁.ite (p := shiftState &&& S_RIGHT_SHIFT ≠ 0) (h₁.vkbdIn 0xb6)
  have h₃ := h₂.ite (p := shiftState &&& S_LEFT_ALT ≠ 0) (h₂.vkbdIn 0xb8)
  have h₄ := h₃.ite (p := shiftState &&& S_RIGHT_ALT ≠ 0) ((h₃.vkbdIn 0xe0).vkbdIn 0xb8)
  have h₅ := h₄.ite (p := shiftState &&& S_LEFT_CTRL ≠ 0) (h₄.vkbdIn 0x9d)
  exact h₅.ite ((h₅.vkbdIn 0xe0).vkbdIn 0x9d)

theorem Sound.switchTo (h : vk.Sound last) (shiftState : ULong) :
    (vk.switchTo shiftState).Sound last := by
  unfold Vkbd.switchTo
  have h₁ := h.ite (p := shiftState &&& S_LEFT_SHIFT ≠ 0) (h.vkbdIn 0x2a)
  have h₂ := h₁.ite (p := shiftState &&& S_RIGHT_SHIFT ≠ 0) (h₁.vkbdIn 0x36)
  have h₃ := h₂.ite (p := shiftState &&& S_LEFT_ALT ≠ 0) (h₂.vkbdIn 0x38)
  have h₄ := h₃.ite (p := shiftState &&& S_RIGHT_ALT ≠ 0) ((h₃.vkbdIn 0xe0).vkbdIn 0x18)
  have h₅ := h₄.ite (p := shiftState &&& S_LEFT_CTRL ≠ 0) (h₄.vkbdIn 0x1d)
  exact h₅.ite ((h₅.vkbdIn 0xe0).vkbdIn 0x1d)

/-- A step that is `StepOk` keeps the queue. -/
theorem Sound.after (h : vk.Sound last) (keymap : Keymap) {op : VkbdOp} (hok : vk.StepOk op) :
    ∃ last', (vk.after keymap op).Sound last' := by
  cases op with
  | key shiftState keyCode upCode => exact ⟨last, h.useKey keymap shiftState keyCode upCode⟩
  | switchFrom shiftState => exact ⟨last, h.switchFrom shiftState⟩
  | switchTo shiftState => exact ⟨last, h.switchTo shiftState⟩
  | readPort port size => exact h.readPort port size
  | writePort port size val => exact h.writePort hok

/-! ## Other steps -/

theorem after_resends (keymap : Keymap) {op : VkbdOp} (h : vk.Resends op) :
    vk.after keymap op = { vk.atData with thisKbdCommand := 0 }.vkbdUnout := by
  cases op with
  | writePort port size val =>
    obtain ⟨rfl, rfl, rfl, hcommand, hkbd⟩ := h
    have hdo : vk.atData.doKbdCmd KB_KBD_RESEND =
        { vk.atData with thisKbdCommand := 0 }.vkbdUnout := rfl
    have hagain : KB_KBD_RESEND &&& 0x80 ≠ 0 := by decide
    show vk.writeData KB_KBD_RESEND = _
    unfold Vkbd.writeData
    dsimp only
    rw [if_neg (not_not.mpr hcommand), ← hdo]
    by_cases hzero : vk.thisKbdCommand = 0
    · rw [if_neg (not_not.mpr hzero)]
      rfl
    · rw [if_pos hzero, if_pos (hkbd.resolve_left hzero), if_pos hagain]
      rfl
  | _ => exact h.elim

theorem after_setsOutputPort (keymap : Keymap) {op : VkbdOp} {value : UChar}
    (h : vk.SetsOutputPort op value) :
    vk.after keymap op = { vk.atData with this8042Command := 0, outputPort := value } := by
  cases op with
  | writePort port size val =>
    obtain ⟨rfl, rfl, rfl, hcommand⟩ := h
    have hne : vk.this8042Command ≠ 0 := by
      intro hzero
      rw [hzero] at hcommand
      exact absurd hcommand (by decide)
    have hother : ¬vk.this8042Command.zeroExtend 32 = KB_8042_WRITE_CMD_BYTE := by
      rw [hcommand]
      decide
    show vk.writeData val = _
    unfold Vkbd.writeData
    dsimp only
    rw [if_pos hne, if_neg hother, if_pos hcommand]
    rfl
  | _ => exact h.elim

/-- A step that keeps the queue is `StepOk`. -/
theorem Sound.stepOk (h : vk.Sound last) (keymap : Keymap) {op : VkbdOp}
    (ho : (vk.after keymap op).Orderly) : vk.StepOk op where
  resend hres := by
    rw [after_resends keymap hres] at ho
    have hstart : Sound { vk.atData with thisKbdCommand := 0 } last :=
      h.atData.congr rfl rfl rfl rfl rfl rfl
    exact hstart.canResend ho
  port value hset := by
    rw [after_setsOutputPort keymap hset] at ho
    exact ho.port

end Vkbd

theorem initVkbd_sound (displayIsMda : Bool) (buf : ℤ → ULong) (shiftState : ULong) :
    (initVkbd displayIsMda buf shiftState).Sound none := by
  have hbounds : (0 : ℤ) ≤ 0 ∧ (0 : ℤ) < 16 := by decide
  have hnil : Vkbd.ringContents buf 0 0 = [] := (Vkbd.ring_eq_nil hbounds hbounds).mpr rfl
  refine ⟨hbounds, hbounds, ?_, nofun, iff_of_false ?_ (not_not.mpr rfl),
    iff_of_false ?_ (not_not.mpr rfl)⟩
  · exact congrArg (fun q => some (q, none)) hnil.symm
  · show ¬(KB_STAT_SYS_FLAG &&& KB_STAT_OUTPUT_FULL ≠ 0)
    decide
  · show ¬(KB_OUTP_INPUT_EMPTY &&& KB_OUTP_OUTPUT_FULL ≠ 0)
    decide

theorem exists_run (keymap : Keymap) (ops : List VkbdOp) (vk : Vkbd) :
    ∃ vk', run (vkbdStep keymap) vk ops = some vk' := by
  induction ops generalizing vk with
  | nil => exact ⟨vk, rfl⟩
  | cons op ops ih => exact ih (vk.after keymap op)

/-- The ring is a queue after every step of a run if and only if every step is `StepOk`. -/
theorem alongOrderly_iff (keymap : Keymap) (displayIsMda : Bool) (buf : ℤ → ULong)
    (shiftState : ULong) (ops : List VkbdOp) :
    Along (vkbdStep keymap) (fun vk op => (vk.after keymap op).Orderly)
        (initVkbd displayIsMda buf shiftState) ops ↔
      Along (vkbdStep keymap) Vkbd.StepOk (initVkbd displayIsMda buf shiftState) ops := by
  obtain ⟨vk', hrun⟩ := exists_run keymap ops (initVkbd displayIsMda buf shiftState)
  refine along_iff (I := fun vk => ∃ last, vk.Sound last) ?_ ?_
    ⟨none, initVkbd_sound displayIsMda buf shiftState⟩ hrun
  · rintro vk op _ ⟨last, h⟩ -
    refine ⟨h.stepOk keymap, fun hok => ?_⟩
    obtain ⟨last', h'⟩ := h.after keymap hok
    exact h'.orderly
  · rintro vk op _ ⟨last, h⟩ hok ⟨⟩
    exact h.after keymap hok

/-- A resend before anything was read. -/
theorem earlyResend_not_orderly :
    ¬∀ (keymap : Keymap) (displayIsMda : Bool) (buf : ℤ → ULong) (shiftState : ULong)
      (ops : List VkbdOp), Along (vkbdStep keymap) (fun vk op => (vk.after keymap op).Orderly)
        (initVkbd displayIsMda buf shiftState) ops := by
  intro h
  have horderly := (h (fun _ => none) false (fun _ => 0) 0 [.writePort 0x60 1 KB_KBD_RESEND]).1
  exact absurd horderly.outPos.1 (by decide)

end Vmm386.VkbdModule
