import Vmm386.Vpit.PitTheorems

/-!
# Programming the heartbeat

What the writes to the channel 0 leave it in, from any state before them, and when the IRQ 0 comes
after the last one.
-/

namespace Vmm386.Vpit

open Pit

namespace Program

variable (pr : Program) {p s : Pit}

/-! ## The control word -/

theorem hasHigh (h : ¬pr.HasLow) : pr.HasHigh := by
  intro hhigh
  have hor : pr.command &&& PIT_CMD_LATCH =
      (pr.command &&& PIT_CMD_LATCH_LSB) ||| (pr.command &&& PIT_CMD_LATCH_MSB) :=
    BitVec.and_or_distrib_left (y := PIT_CMD_LATCH_LSB) (z := PIT_CMD_LATCH_MSB)
  apply pr.access
  rw [hor, not_not.mp h, hhigh]
  rfl

theorem zeroExtend_and (c mask : UChar) :
    (c.zeroExtend 32 : ULong) &&& mask.zeroExtend 32 = (c &&& mask).zeroExtend 32 :=
  BitVec.setWidth_and.symm

/-- The control word is for the channel 0. -/
theorem outCommand (p : Pit) :
    p.outCommand (pr.command.zeroExtend 32) = p.setChannel 0 { p.channels 0 with
      command := pr.command
      latchState := if pr.HasLow then .counterLow else .counterHigh } := by
  have hzero : (pr.command.zeroExtend 32 : ULong) &&& 0xc0 = 0 := by
    have h := zeroExtend_and pr.command PIT_CMD_CHANNEL
    rw [pr.channel] at h
    exact h
  have hselect : ((pr.command.zeroExtend 32 : ULong) >>> 6) &&& 3 = 0 := by
    have h := BitVec.ushiftRight_and_distrib (pr.command.zeroExtend 32 : ULong) 0xc0 6
    rw [hzero] at h
    exact h.symm
  have hcommand : (pr.command.zeroExtend 32 : ULong).truncate 8 = pr.command :=
    BitVec.setWidth_setWidth_of_le _ (by decide) |>.trans (BitVec.setWidth_eq _)
  rw [Pit.outCommand, if_neg (by rw [hzero]; decide), hselect, hcommand]
  dsimp only
  have hlatch : (if pr.command &&& PIT_CMD_LATCH_LSB ≠ 0 then LatchState.counterLow
      else if pr.command &&& PIT_CMD_LATCH_MSB ≠ 0 then .counterHigh else .counterLow) =
      if pr.HasLow then .counterLow else .counterHigh := by
    by_cases hlow : pr.HasLow
    · exact (if_pos hlow).trans (if_pos hlow).symm
    · exact ((if_neg hlow).trans (if_pos (pr.hasHigh hlow))).trans (if_neg hlow).symm
  rw [if_neg pr.access, hlatch]
  rfl

/-! ## The bytes -/

theorem withHigh_divisor (chan : Channel) (b : UChar) :
    (withHigh chan (b.zeroExtend 32)).divisor = b ++ (chan.divisor.truncate 8 : UChar) := by
  change (chan.divisor &&& BitVec.ofNat 16 (2 ^ 8 - 1)) |||
    ((b.zeroExtend 32 : ULong) <<< 8).truncate 16 = _
  apply BitVec.eq_of_getLsbD_eq
  intro i hi
  rw [BitVec.getLsbD_append, BitVec.getLsbD_or, BitVec.getLsbD_and, BitVec.getLsbD_ofNat,
    Nat.testBit_two_pow_sub_one]
  by_cases h : i < 8
  · simp [h, hi]
  · simp [h, hi]

theorem withLow_divisor (chan : Channel) (b : UChar) :
    (withLow chan (b.zeroExtend 32)).divisor = ((chan.divisor >>> 8).truncate 8 : UChar) ++ b := by
  have hmask : (0xff00 : UShort) = ~~~BitVec.ofNat 16 (2 ^ 8 - 1) := by decide
  have hlow : (0xff : ULong) = BitVec.ofNat 32 (2 ^ 8 - 1) := rfl
  unfold withLow
  dsimp only
  rw [hlow]
  apply BitVec.eq_of_getLsbD_eq
  intro i hi
  rw [hmask, BitVec.getLsbD_append, BitVec.getLsbD_or, BitVec.getLsbD_and, BitVec.getLsbD_not,
    BitVec.getLsbD_ofNat, Nat.testBit_two_pow_sub_one, BitVec.truncate_eq_setWidth,
    BitVec.getLsbD_setWidth, BitVec.getLsbD_and, BitVec.getLsbD_ofNat, Nat.testBit_two_pow_sub_one]
  by_cases h : i < 8
  · have h' : i < 32 := by omega
    simp [h, hi, h']
  · have h' : i - 8 < 8 := by omega
    have hsum : 8 + (i - 8) = i := by omega
    simp [h, hi, h', hsum]

/-- The divisor after the last byte: a byte that is not written stays. -/
def left (div : UShort) : UShort :=
  (if pr.HasHigh then pr.high else (div >>> 8).truncate 8) ++
    (if pr.HasLow then pr.low else div.truncate 8)

/-- The state before the last byte. -/
structure Ready (s : Pit) : Prop where
  inv : s.Inv
  command : (s.channels 0).command = pr.command
  latch : (s.channels 0).latchState = if pr.HasHigh then .counterHigh else .counterLow
  low : pr.HasLow → pr.HasHigh → (s.channels 0).divisor.truncate 8 = pr.low

/-- The times are right: a high byte finds the new interval in place before, and a low byte alone
the timer started in time; in a periodic mode, the byte that stays makes no difference. -/
def InTime (s : Pit) : Prop :=
  (if pr.HasHigh then (s.channels 0).intervalTicks.toNat = pr.period
    else s.alarms.due () = some (s.alarms.now + pr.period)) ∧
  (pr.Periodic → (calcDivisorTicks (pr.left (s.channels 0).divisor)).toNat = pr.period)

theorem step_counter (p : Pit) (val : ULong) :
    p.step (.output 0x40 1 val) = p.outCounter 0 val := rfl

theorem step_command (p : Pit) (val : ULong) :
    p.step (.output 0x43 1 val) = p.outCommand val := rfl

theorem run_append (p : Pit) (ops ops' : List PitOp) : p.run (ops ++ ops') = (p.run ops).run ops' :=
  List.foldl_append ..

theorem calculated_channel (p : Pit) : (p.calculated 0).channels 0 =
    { p.channels 0 with
      intervalTicks := (calcDivisorTicks (p.channels 0).divisor).truncate 16
      startTicks := p.ticks } :=
  setChannel_self ..

theorem truncate_append (a b : UChar) : ((a ++ b : UShort).truncate 8 : UChar) = b := by
  apply BitVec.eq_of_getLsbD_eq
  intro i hi
  rw [BitVec.truncate_eq_setWidth, BitVec.getLsbD_setWidth, BitVec.getLsbD_append]
  simp [hi]

/-- Whatever was programmed before, the channel then waits for the last byte. -/
theorem ready (hp : p.Inv) : pr.Ready (p.run pr.start) := by
  have hidle : ∀ op ∈ pr.idle, op.Elsewhere := fun op hop =>
    pr.elsewhere op (List.mem_append_left _ hop)
  have hidle' : ∀ op ∈ pr.idle', op.Elsewhere := fun op hop =>
    pr.elsewhere op (List.mem_append_right _ hop)
  have hinv : (p.run pr.start).Inv := hp.run _
  have hq : ((p.outCommand (pr.command.zeroExtend 32)).run pr.idle).channels 0 =
      { p.channels 0 with
        command := pr.command
        latchState := if pr.HasLow then .counterLow else .counterHigh } := by
    rw [run_channel _ hidle, pr.outCommand, setChannel_self]
  have hstart : p.run pr.start =
      ((p.outCommand (pr.command.zeroExtend 32)).run pr.idle).run
        (if pr.HasLow ∧ pr.HasHigh then .output 0x40 1 (pr.low.zeroExtend 32) :: pr.idle' else []) :=
    run_append (p.outCommand (pr.command.zeroExtend 32)) _ _
  by_cases hboth : pr.HasLow ∧ pr.HasHigh
  · rw [if_pos hboth.1] at hq
    have hr : (p.run pr.start).channels 0 = (((p.outCommand (pr.command.zeroExtend 32)).run
        pr.idle).outCounter 0 (pr.low.zeroExtend 32)).channels 0 := by
      rw [hstart, if_pos hboth]
      exact run_channel _ hidle'
    rw [outCounter_low (by rw [hq]), calculated_channel, setChannel_self, hq] at hr
    refine ⟨hinv, by rw [hr]; rfl, ?_, fun _ _ => ?_⟩
    · rw [hr, if_pos hboth.2]
      exact if_pos hboth.2
    · rw [hr]
      refine (congrArg (BitVec.truncate 8) (withLow_divisor _ pr.low)).trans (truncate_append _ _)
  · rw [if_neg hboth] at hstart
    have hr : (p.run pr.start).channels 0 = _ := (congrArg (fun p : Pit => p.channels 0) hstart).trans hq
    refine ⟨hinv, by rw [hr], ?_, fun hlow hhigh => absurd ⟨hlow, hhigh⟩ hboth⟩
    rw [hr]
    by_cases hlow : pr.HasLow
    · rw [if_pos hlow, if_neg fun hhigh => hboth ⟨hlow, hhigh⟩]
    · rw [if_neg hlow, if_pos (pr.hasHigh hlow)]

/-! ## The last byte -/

/-- The channel 0 after the last byte. -/
theorem Ready.channel (h : pr.Ready s) :
    Beating ((s.step pr.last).channels 0) ∧
      ((s.step pr.last).channels 0).intervalTicks.toNat =
        (calcDivisorTicks (pr.left (s.channels 0).divisor)).toNat := by
  have hlatch := h.latch
  rw [last, step_counter]
  by_cases hhigh : pr.HasHigh
  · rw [if_pos hhigh] at hlatch
    rw [if_pos hhigh, outCounter_high hlatch, if_pos rfl, calculated_channel,
      startTimer_channels, setChannel_self, toNat_interval, withHigh_divisor]
    refine ⟨?_, ?_⟩
    · unfold Beating withHigh
      rw [h.command]
      exact pr.mode
    · rw [left, if_pos hhigh]
      by_cases hlow : pr.HasLow
      · rw [if_pos hlow, h.low hlow hhigh]
      · rw [if_neg hlow]
  · have hlow : pr.HasLow := not_not.mp fun hc => hhigh (pr.hasHigh hc)
    rw [if_neg hhigh] at hlatch
    rw [if_neg hhigh, outCounter_low hlatch, calculated_channel, setChannel_self, toNat_interval,
      withLow_divisor, left, if_neg hhigh, if_pos hlow]
    refine ⟨?_, rfl⟩
    unfold Beating withLow
    rw [h.command]
    exact pr.mode

/-- The alarm after the last byte. -/
theorem Ready.alarm (h : pr.Ready s) :
    (s.step pr.last).alarms.now = s.alarms.now ∧
      (s.step pr.last).alarms.due () =
        if pr.HasHigh then some (s.alarms.now + (s.channels 0).intervalTicks.toNat)
        else s.alarms.due () := by
  have hlatch := h.latch
  rw [last, step_counter]
  by_cases hhigh : pr.HasHigh
  · rw [if_pos hhigh] at hlatch
    rw [if_pos hhigh, if_pos hhigh, outCounter_high hlatch, if_pos rfl]
    have hb : Beating ((s.setChannel 0 (withHigh (s.channels 0)
        (pr.high.zeroExtend 32))).channels 0) := by
      rw [setChannel_self]
      unfold Beating withHigh
      rw [h.command]
      exact pr.mode
    have hpos : 0 < ((s.setChannel 0 (withHigh (s.channels 0)
        (pr.high.zeroExtend 32))).channels 0).intervalTicks.toNat := by
      rw [setChannel_self]
      exact h.inv.interval_pos
    rw [startTimer_of_beating hb hpos, setChannel_self]
    exact ⟨rfl, rfl⟩
  · rw [if_neg hhigh] at hlatch
    rw [if_neg hhigh, if_neg hhigh, outCounter_low hlatch]
    exact ⟨rfl, rfl⟩

theorem period_pos : 0 < pr.period := by
  have := (toNat_calcDivisorTicks pr.divisor).1
  unfold period
  omega

/-- The channel beats in time if the times are right, and only then. -/
theorem Ready.beats_iff (h : pr.Ready s) :
    (s.step pr.last).Beats pr.period pr.Periodic ↔ pr.InTime s := by
  obtain ⟨hb, hinterval⟩ := h.channel
  obtain ⟨hnow, hdue⟩ := h.alarm
  have hinv := h.inv.step pr.last
  have hnext : ∀ w, (s.step pr.last).alarms.due () = some w →
      ((s.step pr.last).Beats pr.period pr.Periodic ↔ w = s.alarms.now + pr.period ∧
        (pr.Periodic → (calcDivisorTicks (pr.left (s.channels 0).divisor)).toNat = pr.period)) := by
    intro w hw
    have hn : (s.step pr.last).Next _ w := ⟨hinv, hb, hinterval, hw⟩
    constructor
    · intro hbeats
      rw [← hnow]
      exact hn.of_beats hbeats
    · rintro ⟨rfl, hm⟩
      rw [← hnow] at hn
      exact hn.beats pr.period_pos hm
  unfold InTime
  by_cases hhigh : pr.HasHigh
  · rw [if_pos hhigh] at hdue
    rw [if_pos hhigh, hnext _ hdue, Nat.add_left_cancel_iff]
  · rw [if_neg hhigh] at hdue
    rw [if_neg hhigh]
    cases hs : s.alarms.due () with
    | none =>
      rw [hs] at hdue
      exact iff_of_false (not_beats_silent hinv hdue _) (fun hc => nomatch hc.1)
    | some w =>
      rw [hs] at hdue
      rw [hnext w hdue, Option.some.injEq]

end Program

/-- **The heartbeat is right only by chance**: whatever the timer went through before. -/
theorem heartbeat_iff (now : ℕ) (earlier : List PitOp) (pr : Program) :
    (((create now).run (earlier ++ pr.start)).step pr.last).Beats pr.period pr.Periodic ↔
      pr.InTime ((create now).run (earlier ++ pr.start)) := by
  rw [Program.run_append]
  exact (pr.ready ((inv_create now).run earlier)).beats_iff

/-- Mode 3 with the divisor 0x1000. -/
def fastBeat : Program where
  command := 0x36
  idle := []
  low := 0x00
  idle' := []
  high := 0x10
  channel := rfl
  access := by decide
  mode := by decide
  elsewhere := nofun

/-- The timer of a new machine is started with the old 56 ticks, not with 5. -/
theorem fastBeat_late : ¬∀ (now : ℕ) (earlier : List PitOp) (pr : Program),
    (((create now).run (earlier ++ pr.start)).step pr.last).Beats pr.period pr.Periodic := by
  intro hall
  have hready := fastBeat.ready (inv_create 0)
  have hintime := (hready.beats_iff).mp (hall 0 [] fastBeat)
  exact absurd hintime.1 (by decide)

end Vmm386.Vpit
