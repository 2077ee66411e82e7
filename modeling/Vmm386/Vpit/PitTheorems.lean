import Mathlib.Data.List.Induction
import Vmm386.Vpit.Pit

/-!
# The heartbeat

The timer is started when a high byte is written, before the interval is calculated from it, and
never for a low byte. So the next IRQ 0 comes in time only where the old interval happens to be the
new one, or where the timer that runs has the right number of ticks left.
-/

namespace Vmm386.Vpit

theorem toNat_getDivisor_le (div : UShort) : (getDivisor div).toNat ≤ 65536 := by
  unfold getDivisor
  split_ifs
  · decide
  · rw [BitVec.toNat_setWidth]
    exact (Nat.mod_le _ _).trans div.isLt.le

/-- An interval has 5 ticks at least, and fits into a `u_short`. -/
theorem toNat_calcDivisorTicks (div : UShort) :
    5 ≤ (calcDivisorTicks div).toNat ∧ (calcDivisorTicks div).toNat < 65536 := by
  have hle := toNat_getDivisor_le div
  have hmul : (1024 * getDivisor div / 1193180 : ULong).toNat =
      1024 * (getDivisor div).toNat / 1193180 := by
    rw [BitVec.toNat_udiv, BitVec.toNat_mul]
    show 1024 * (getDivisor div).toNat % 2 ^ 32 / 1193180 = _
    rw [Nat.mod_eq_of_lt (by omega)]
  unfold calcDivisorTicks
  dsimp only
  split_ifs with h
  · exact ⟨by decide, by decide⟩
  · have hge : (5 : ULong).toNat ≤ (1024 * getDivisor div / 1193180 : ULong).toNat :=
      BitVec.not_lt.mp h
    refine ⟨hge, ?_⟩
    rw [hmul]
    omega

theorem toNat_interval (div : UShort) :
    ((calcDivisorTicks div).truncate 16 : UShort).toNat = (calcDivisorTicks div).toNat := by
  rw [BitVec.truncate_eq_setWidth, BitVec.toNat_setWidth]
  exact Nat.mod_eq_of_lt (toNat_calcDivisorTicks div).2

namespace Pit

variable {p q : Pit} {m n w : ℕ} {op : PitOp} {ops : List PitOp}

/-! ## The timer -/

/-- A channel whose timer `start_timer` starts. -/
def Beating (chan : Channel) : Prop :=
  chan.command &&& PIT_CMD_MODE = PIT_CMD_MODE0 ∨ chan.command &&& PIT_CMD_MODE = PIT_CMD_MODE2 ∨
    chan.command &&& PIT_CMD_MODE = PIT_CMD_MODE3

theorem update_unit (f : Unit → Option ℕ) (x : Option ℕ) : Function.update f () x = fun _ => x :=
  funext fun _ => Function.update_self ..

theorem after_added (a : Alarms Unit) (hn : 0 < n) :
    a.after (.added () n) = { a with due := fun _ => some (a.now + n) } := by
  have hmax : max (a.now + n) a.next = a.now + n := by
    unfold Alarms.next
    split_ifs <;> omega
  simp only [Alarms.after, update_unit, hmax]

theorem startTimer_of_beating (h : Beating (p.channels 0))
    (hpos : 0 < (p.channels 0).intervalTicks.toNat) :
    p.startTimer = { p with
      alarms := { p.alarms with
        due := fun _ => some (p.alarms.now + (p.channels 0).intervalTicks.toNat) }
      timerTicking := true } := by
  refine (if_pos h).trans ?_
  dsimp only
  rw [after_added _ hpos]
  split_ifs <;> rfl

theorem startTimer_of_not (h : ¬Beating (p.channels 0)) : p.startTimer = p := if_neg h

/-- The alarm is to come, and set if the timer ticks. -/
structure Timed (p : Pit) : Prop where
  finished : p.alarms.ringing = false
  timely : ∀ t, p.alarms.due () = some t → p.alarms.now < t
  ticking : p.timerTicking = (p.alarms.due ()).isSome

theorem Timed.startTimer (h : p.Timed) (hpos : 0 < (p.channels 0).intervalTicks.toNat) :
    p.startTimer.Timed := by
  by_cases hb : Beating (p.channels 0)
  · rw [startTimer_of_beating hb hpos]
    refine ⟨h.finished, fun t ht => ?_, rfl⟩
    change p.alarms.now < t
    rw [← Option.some.inj ht]
    exact Nat.lt_add_of_pos_right hpos
  · rw [startTimer_of_not hb]
    exact h

/-- Between two steps. -/
structure Inv (p : Pit) : Prop extends Timed p where
  interval : (p.channels 0).intervalTicks =
    (calcDivisorTicks (p.channels 0).divisor).truncate 16

theorem Inv.interval_pos (h : p.Inv) : 0 < (p.channels 0).intervalTicks.toNat := by
  rw [h.interval, toNat_interval]
  have := toNat_calcDivisorTicks (p.channels 0).divisor
  omega

/-- The state in which `vpit_timer_handler` calls `start_timer`. -/
def fired (p : Pit) : Pit :=
  { p with
    alarms := { now := p.alarms.now + 1, ringing := true, due := fun _ => none }
    timerTicking := false
    irqs := (p.alarms.now + 1) :: p.irqs }

/-- A tick at which the timer is not due. -/
theorem tick_of_ne (h : p.alarms.due () ≠ some (p.alarms.now + 1)) :
    p.tick = { p with alarms := { p.alarms with now := p.alarms.now + 1, ringing := false } } :=
  congrArg (fun p : Pit => { p with alarms := p.alarms.after .finished }) (if_neg h)

/-- A tick at which it is due. -/
theorem tick_of_eq (h : p.alarms.due () = some (p.alarms.now + 1)) :
    p.tick = { p.fired.startTimer with
      alarms := { p.fired.startTimer.alarms with ringing := false } } := by
  have hfired : Alarms.after { p.alarms with now := p.alarms.now + 1, ringing := true }
      (.fired ()) = p.fired.alarms := congrArg (Alarms.mk _ _) (update_unit ..)
  refine (congrArg (fun p : Pit => { p with alarms := p.alarms.after .finished })
    (if_pos h)).trans ?_
  change (fun p : Pit => { p with alarms := p.alarms.after .finished })
    (startTimer { p with
      alarms := Alarms.after { p.alarms with now := p.alarms.now + 1, ringing := true } (.fired ())
      timerTicking := false
      irqs := (p.alarms.now + 1) :: p.irqs }) = _
  rw [hfired]
  rfl

theorem startTimer_channels (p : Pit) : p.startTimer.channels = p.channels := by
  unfold startTimer
  dsimp only
  split_ifs <;> rfl

theorem tick_channels (p : Pit) : p.tick.channels = p.channels := by
  by_cases h : p.alarms.due () = some (p.alarms.now + 1)
  · rw [tick_of_eq h]
    exact startTimer_channels p.fired
  · rw [tick_of_ne h]

theorem Timed.tick (h : p.Timed) (hpos : 0 < (p.channels 0).intervalTicks.toNat) :
    p.tick.Timed := by
  by_cases hdue : p.alarms.due () = some (p.alarms.now + 1)
  · rw [tick_of_eq hdue]
    by_cases hb : Beating (p.channels 0)
    · rw [startTimer_of_beating (p := p.fired) hb hpos]
      refine ⟨rfl, fun t ht => ?_, rfl⟩
      change p.alarms.now + 1 < t
      rw [← Option.some.inj ht]
      exact Nat.lt_add_of_pos_right hpos
    · rw [startTimer_of_not (p := p.fired) hb]
      exact ⟨rfl, nofun, rfl⟩
  · rw [tick_of_ne hdue]
    refine ⟨rfl, fun t ht => ?_, h.ticking⟩
    have hlt := h.timely t ht
    have hne : t ≠ p.alarms.now + 1 := fun heq => hdue (ht.trans (congrArg some heq))
    change p.alarms.now + 1 < t
    omega

/-! ## Any step -/

theorem setChannel_self (k : ℕ) (chan : Channel) : (p.setChannel k chan).channels k = chan :=
  Function.update_self ..

theorem Timed.setChannel (h : p.Timed) (k : ℕ) (chan : Channel) : (p.setChannel k chan).Timed :=
  ⟨h.finished, h.timely, h.ticking⟩

theorem Inv.setChannel (h : p.Inv) {k : ℕ} {chan : Channel}
    (hchan : k = 0 → chan.intervalTicks = (calcDivisorTicks chan.divisor).truncate 16) :
    (p.setChannel k chan).Inv := by
  refine ⟨h.toTimed.setChannel k chan, ?_⟩
  by_cases hk : k = 0
  · subst hk
    rw [setChannel_self]
    exact hchan rfl
  · have hzero : (p.setChannel k chan).channels 0 = p.channels 0 :=
      Function.update_of_ne (Ne.symm hk) ..
    rw [hzero]
    exact h.interval

/-- Another latch state. -/
theorem Inv.setLatch (h : p.Inv) (k : ℕ) (latch : LatchState) :
    (p.setChannel k { p.channels k with latchState := latch }).Inv := by
  apply h.setChannel
  intro hk
  subst hk
  exact h.interval

/-- A channel with a new low byte. -/
def withLow (chan : Channel) (val : ULong) : Channel :=
  { chan with
    divisor := (chan.divisor &&& (0xff00 : UShort)) ||| (val &&& 0xff).truncate 16
    latchState := if chan.command &&& PIT_CMD_LATCH_MSB ≠ 0 then .counterHigh else chan.latchState }

/-- A channel with a new high byte. -/
def withHigh (chan : Channel) (val : ULong) : Channel :=
  { chan with
    divisor := (chan.divisor &&& (0x00ff : UShort)) ||| (val <<< 8).truncate 16
    latchState := if chan.command &&& PIT_CMD_LATCH_LSB ≠ 0 then .counterLow else chan.latchState }

/-- The state with the interval of a channel calculated. -/
def calculated (p : Pit) (port : ℕ) : Pit :=
  p.setChannel port { p.channels port with
    intervalTicks := (calcDivisorTicks (p.channels port).divisor).truncate 16
    startTicks := p.ticks }

theorem outCounter_low {port : ℕ} (h : (p.channels port).latchState = .counterLow) (val : ULong) :
    p.outCounter port val =
      (p.setChannel port (withLow (p.channels port) val)).calculated port := by
  rw [outCounter, h]
  dsimp only
  rw [calculated, withLow, h]

theorem outCounter_high {port : ℕ} (h : (p.channels port).latchState = .counterHigh)
    (val : ULong) :
    p.outCounter port val =
      (if port = 0 then (p.setChannel port (withHigh (p.channels port) val)).startTimer
        else p.setChannel port (withHigh (p.channels port) val)).calculated port := by
  rw [outCounter, h]
  dsimp only
  rw [calculated, withHigh, h]

theorem outCounter_status {port : ℕ} (h : (p.channels port).latchState = .status) (val : ULong) :
    p.outCounter port val = p.calculated port := by
  rw [outCounter, h]
  rfl

theorem Timed.calculated (h : p.Timed) : (p.calculated 0).Inv :=
  ⟨h.setChannel _ _, by rw [Pit.calculated, setChannel_self]⟩

theorem Inv.calculated (h : p.Inv) (port : ℕ) : (p.calculated port).Inv :=
  h.setChannel fun _ => rfl

theorem Inv.outCounter (h : p.Inv) (port : ℕ) (val : ULong) : (p.outCounter port val).Inv := by
  cases hlatch : (p.channels port).latchState with
  | counterLow =>
    rw [outCounter_low hlatch]
    by_cases hport : port = 0
    · subst hport
      exact (h.toTimed.setChannel _ _).calculated
    · exact (h.setChannel (absurd · hport)).calculated port
  | counterHigh =>
    rw [outCounter_high hlatch]
    by_cases hport : port = 0
    · subst hport
      rw [if_pos rfl]
      refine ((h.toTimed.setChannel _ _).startTimer ?_).calculated
      rw [setChannel_self]
      exact h.interval_pos
    · rw [if_neg hport]
      exact (h.setChannel (absurd · hport)).calculated port
  | status =>
    rw [outCounter_status hlatch]
    exact h.calculated port

theorem Inv.readBack (h : p.Inv) (val bit : ULong) (k : ℕ) : (p.readBack val bit k).Inv := by
  unfold Pit.readBack
  split_ifs
  · exact h.setLatch _ _
  · exact h.setLatch _ _
  · exact h

theorem Inv.outCommand (h : p.Inv) (val : ULong) : (p.outCommand val).Inv := by
  unfold Pit.outCommand
  dsimp only
  split_ifs
  · exact ((h.readBack _ _ _).readBack _ _ _).readBack _ _ _
  · exact h.setLatch _ _
  all_goals
    apply h.setChannel
    intro hk
    rw [hk]
    exact h.interval

/-- A read changes the latch state at most. -/
theorem inCounter_snd (p : Pit) (port : ℕ) : ∃ latch, (p.inCounter port).2 =
    p.setChannel port { p.channels port with latchState := latch } := by
  unfold inCounter
  dsimp only
  split
  · exact ⟨_, rfl⟩
  · exact ⟨_, rfl⟩
  · exact ⟨_, rfl⟩

theorem Inv.inCounter (h : p.Inv) (port : ℕ) : (p.inCounter port).2.Inv := by
  obtain ⟨latch, hlatch⟩ := p.inCounter_snd port
  rw [hlatch]
  exact h.setLatch _ _

/-- Every step keeps the invariant. -/
theorem Inv.step (h : p.Inv) (op : PitOp) : (p.step op).Inv := by
  cases op with
  | tick =>
    refine ⟨h.toTimed.tick h.interval_pos, ?_⟩
    change (p.tick.channels 0).intervalTicks =
      (calcDivisorTicks (p.tick.channels 0).divisor).truncate 16
    rw [tick_channels]
    exact h.interval
  | output port size val =>
    change (p.vpitOut port size val).Inv
    unfold Pit.vpitOut
    split_ifs
    · exact h
    · exact h.outCounter _ _
    · exact h.outCommand _
    · exact h
  | input port size =>
    change (p.vpitIn port size).2.Inv
    unfold Pit.vpitIn
    split_ifs
    · exact h
    · exact h.inCounter _
    · exact h
    · exact h

theorem Inv.run (h : p.Inv) (ops : List PitOp) : (p.run ops).Inv := by
  induction ops generalizing p with
  | nil => exact h
  | cons op ops ih => exact ih (h.step op)

theorem inv_create (now : ℕ) : (create now).Inv := by
  have hpos : 0 < ((calcDivisorTicks 0).truncate 16 : UShort).toNat := by decide
  unfold create
  refine ⟨Timed.startTimer ⟨rfl, nofun, rfl⟩ hpos, ?_⟩
  rw [startTimer_channels]
  rfl

/-! ## Other channels -/

/-- The states differ in the other channels only. -/
def Aside (p q : Pit) : Prop := ∃ c, q = { p with channels := c } ∧ c 0 = p.channels 0

theorem Aside.refl (p : Pit) : p.Aside p := ⟨p.channels, rfl, rfl⟩

theorem Aside.trans {r : Pit} (h : p.Aside q) (h' : q.Aside r) : p.Aside r := by
  obtain ⟨c, rfl, hc⟩ := h
  obtain ⟨c', rfl, hc'⟩ := h'
  exact ⟨c', rfl, hc'.trans hc⟩

theorem Aside.setChannel {k : ℕ} (hk : k ≠ 0) (p : Pit) (chan : Channel) :
    p.Aside (p.setChannel k chan) :=
  ⟨_, rfl, Function.update_of_ne hk.symm ..⟩

theorem Aside.outCounter {k : ℕ} (hk : k ≠ 0) (p : Pit) (val : ULong) :
    p.Aside (p.outCounter k val) := by
  cases hlatch : (p.channels k).latchState with
  | counterLow =>
    rw [outCounter_low hlatch]
    exact (Aside.setChannel hk _ _).trans (Aside.setChannel hk _ _)
  | counterHigh =>
    rw [outCounter_high hlatch, if_neg hk]
    exact (Aside.setChannel hk _ _).trans (Aside.setChannel hk _ _)
  | status =>
    rw [outCounter_status hlatch]
    exact Aside.setChannel hk _ _

theorem Aside.readBack {k : ℕ} (hk : k ≠ 0) (p : Pit) (val bit : ULong) :
    p.Aside (p.readBack val bit k) := by
  unfold Pit.readBack
  split_ifs
  · exact Aside.setChannel hk _ _
  · exact Aside.setChannel hk _ _
  · exact Aside.refl p

theorem Aside.outCommand {val : ULong}
    (h : if val &&& PIT_CMD_READ_BACK = PIT_CMD_READ_BACK then val &&& 0x02 = 0
      else ((val >>> 6) &&& 3).toNat ≠ 0) (p : Pit) : p.Aside (p.outCommand val) := by
  unfold Pit.outCommand
  by_cases hback : val &&& PIT_CMD_READ_BACK = PIT_CMD_READ_BACK
  · rw [if_pos hback] at h ⊢
    have hzero : p.readBack val 0x02 0 = p := if_neg (not_not.mpr h)
    rw [hzero]
    exact (Aside.readBack (by decide) _ _ _).trans (Aside.readBack (by decide) _ _ _)
  · rw [if_neg hback] at h ⊢
    dsimp only
    split_ifs <;> exact Aside.setChannel h _ _

/-- Its number selects the channel, and 0x40 is the port of the channel 0. -/
theorem port_ne {port : UShort} (hport : port = 0x40 ∨ port = 0x41 ∨ port = 0x42)
    (hne : port ≠ 0x40) : (port &&& 3).toNat ≠ 0 := by
  rcases hport with rfl | rfl | rfl
  · exact absurd rfl hne
  · decide
  · decide

/-- A step elsewhere that is not a tick. -/
theorem step_aside (p : Pit) (h : op.Elsewhere) (htick : op ≠ .tick) : p.Aside (p.step op) := by
  cases op with
  | tick => exact absurd rfl htick
  | output port size val =>
    change p.Aside (p.vpitOut port size val)
    unfold Pit.vpitOut
    by_cases hsize : size ≠ 1
    · rw [if_pos hsize]
      exact Aside.refl p
    · obtain ⟨hne, hcommand⟩ := h.resolve_left hsize
      rw [if_neg hsize]
      by_cases hport : port = 0x40 ∨ port = 0x41 ∨ port = 0x42
      · rw [if_pos hport]
        exact Aside.outCounter (port_ne hport hne) _ _
      · rw [if_neg hport]
        by_cases hcmd : port = 0x43
        · rw [if_pos hcmd]
          exact Aside.outCommand (hcommand hcmd) p
        · rw [if_neg hcmd]
          exact Aside.refl p
  | input port size =>
    change p.Aside (p.vpitIn port size).2
    unfold Pit.vpitIn
    by_cases hsize : size ≠ 1
    · rw [if_pos hsize]
      exact Aside.refl p
    · rw [if_neg hsize]
      by_cases hport : port = 0x40 ∨ port = 0x41 ∨ port = 0x42
      · rw [if_pos hport]
        obtain ⟨latch, hlatch⟩ := p.inCounter_snd (port &&& 3).toNat
        rw [hlatch]
        exact Aside.setChannel (port_ne hport (h.resolve_left hsize)) _ _
      · rw [if_neg hport]
        split_ifs <;> exact Aside.refl p

/-- The channel 0 is left alone. -/
theorem run_channel (p : Pit) (h : ∀ op ∈ ops, op.Elsewhere) :
    (p.run ops).channels 0 = p.channels 0 := by
  induction ops generalizing p with
  | nil => rfl
  | cons op ops ih =>
    have hstep : (p.step op).channels 0 = p.channels 0 := by
      by_cases htick : op = .tick
      · subst htick
        exact congrFun p.tick_channels 0
      · obtain ⟨c, hc, hzero⟩ := p.step_aside (h op (List.mem_cons_self ..)) htick
        rw [hc]
        exact hzero
    exact (ih (p.step op) fun op hop => h op (List.mem_cons_of_mem _ hop)).trans hstep

/-! ## Beats -/

/-- The channel 0 beats: next at the tick `w`, and every `m` ticks. -/
structure Next (p : Pit) (m w : ℕ) : Prop where
  inv : p.Inv
  beating : Beating (p.channels 0)
  interval : (p.channels 0).intervalTicks.toNat = m
  due : p.alarms.due () = some w

theorem Next.now_lt (h : p.Next m w) : p.alarms.now < w := h.inv.timely w h.due

theorem Next.pos (h : p.Next m w) : 0 < m := h.interval ▸ h.inv.interval_pos

theorem Next.aside (h : p.Next m w) (hq : p.Aside q) (hinv : q.Inv) : q.Next m w := by
  obtain ⟨c, rfl, hc⟩ := hq
  refine ⟨hinv, ?_, ?_, h.due⟩
  · change Beating (c 0)
    rw [hc]
    exact h.beating
  · change (c 0).intervalTicks.toNat = m
    rw [hc]
    exact h.interval

/-- A tick: it beats, or the time has not come. -/
theorem Next.tick (h : p.Next m w) :
    p.tick.alarms.now = p.alarms.now + 1 ∧
      if w = p.alarms.now + 1 then p.tick.Next m (w + m) ∧ p.tick.irqs = w :: p.irqs
      else p.tick.Next m w ∧ p.tick.irqs = p.irqs := by
  have hinv : p.tick.Inv := h.inv.step .tick
  have hchannel : p.tick.channels 0 = p.channels 0 := congrFun p.tick_channels 0
  by_cases hw : w = p.alarms.now + 1
  · have hdue : p.alarms.due () = some (p.alarms.now + 1) := hw ▸ h.due
    have htick := tick_of_eq hdue
    rw [startTimer_of_beating (p := p.fired) h.beating h.inv.interval_pos] at htick
    rw [if_pos hw]
    refine ⟨by rw [htick]; rfl, ⟨hinv, hchannel ▸ h.beating, hchannel ▸ h.interval, ?_⟩, ?_⟩
    · rw [htick, hw, ← h.interval]
      rfl
    · rw [htick, hw]
      rfl
  · have hdue : p.alarms.due () ≠ some (p.alarms.now + 1) := by
      rw [h.due]
      exact fun hc => hw (Option.some.inj hc)
    have htick := tick_of_ne hdue
    rw [if_neg hw]
    refine ⟨by rw [htick], ⟨hinv, hchannel ▸ h.beating, hchannel ▸ h.interval, ?_⟩, by rw [htick]⟩
    rw [htick]
    exact h.due

/-- **The beats of a run**: those that have come are `w`, `w + m` and so on. -/
theorem Next.run (h : p.Next m w) (hops : ∀ op ∈ ops, op.Elsewhere) :
    ∃ k, (p.run ops).Next m (w + k * m) ∧
      (p.run ops).irqs = ((List.range k).map fun i => w + i * m).reverse ++ p.irqs ∧
      ∀ i < k, w + i * m ≤ (p.run ops).alarms.now := by
  induction ops using List.reverseRecOn with
  | nil => exact ⟨0, by rwa [Nat.zero_mul, Nat.add_zero], rfl, nofun⟩
  | append_singleton ops op ih =>
    obtain ⟨k, hnext, hirqs, hpast⟩ := ih fun op hop => hops op (List.mem_append_left _ hop)
    have hrun : p.run (ops ++ [op]) = (p.run ops).step op := List.foldl_append ..
    rw [hrun]
    by_cases htick : op = .tick
    · subst htick
      change ∃ k, (p.run ops).tick.Next m (w + k * m) ∧ (p.run ops).tick.irqs = _ ∧
        ∀ i < k, w + i * m ≤ (p.run ops).tick.alarms.now
      obtain ⟨hnow, hcases⟩ := hnext.tick
      rw [hnow]
      by_cases hw : w + k * m = (p.run ops).alarms.now + 1
      · rw [if_pos hw] at hcases
        refine ⟨k + 1, ?_, ?_, fun i hi => ?_⟩
        · rw [Nat.add_mul, Nat.one_mul, ← Nat.add_assoc]
          exact hcases.1
        · rw [hcases.2, hirqs, List.range_succ, List.map_append, List.reverse_append]
          rfl
        · by_cases hik : i = k
          · rw [hik]
            exact hw.le
          · exact (hpast i (by omega)).trans (Nat.le_succ _)
      · rw [if_neg hw] at hcases
        exact ⟨k, hcases.1, hcases.2.trans hirqs, fun i hi => (hpast i hi).trans (Nat.le_succ _)⟩
    · have haside := (p.run ops).step_aside (hops op (by simp)) htick
      have hnext' := hnext.aside haside (hnext.inv.step op)
      obtain ⟨c, hc, -⟩ := haside
      rw [hc] at hnext' ⊢
      exact ⟨k, hnext', hirqs, hpast⟩

/-- Without an alarm there are no beats. -/
theorem run_silent (hinv : p.Inv) (h : p.alarms.due () = none) (n : ℕ) :
    (p.run (List.replicate n .tick)).irqs = p.irqs ∧
      (p.run (List.replicate n .tick)).alarms.now = p.alarms.now + n := by
  induction n generalizing p with
  | zero => exact ⟨rfl, rfl⟩
  | succ n ih =>
    have htick : p.tick = { p with
        alarms := { p.alarms with now := p.alarms.now + 1, ringing := false } } :=
      tick_of_ne (by rw [h]; nofun)
    have hrest := ih (p := p.tick) (hinv.step .tick) (by rw [htick]; exact h)
    change (p.tick.run (List.replicate n .tick)).irqs = _ ∧
      (p.tick.run (List.replicate n .tick)).alarms.now = _
    rw [hrest.1, hrest.2, htick]
    exact ⟨rfl, by change p.alarms.now + 1 + n = _; omega⟩

theorem Next.run_ticks (h : p.Next m w) (n : ℕ) :
    (p.run (List.replicate n .tick)).alarms.now = p.alarms.now + n := by
  induction n generalizing p w with
  | zero => rfl
  | succ n ih =>
    obtain ⟨hnow, hcases⟩ := h.tick
    change (p.tick.run (List.replicate n .tick)).alarms.now = _
    by_cases hw : w = p.alarms.now + 1
    · rw [if_pos hw] at hcases
      rw [ih hcases.1, hnow]
      omega
    · rw [if_neg hw] at hcases
      rw [ih hcases.1, hnow]
      omega

theorem elsewhere_ticks (n : ℕ) : ∀ op ∈ List.replicate n PitOp.tick, op.Elsewhere := by
  intro op hop
  rw [List.eq_of_mem_replicate hop]
  trivial

/-- The beats of a channel are those that are asked for. -/
theorem Next.beats (h : p.Next m (p.alarms.now + n)) (hn : 0 < n) {periodic : Prop}
    (hm : periodic → m = n) : p.Beats n periodic := by
  intro later hlater
  obtain ⟨k, hnext, hirqs, hpast⟩ := h.run hlater
  have hnow := hnext.now_lt
  refine ⟨_, hirqs, ?_, fun hp => ?_⟩
  · cases k with
    | zero => rw [if_neg (by omega)]; rfl
    | succ k =>
      have hle := hpast 0 (Nat.succ_pos k)
      rw [if_pos (by omega), List.range_succ_eq_map]
      simp
  · have hk : ((p.run later).alarms.now - p.alarms.now) / n = k := by
      rw [hm hp] at hnow hpast
      have hsucc : (k + 1) * n = k * n + n := by rw [Nat.add_mul, Nat.one_mul]
      apply Nat.div_eq_of_lt_le
      · cases k with
        | zero => omega
        | succ k =>
          have hle := hpast k (Nat.lt_succ_self k)
          rw [Nat.add_mul, Nat.one_mul]
          omega
      · rw [hsucc]
        omega
    rw [hk, hm hp]
    refine List.map_congr_left fun i _ => ?_
    rw [Nat.add_mul, Nat.one_mul]
    omega

/-- The beats that have come in a run of `j` ticks. -/
theorem Beats.ticks {periodic : Prop} (hbeats : p.Beats n periodic) (h : p.Next m w) (j : ℕ) :
    ∃ k, p.alarms.now + j < w + k * m ∧
      ((List.range k).map fun i => w + i * m).head? =
        (if n ≤ j then some (p.alarms.now + n) else none) ∧
      (periodic → ((List.range k).map fun i => w + i * m) =
        (List.range (j / n)).map fun i => p.alarms.now + (i + 1) * n) := by
  obtain ⟨new, hirqs, hhead, hperiodic⟩ := hbeats _ (elsewhere_ticks j)
  obtain ⟨k, hnext, hirqs', -⟩ := h.run (elsewhere_ticks j)
  have hnow := h.run_ticks j
  have hnew : new = (List.range k).map fun i => w + i * m :=
    List.reverse_inj.mp (List.append_cancel_right (hirqs.symm.trans hirqs'))
  have hlt := hnext.now_lt
  rw [hnow] at hlt hhead hperiodic
  rw [hnew] at hhead hperiodic
  simp only [Nat.add_le_add_iff_left, Nat.add_sub_cancel_left] at hhead hperiodic
  exact ⟨k, hlt, hhead, hperiodic⟩

/-- They are not those that are asked for, unless both times are right. -/
theorem Next.of_beats {periodic : Prop} (h : p.Next m w) (hbeats : p.Beats n periodic) :
    w = p.alarms.now + n ∧ (periodic → m = n) := by
  have hw := h.now_lt
  have hfirst : w = p.alarms.now + n := by
    obtain ⟨k, hlt, hhead, -⟩ := hbeats.ticks h (w - p.alarms.now)
    obtain ⟨k, rfl⟩ : ∃ k', k = k' + 1 := by
      refine ⟨k - 1, ?_⟩
      rcases k with _ | k
      · omega
      · rfl
    rw [List.range_succ_eq_map, List.map_cons, List.head?_cons, Nat.zero_mul] at hhead
    split_ifs at hhead
    exact Option.some.inj hhead
  refine ⟨hfirst, fun hp => ?_⟩
  obtain ⟨k, hlt, -, hperiodic⟩ := hbeats.ticks h (n + m)
  have hpos := h.pos
  have hk : 1 < k := by
    rcases k with _ | _ | k
    · omega
    · omega
    · omega
  have hsecond := congrArg (fun l => l[1]?) (hperiodic hp)
  simp only [List.getElem?_map, List.getElem?_range hk, Option.map_some] at hsecond
  obtain ⟨i, hi, heq⟩ := Option.map_eq_some_iff.mp hsecond.symm
  have hi' : i = 1 := by
    obtain ⟨hlen, hget⟩ := List.getElem?_eq_some_iff.mp hi
    rw [← hget, List.getElem_range]
  rw [hi'] at heq
  omega

theorem not_beats_silent (hinv : p.Inv) (h : p.alarms.due () = none) (periodic : Prop) :
    ¬p.Beats n periodic := by
  intro hbeats
  obtain ⟨new, hirqs, hhead, -⟩ := hbeats _ (elsewhere_ticks n)
  obtain ⟨hsilent, hnow⟩ := run_silent hinv h n
  rw [hsilent] at hirqs
  have hnil : new = [] := by
    have := List.self_eq_append_left.mp hirqs
    exact List.reverse_eq_nil_iff.mp this
  rw [hnow, if_pos le_rfl, hnil] at hhead
  exact absurd hhead nofun

end Pit

end Vmm386.Vpit
