import Vmm386.Lib.Alarms
import Vmm386.Types

/-!
# The interval timer of a virtual machine

`drivers/virtual/vpit/vpit.c`. Of the kernel's timers only `chan0_timer` is kept, as an alarm: the
kernel calls its function at the tick at which it is due. The callback of the channel 2 is not part
of the state, nor is what is printed.
-/

namespace Vmm386.Vpit

abbrev PIT_CMD_MODE : UChar := 0x0e

abbrev PIT_CMD_MODE0 : UChar := 0x00

abbrev PIT_CMD_MODE1 : UChar := 0x02

abbrev PIT_CMD_MODE2 : UChar := 0x04

abbrev PIT_CMD_MODE3 : UChar := 0x06

abbrev PIT_CMD_MODE4 : UChar := 0x08

abbrev PIT_CMD_LATCH : UChar := 0x30

abbrev PIT_CMD_LATCH_LSB : UChar := 0x10

abbrev PIT_CMD_LATCH_MSB : UChar := 0x20

abbrev PIT_CMD_LATCH_LSB_MSB : UChar := 0x30

abbrev PIT_CMD_CHANNEL : UChar := 0xc0

abbrev PIT_CMD_READ_BACK : ULong := 0xc0

abbrev MIN_INTERVAL : ULong := 5

/-- `enum vpit_latch_state`. -/
inductive LatchState where
  | counterLow
  | counterHigh
  | status
  deriving DecidableEq

/-- `struct vpit_channel`. -/
structure Channel where
  command : UChar
  latchState : LatchState
  divisor : UShort
  intervalTicks : UShort
  startTicks : ULong

/-- `struct vpit` with the clock of the kernel, and the numbers of the ticks at which the IRQ 0 was
raised; the last comes first. -/
structure Pit where
  channels : ℕ → Channel
  timerTicking : Bool
  alarms : Alarms Unit
  irqs : List ℕ

/-- `get_divisor`. -/
def getDivisor (div : UShort) : ULong := if div = 0 then 65536 else div.zeroExtend 32

/-- `calc_divisor_ticks`. -/
def calcDivisorTicks (divisor : UShort) : ULong :=
  let ticks := 1024 * getDivisor divisor / 1193180
  if ticks < MIN_INTERVAL then MIN_INTERVAL else ticks

/-- `cmos_to_timer_ticks`. -/
def cmosToTimerTicks (ticks : ULong) : ULong := ticks * (1193180 / 1024)

/-- `calc_counter`. -/
def calcCounter (chan : Channel) (ticks : ULong) : ULong :=
  let elapsed := ticks - chan.startTicks
  let interval : ULong := chan.intervalTicks.zeroExtend 32
  let mode := chan.command &&& PIT_CMD_MODE
  if mode = PIT_CMD_MODE0 ∨ mode = PIT_CMD_MODE1 ∨ mode = PIT_CMD_MODE4 then
    if elapsed > interval then 0 else interval - elapsed
  else elapsed % interval

/-- `calc_out_pin`. -/
def calcOutPin (chan : Channel) (ticks : ULong) : UChar :=
  let counter := calcCounter chan ticks
  let mode := chan.command &&& PIT_CMD_MODE
  if mode = PIT_CMD_MODE0 ∨ mode = PIT_CMD_MODE1 ∨ mode = PIT_CMD_MODE2 then
    if counter = 0 then 1 else 0
  else if mode = PIT_CMD_MODE3 then if counter < getDivisor chan.divisor / 2 then 1 else 0
  else 0

namespace Pit

variable (p : Pit)

/-- `kernel->get_timer_ticks`. -/
def ticks : ULong := BitVec.ofNat 32 p.alarms.now

def setChannel (k : ℕ) (chan : Channel) : Pit :=
  { p with channels := Function.update p.channels k chan }

/-- `start_timer`. -/
def startTimer : Pit :=
  let mode := (p.channels 0).command &&& PIT_CMD_MODE
  if mode = PIT_CMD_MODE0 ∨ mode = PIT_CMD_MODE2 ∨ mode = PIT_CMD_MODE3 then
    let alarms := if p.timerTicking then p.alarms.after (.removed ()) else p.alarms
    { p with
      alarms := alarms.after (.added () (p.channels 0).intervalTicks.toNat)
      timerTicking := true }
  else p

/-- `vpit_timer_handler`. -/
def vpitTimerHandler : Pit :=
  startTimer { p with timerTicking := false, irqs := p.alarms.now :: p.irqs }

/-- `create_vpit`, when `now` ticks have been counted. -/
def create (now : ℕ) : Pit :=
  let channel (command : UChar) (divisor : UShort) : Channel :=
    ⟨command, .counterLow, divisor, (calcDivisorTicks divisor).truncate 16, BitVec.ofNat 32 now⟩
  startTimer {
    channels := fun
      | 0 => channel (PIT_CMD_LATCH_LSB_MSB ||| PIT_CMD_MODE3) 0
      | 1 => channel (PIT_CMD_LATCH_LSB_MSB ||| PIT_CMD_MODE2) 18
      | _ => channel (PIT_CMD_LATCH_LSB_MSB ||| PIT_CMD_MODE3) 1331
    timerTicking := false
    alarms := .start now
    irqs := [] }

/-- `vpit_out`: a byte for the counter of a channel. -/
def outCounter (port : ℕ) (val : ULong) : Pit :=
  let chan := p.channels port
  let p := match chan.latchState with
    | .counterLow => p.setChannel port { chan with
        divisor := (chan.divisor &&& (0xff00 : UShort)) ||| (val &&& 0xff).truncate 16
        latchState :=
          if chan.command &&& PIT_CMD_LATCH_MSB ≠ 0 then .counterHigh else chan.latchState }
    | .counterHigh =>
      let p := p.setChannel port { chan with
        divisor := (chan.divisor &&& (0x00ff : UShort)) ||| (val <<< 8).truncate 16
        latchState :=
          if chan.command &&& PIT_CMD_LATCH_LSB ≠ 0 then .counterLow else chan.latchState }
      if port = 0 then p.startTimer else p
    | .status => p
  let chan := p.channels port
  p.setChannel port { chan with
    intervalTicks := (calcDivisorTicks chan.divisor).truncate 16
    startTicks := p.ticks }

/-- `vpit_out`: a read-back command, and its bit for a channel. -/
def readBack (val bit : ULong) (k : ℕ) : Pit :=
  if val &&& bit ≠ 0 then
    p.setChannel k { p.channels k with
      latchState := if val &&& 0x40 = 0 then .status else .counterLow }
  else p

/-- `vpit_out`: a control word. -/
def outCommand (val : ULong) : Pit :=
  if val &&& PIT_CMD_READ_BACK = PIT_CMD_READ_BACK then
    ((p.readBack val 0x02 0).readBack val 0x04 1).readBack val 0x08 2
  else
    let k := ((val >>> 6) &&& 3).toNat
    let chan := p.channels k
    let command : UChar := val.truncate 8
    if command &&& PIT_CMD_LATCH = 0 then p.setChannel k { chan with latchState := .counterLow }
    else
      p.setChannel k { chan with
        command := command
        latchState :=
          if command &&& PIT_CMD_LATCH_LSB ≠ 0 then .counterLow
          else if command &&& PIT_CMD_LATCH_MSB ≠ 0 then .counterHigh
          else .counterLow }

/-- `vpit_out`. -/
def vpitOut (port : UShort) (size : ℕ) (val : ULong) : Pit :=
  if size ≠ 1 then p
  else if port = 0x40 ∨ port = 0x41 ∨ port = 0x42 then p.outCounter (port &&& 3).toNat val
  else if port = 0x43 then p.outCommand val
  else p

/-- `vpit_in`: a byte of a channel. -/
def inCounter (port : ℕ) : ULong × Pit :=
  let chan := p.channels port
  let counter := calcDivisorTicks chan.divisor - calcCounter chan p.ticks
  match chan.latchState with
  | .counterLow =>
    (cmosToTimerTicks counter &&& 255, p.setChannel port { chan with
      latchState :=
        if chan.command &&& PIT_CMD_LATCH_MSB ≠ 0 then .counterHigh else chan.latchState })
  | .counterHigh =>
    (cmosToTimerTicks counter >>> 8, p.setChannel port { chan with
      latchState :=
        if chan.command &&& PIT_CMD_LATCH_LSB ≠ 0 then .counterLow else chan.latchState })
  | .status =>
    (((chan.command &&& (0x3f : UChar)) ||| (calcOutPin chan p.ticks <<< 7)).zeroExtend 32,
      p.setChannel port { chan with
        latchState :=
          if chan.command &&& PIT_CMD_LATCH_MSB ≠ 0 then .counterHigh else .counterLow })

/-- `vpit_in`. -/
def vpitIn (port : UShort) (size : ℕ) : ULong × Pit :=
  if size ≠ 1 then (~~~0, p)
  else if port = 0x40 ∨ port = 0x41 ∨ port = 0x42 then p.inCounter (port &&& 3).toNat
  else if port = 0x43 then (0, p)
  else (~~~0, p)

/-- A tick of the kernel's clock. -/
def tick : Pit :=
  let p : Pit := { p with alarms := p.alarms.after .tick }
  let p := if p.alarms.due () = some p.alarms.now
    then vpitTimerHandler { p with alarms := p.alarms.after (.fired ()) } else p
  { p with alarms := p.alarms.after .finished }

end Pit

/-- What happens next. -/
inductive PitOp where
  | tick
  | output (port : UShort) (size : ℕ) (val : ULong)
  | input (port : UShort) (size : ℕ)

/-- A step. -/
def Pit.step (p : Pit) : PitOp → Pit
  | .tick => p.tick
  | .output port size val => p.vpitOut port size val
  | .input port size => (p.vpitIn port size).2

/-- A run. -/
def Pit.run (p : Pit) (ops : List PitOp) : Pit := ops.foldl Pit.step p

/-- It does not change the channel 0. -/
def PitOp.Elsewhere : PitOp → Prop
  | .tick => True
  | .output port size val =>
    size ≠ 1 ∨ port ≠ 0x40 ∧ (port = 0x43 →
      if val &&& PIT_CMD_READ_BACK = PIT_CMD_READ_BACK then val &&& 0x02 = 0
      else ((val >>> 6) &&& 3).toNat ≠ 0)
  | .input port size => size ≠ 1 ∨ port ≠ 0x40

/-! ## Programming the channel 0 -/

/-- A control word for the channel 0, and the bytes that it asks for: `low`, `high` or both. What
else happens between the writes is elsewhere. -/
structure Program where
  command : UChar
  idle : List PitOp
  low : UChar
  idle' : List PitOp
  high : UChar
  channel : command &&& PIT_CMD_CHANNEL = 0
  access : command &&& PIT_CMD_LATCH ≠ 0
  mode : command &&& PIT_CMD_MODE = PIT_CMD_MODE0 ∨ command &&& PIT_CMD_MODE = PIT_CMD_MODE2 ∨
    command &&& PIT_CMD_MODE = PIT_CMD_MODE3
  elsewhere : ∀ op ∈ idle ++ idle', op.Elsewhere

namespace Program

variable (pr : Program)

/-- The access mode has a low byte. -/
def HasLow : Prop := pr.command &&& PIT_CMD_LATCH_LSB ≠ 0

/-- The access mode has a high byte. -/
def HasHigh : Prop := pr.command &&& PIT_CMD_LATCH_MSB ≠ 0

instance : Decidable pr.HasLow := inferInstanceAs (Decidable (¬_))

instance : Decidable pr.HasHigh := inferInstanceAs (Decidable (¬_))

/-- What is written before the last byte. -/
def start : List PitOp :=
  .output 0x43 1 (pr.command.zeroExtend 32) :: (pr.idle ++
    if pr.HasLow ∧ pr.HasHigh then .output 0x40 1 (pr.low.zeroExtend 32) :: pr.idle' else [])

/-- The last byte. -/
def last : PitOp := .output 0x40 1 ((if pr.HasHigh then pr.high else pr.low).zeroExtend 32)

/-- The divisor: a byte that is not written is zero. -/
def divisor : UShort :=
  (if pr.HasHigh then pr.high else 0) ++ (if pr.HasLow then pr.low else 0)

/-- The ticks between two interrupts. -/
def period : ℕ := (calcDivisorTicks pr.divisor).toNat

/-- Mode 2 or 3. -/
def Periodic : Prop := pr.command &&& PIT_CMD_MODE ≠ PIT_CMD_MODE0

instance : Decidable pr.Periodic := inferInstanceAs (Decidable (¬_))

end Program

/-- While the channel 0 is left alone, IRQ 0 is raised `n` ticks from now, and then every `n` ticks
if it is periodic. -/
def Pit.Beats (p : Pit) (n : ℕ) (periodic : Prop) : Prop :=
  ∀ later : List PitOp, (∀ op ∈ later, op.Elsewhere) →
    ∃ new, (p.run later).irqs = new.reverse ++ p.irqs ∧
      new.head? =
        (if p.alarms.now + n ≤ (p.run later).alarms.now then some (p.alarms.now + n) else none) ∧
      (periodic → new = (List.range (((p.run later).alarms.now - p.alarms.now) / n)).map
        fun i => p.alarms.now + (i + 1) * n)

end Vmm386.Vpit
