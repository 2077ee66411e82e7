import Vmm386.Lib.Calendar
import Vmm386.Types

/-!
# The virtual clock

The clock of `drivers/virtual/vcmos/vcmos.c`: `rtc_update`, which its timer calls every second,
and the functions behind the BIOS calls that read and set the time and the date.
-/

namespace Vmm386.Vcmos

open Calendar

abbrev RTC_SECONDS : Fin 64 := 0
abbrev RTC_SECONDS_ALARM : Fin 64 := 1
abbrev RTC_MINUTES : Fin 64 := 2
abbrev RTC_MINUTES_ALARM : Fin 64 := 3
abbrev RTC_HOURS : Fin 64 := 4
abbrev RTC_HOURS_ALARM : Fin 64 := 5
abbrev RTC_DAY_OF_WEEK : Fin 64 := 6
abbrev RTC_DAY_OF_MONTH : Fin 64 := 7
abbrev RTC_MONTH : Fin 64 := 8
abbrev RTC_YEAR : Fin 64 := 9
abbrev RTC_REG_A : Fin 64 := 10
abbrev RTC_CONTROL : Fin 64 := 11
abbrev RTC_INTR_FLAGS : Fin 64 := 12

/-- The byte 0x32. -/
abbrev CENTURY : Fin 64 := 0x32

abbrev RTC_UIP : UChar := 0x80
abbrev RTC_SET : UChar := 0x80
abbrev RTC_AIE : UChar := 0x20
abbrev RTC_UIE : UChar := 0x10
abbrev RTC_DM_BINARY : UChar := 0x04
abbrev RTC_DST_EN : UChar := 0x01
abbrev RTC_IRQF : UChar := 0x80
abbrev RTC_AF : UChar := 0x20
abbrev RTC_UF : UChar := 0x10

/-- `cmos_mem`. -/
abbrev Cmos := Fin 64 → UChar

/-- `BCD_TO_BIN`. -/
def bcdToBin (val : UChar) : UChar := (val &&& (15 : UChar)) + (val >>> 4) * (10 : UChar)

/-- `BIN_TO_BCD`. -/
def binToBcd (val : UChar) : UChar := ((val / (10 : UChar)) <<< 4) + val % (10 : UChar)

/-- The values of the clock are binary. -/
def Binary (p : Cmos) : Prop := p RTC_CONTROL &&& RTC_DM_BINARY ≠ 0

instance (p : Cmos) : Decidable (Binary p) := inferInstanceAs (Decidable (_ ≠ _))

/-- `BCD_TO_BIN`, unless the values are binary. -/
def toBin (p : Cmos) (val : UChar) : UChar := if ¬Binary p then bcdToBin val else val

/-- `BIN_TO_BCD`, unless the values are binary. -/
def ofBin (p : Cmos) (val : UChar) : UChar := if ¬Binary p then binToBcd val else val

/-- `days_per_month`, row by row. -/
def daysPerMonth : List ℤ :=
  [31, 28, 31, 31, 30, 30, 31, 31, 30, 31, 30, 31,
   31, 29, 31, 31, 30, 30, 31, 31, 30, 31, 30, 31]

/-- `days_per_month[l][mo]`. The second row follows the first, and `behind` is what follows
the table. -/
def monthDays (behind : ℕ → ℤ) (l : Bool) (mo : ℕ) : ℤ :=
  let i := (if l then 12 else 0) + mo
  daysPerMonth.getD i (behind (i - 24))

/-- The index of the leap years, from the last two digits of the year. -/
def leapIndex (y : ℕ) : Bool := decide (y % 4 = 0) && (decide (y % 100 ≠ 0) || decide (y % 400 = 0))

/-- `rtc_update` from `dupdate_done` to `tupdate_done`. -/
def dupdateDone (p : Cmos) (dw dm mo y : UChar) : Cmos :=
  Function.update (Function.update (Function.update (Function.update p
    RTC_DAY_OF_WEEK (ofBin p dw)) RTC_DAY_OF_MONTH (ofBin p dm)) RTC_MONTH (ofBin p mo))
    RTC_YEAR (ofBin p y)

/-- `rtc_update`: the date, at midnight. -/
def updateDate (behind : ℕ → ℤ) (p : Cmos) : Cmos :=
  let dw := (toBin p (p RTC_DAY_OF_WEEK) + 1) % 7
  let dm := toBin p (p RTC_DAY_OF_MONTH)
  let mo := toBin p (p RTC_MONTH)
  let y := toBin p (p RTC_YEAR)
  let l := leapIndex y.toNat
  let dm := dm + 1
  if (dm.toNat : ℤ) ≤ monthDays behind l mo.toNat then dupdateDone p dw dm mo y
  else
    let mo := mo + 1
    if mo ≤ 12 then dupdateDone p dw 1 mo y
    else
      let y := y + 1
      if y ≤ 99 then dupdateDone p dw 1 1 y
      else
        let c := binToBcd (bcdToBin (p CENTURY) + 1)
        dupdateDone (Function.update p CENTURY c) dw 1 1 0

/-- `rtc_update` from `tupdate_done`, with the value of `doirq`. -/
def tupdateDone (p : Cmos) (h mi s : UChar) : Cmos × ℕ :=
  let p := Function.update (Function.update (Function.update p
    RTC_HOURS (ofBin p h)) RTC_MINUTES (ofBin p mi)) RTC_SECONDS (ofBin p s)
  let p := Function.update p RTC_INTR_FLAGS 0
  let uie := p RTC_CONTROL &&& RTC_UIE ≠ 0
  let flags := p RTC_INTR_FLAGS
  let flags := if uie then flags ||| (RTC_IRQF ||| RTC_UF) else flags
  let alarm := p RTC_CONTROL &&& RTC_AIE ≠ 0 ∧ p RTC_HOURS = p RTC_HOURS_ALARM ∧
    p RTC_MINUTES = p RTC_MINUTES_ALARM ∧ p RTC_SECONDS = p RTC_SECONDS_ALARM
  let flags := if alarm then flags ||| (RTC_IRQF ||| RTC_AF) else flags
  let p := Function.update p RTC_INTR_FLAGS flags
  (Function.update p RTC_REG_A (p RTC_REG_A &&& ~~~RTC_UIP),
    (if uie then 1 else 0) + if alarm then 1 else 0)

/-- `rtc_update`, where the clock is not being set. -/
def updateTime (behind : ℕ → ℤ) (p : Cmos) : Cmos × ℕ :=
  let h := toBin p (p RTC_HOURS)
  let mi := toBin p (p RTC_MINUTES)
  let s := toBin p (p RTC_SECONDS) + 1
  if s % 60 ≠ 0 then tupdateDone p h mi s
  else
    let mi := mi + 1
    if mi % 60 ≠ 0 then tupdateDone p h mi 0
    else
      let h := h + 1
      if h % 24 ≠ 0 then tupdateDone p h 0 0 else tupdateDone (updateDate behind p) 0 0 0

/-- `rtc_update`, with the value of `doirq`. -/
def rtcUpdate (behind : ℕ → ℤ) (p : Cmos) : Cmos × ℕ :=
  if p RTC_CONTROL &&& RTC_SET ≠ 0 then (p, 0)
  else updateTime behind (Function.update p RTC_REG_A (p RTC_REG_A ||| RTC_UIP))

/-! ## Reading and setting -/

abbrev FLAGS_CF : ULong := 1

/-- The fields of `struct vm86_regs` that are used. -/
structure Vm86Regs where
  ecx : ULong
  edx : ULong
  eflags : ULong

/-- `GET8`. -/
def get8 (x : ULong) : UChar := (x &&& 0xff).truncate 8

/-- `GET8H`. -/
def get8h (x : ULong) : UChar := ((x &&& 0xff00) >>> 8).truncate 8

/-- `SET8`. -/
def set8 (x : ULong) (v : UChar) : ULong := (x &&& 0xffffff00) ||| (v.zeroExtend 32 &&& 0xff)

/-- `SET8H`. -/
def set8h (x : ULong) (v : UChar) : ULong :=
  (x &&& 0xffff00ff) ||| ((v.zeroExtend 32 &&& 0xff) <<< 8)

/-- Carry tells whether the clock is being set. -/
def carryIfSet (p : Cmos) (eflags : ULong) : ULong :=
  if p RTC_CONTROL &&& RTC_SET ≠ 0 then eflags ||| FLAGS_CF else eflags &&& ~~~FLAGS_CF

/-- `get_bcd_time`. -/
def getBcdTime (p : Cmos) (regs : Vm86Regs) : Vm86Regs :=
  let bcd := fun val => if Binary p then binToBcd val else val
  { ecx := set8 (set8h regs.ecx (bcd (p RTC_HOURS))) (bcd (p RTC_MINUTES))
    edx := set8 (set8h regs.edx (bcd (p RTC_SECONDS)))
      (if p RTC_CONTROL &&& RTC_DST_EN ≠ 0 then 0 else 1)
    eflags := carryIfSet p regs.eflags }

/-- `set_bcd_time`. -/
def setBcdTime (p : Cmos) (regs : Vm86Regs) : Cmos :=
  let bin := fun val => if Binary p then bcdToBin val else val
  let d := get8 regs.edx
  let p := Function.update p RTC_HOURS (bin (get8h regs.ecx))
  let p := Function.update p RTC_MINUTES (bin (get8 regs.ecx))
  let p := Function.update p RTC_SECONDS (bin (get8h regs.edx))
  Function.update p RTC_CONTROL
    (if d ≠ 0 then p RTC_CONTROL ||| RTC_DST_EN else p RTC_CONTROL &&& ~~~RTC_DST_EN)

/-- `get_bcd_date`. -/
def getBcdDate (p : Cmos) (regs : Vm86Regs) : Vm86Regs :=
  let bcd := fun val => if Binary p then bcdToBin val else val
  { ecx := set8 (set8h regs.ecx (p CENTURY)) (bcd (p RTC_YEAR))
    edx := set8 (set8h regs.edx (bcd (p RTC_MONTH))) (bcd (p RTC_DAY_OF_MONTH))
    eflags := carryIfSet p regs.eflags }

/-- `set_bcd_date`. -/
def setBcdDate (p : Cmos) (regs : Vm86Regs) : Cmos :=
  let bin := fun val => if Binary p then bcdToBin val else val
  let p := Function.update p CENTURY (get8h regs.ecx)
  let p := Function.update p RTC_YEAR (bin (get8 regs.ecx))
  let p := Function.update p RTC_MONTH (bin (get8h regs.edx))
  Function.update p RTC_DAY_OF_MONTH (bin (get8 regs.edx))

end Vmm386.Vcmos
