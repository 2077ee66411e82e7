import Vmm386.Lib.Calendar
import Vmm386.Types

/-!
# Calendar time

The time utilities of `kernel/misc/time.c`: `expand_time`, which breaks a number of seconds
down into a date and a time, and `mktime`, which makes the number from them.
-/

namespace Vmm386.Time

abbrev EPOCH_YEAR : ℕ := 1970
abbrev SECS_PER_MIN : ULong := 60
abbrev MINS_PER_HOUR : ULong := 60
abbrev HOURS_PER_DAY : ULong := 24
abbrev DAYS_PER_WEEK : ULong := 7
abbrev DAYS_PER_YEAR : ULong := 365
abbrev DAYS_PER_LEAP_YEAR : ULong := 366

/-- The rows of `days_per_month`. -/
def daysPerMonth : List (List ULong) :=
  [[31, 28, 31, 31, 30, 30, 31, 31, 30, 31, 30, 31],
   [31, 29, 31, 31, 30, 30, 31, 31, 30, 31, 30, 31]]

def monthNames : List String :=
  ["January", "February", "March", "April", "May", "June",
   "July", "August", "September", "October", "November", "December"]

def monthAbbrevs : List String :=
  ["Jan", "Feb", "Mar", "Apr", "May", "Jun", "Jul", "Aug", "Sep", "Oct", "Nov", "Dec"]

def dowNames : List String :=
  ["Monday", "Tuesday", "Wednesday", "Thursday", "Friday", "Saturday", "Sunday"]

def dowAbbrevs : List String := ["Mon", "Tue", "Wed", "Thu", "Fri", "Sat", "Sun"]

/-- `struct time_bits`. -/
structure TimeBits where
  year : ℕ
  month : ℕ
  day : ULong
  dayOfWeek : ULong
  hour : ULong
  minute : ULong
  second : ULong
  monthName : String
  monthAbbrev : String
  dowName : String
  dowAbbrev : String
  deriving DecidableEq

/-- `leap_year`, the index of a row of `days_per_month`. -/
def leapYear (yr : ℕ) : ℕ := if yr % 4 = 0 ∧ (yr % 100 ≠ 0 ∨ yr % 400 = 0) then 1 else 0

/-- The length of a year, as the first loop of `expand_time` chooses it. -/
def yearDays (year : ℕ) : ULong := if leapYear year ≠ 0 then DAYS_PER_LEAP_YEAR else DAYS_PER_YEAR

/-- `days_per_month[leap_year(year)][month]`, inside the table. -/
def monthDays (year month : ℕ) : Option ULong :=
  (daysPerMonth[leapYear year]?).bind fun row => row[month]?

/-- The loops of `expand_time`: from the `i`-th period on, take the lengths `len` of the periods
off `cal` as long as they fit in. -/
def countOff (len : ℕ → Option ULong) : ℕ → ℕ → ULong → Option (ℕ × ULong)
  | 0, _, _ => none
  | fuel + 1, i, cal =>
    (len i).bind fun nxt =>
      if cal < nxt then some (i, cal) else countOff len fuel (i + 1) (cal - nxt)

/-- The formula for the day of the week, after `month += 12, year--` for the first two months. -/
def dayOfWeek (day : ULong) (month year : ℕ) : ULong :=
  let (month, year) := if month ≤ 2 then (month + 12, year - 1) else (month, year)
  (day + BitVec.ofNat 32 (2 * month) + BitVec.ofNat 32 (3 * (month + 1) / 5) +
    BitVec.ofNat 32 (year / 4) - BitVec.ofNat 32 (year / 100) + BitVec.ofNat 32 (year / 400)) %
    DAYS_PER_WEEK

/-- `expand_time`. The loop of the years ends before `cal` days have gone. -/
def expandTime (cal : ULong) : Option TimeBits :=
  let days := cal / SECS_PER_MIN / MINS_PER_HOUR / HOURS_PER_DAY
  (countOff (fun year => some (yearDays year)) (days.toNat + 1) EPOCH_YEAR days).bind fun y =>
    (countOff (monthDays y.1) 13 0 y.2).bind fun m =>
      let dow := dayOfWeek (m.2 + 1) (m.1 + 1) y.1
      some
        { year := y.1
          month := m.1 + 1
          day := m.2 + 1
          dayOfWeek := dow
          hour := cal / SECS_PER_MIN / MINS_PER_HOUR % HOURS_PER_DAY
          minute := cal / SECS_PER_MIN % MINS_PER_HOUR
          second := cal % SECS_PER_MIN
          monthName := monthNames.getD m.1 ""
          monthAbbrev := monthAbbrevs.getD m.1 ""
          dowName := dowNames.getD dow.toNat ""
          dowAbbrev := dowAbbrevs.getD dow.toNat "" }

/-- `mktime`. -/
def mktime (year mon day hour min sec : ULong) : ULong :=
  let (mon, year) := if (mon - 2).toInt ≤ 0 then (mon - 2 + 12, year - 1) else (mon - 2, year)
  (((year / 4 - year / 100 + year / 400 + 367 * mon / 12 + day + year * 365 - 719499) * 24 +
    hour) * 60 + min) * 60 + sec

end Vmm386.Time
