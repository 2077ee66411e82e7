import Mathlib.Tactic.IntervalCases
import Vmm386.Vcmos.Rtc

/-!
# The virtual clock and the calendar

The clock follows the calendar as long as `days_per_month` does: the table has no month right
at its index but four.
-/

namespace Vmm386.Vcmos

open Calendar

/-! ## Values of the clock -/

/-- `x`, less than 100, in BCD. -/
def bcd (x : ℕ) : UChar := BitVec.ofNat 8 (x / 10 * 16 + x % 10)

/-- The byte `b` is `x` in BCD. -/
def IsBcd (b : UChar) (x : ℕ) : Prop := x < 100 ∧ b = bcd x

section Values

variable {x : ℕ} {v b : UChar}

theorem toNat_bcdToBin (v : UChar) : (bcdToBin v).toNat = v.toNat % 16 + v.toNat / 16 * 10 := by
  have hlt := v.isLt
  have hand : (v &&& 15).toNat = v.toNat % 16 := by
    rw [BitVec.toNat_and]
    exact Nat.and_two_pow_sub_one_eq_mod _ 4
  have hshift : (v >>> 4).toNat = v.toNat / 16 := by
    rw [BitVec.toNat_ushiftRight, Nat.shiftRight_eq_div_pow]
  rw [bcdToBin, BitVec.toNat_add, BitVec.toNat_mul, hand, hshift]
  show (v.toNat % 16 + v.toNat / 16 * 10 % 2 ^ 8) % 2 ^ 8 = _
  omega

theorem toNat_binToBcd (v : UChar) :
    (binToBcd v).toNat = (v.toNat / 10 * 16 + v.toNat % 10) % 256 := by
  have hten : (10 : UChar).toNat = 10 := rfl
  rw [binToBcd, BitVec.toNat_add, BitVec.toNat_shiftLeft, BitVec.toNat_udiv, BitVec.toNat_umod,
    hten, Nat.shiftLeft_eq]
  omega

theorem toNat_bcd (h : x < 160) : (bcd x).toNat = x / 10 * 16 + x % 10 := by
  rw [bcd, BitVec.toNat_ofNat]
  omega

theorem bcdToBin_bcd (h : x < 100) : bcdToBin (bcd x) = BitVec.ofNat 8 x := by
  apply BitVec.eq_of_toNat_eq
  rw [toNat_bcdToBin, toNat_bcd (by omega), BitVec.toNat_ofNat]
  omega

theorem binToBcd_ofNat (h : x < 256) : binToBcd (BitVec.ofNat 8 x) = bcd x := by
  apply BitVec.eq_of_toNat_eq
  rw [toNat_binToBcd, BitVec.toNat_ofNat, bcd, BitVec.toNat_ofNat, Nat.mod_eq_of_lt h]

theorem IsBcd.inj {y : ℕ} (h : IsBcd b x) (h' : IsBcd b y) : x = y := by
  have heq := congrArg BitVec.toNat (h.2.symm.trans h'.2)
  have hx := h.1
  have hy := h'.1
  rw [toNat_bcd (by omega), toNat_bcd (by omega)] at heq
  omega

/-- `BCD_TO_BIN` in place of `BIN_TO_BCD`: right for one digit only. -/
theorem isBcd_bcdToBin (h : x < 100) : IsBcd (bcdToBin (BitVec.ofNat 8 x)) x ↔ x < 10 := by
  constructor
  · intro hb
    have heq := congrArg BitVec.toNat hb.2
    rw [toNat_bcdToBin, toNat_bcd (by omega), BitVec.toNat_ofNat] at heq
    omega
  · intro hlt
    refine ⟨h, BitVec.eq_of_toNat_eq ?_⟩
    rw [toNat_bcdToBin, toNat_bcd (by omega), BitVec.toNat_ofNat]
    omega

theorem get8_set8 (x : ULong) (v : UChar) : get8 (set8 x v) = v := by
  unfold get8 set8
  apply BitVec.eq_of_getLsbD_eq
  intro i hi
  interval_cases i <;> simp

theorem get8h_set8h (x : ULong) (v : UChar) : get8h (set8h x v) = v := by
  unfold get8h set8h
  apply BitVec.eq_of_getLsbD_eq
  intro i hi
  interval_cases i <;> simp

theorem get8h_set8 (x : ULong) (v : UChar) : get8h (set8 x v) = get8h x := by
  unfold get8h set8
  apply BitVec.eq_of_getLsbD_eq
  intro i hi
  interval_cases i <;> simp

end Values

/-! ## What the clock shows -/

/-- How the clock holds `x`. -/
def field (binary : Bool) (x : ℕ) : UChar := if binary then BitVec.ofNat 8 x else bcd x

/-- The time of the clock is that of `t`. -/
structure ShowsTime (binary : Bool) (p : Cmos) (t : Moment) : Prop where
  hour : p RTC_HOURS = field binary t.hour
  minute : p RTC_MINUTES = field binary t.minute
  second : p RTC_SECONDS = field binary t.second

/-- The date of the clock is that of `t`. -/
structure ShowsDate (binary : Bool) (p : Cmos) (t : Moment) : Prop where
  day : p RTC_DAY_OF_MONTH = field binary t.day
  month : p RTC_MONTH = field binary t.month
  year : p RTC_YEAR = field binary (t.year % 100)
  century : p CENTURY = bcd (t.year / 100)

/-- The clock runs and shows `t`. -/
structure Shows (binary : Bool) (p : Cmos) (t : Moment) : Prop where
  time : ShowsTime binary p t
  date : ShowsDate binary p t
  mode : Binary p ↔ binary = true
  runs : p RTC_CONTROL &&& RTC_SET = 0

section Fields

variable {binary : Bool} {p q : Cmos} {x : ℕ} {v w : UChar} {i : Fin 64}

theorem toBin_field (hp : Binary p ↔ binary = true) (h : x < 100) :
    toBin p (field binary x) = BitVec.ofNat 8 x := by
  unfold toBin field
  by_cases hb : binary = true
  · rw [if_neg (not_not.mpr (hp.mpr hb)), if_pos hb]
  · rw [if_pos (fun hc => hb (hp.mp hc)), if_neg hb, bcdToBin_bcd h]

theorem ofBin_ofNat (hp : Binary p ↔ binary = true) (h : x < 256) :
    ofBin p (BitVec.ofNat 8 x) = field binary x := by
  unfold ofBin field
  by_cases hb : binary = true
  · rw [if_neg (not_not.mpr (hp.mpr hb)), if_pos hb]
  · rw [if_pos (fun hc => hb (hp.mp hc)), if_neg hb, binToBcd_ofNat h]

theorem binary_update (h : RTC_CONTROL ≠ i) : Binary (Function.update p i v) ↔ Binary p := by
  rw [Binary, Binary, Function.update_of_ne h]

theorem ofNat_add_one (x : ℕ) : BitVec.ofNat 8 x + 1 = BitVec.ofNat 8 (x + 1) :=
  (BitVec.ofNat_add x 1).symm

theorem toNat_ofNat (h : x < 256) : (BitVec.ofNat 8 x).toNat = x := by
  rw [BitVec.toNat_ofNat]
  exact Nat.mod_eq_of_lt h

end Fields

/-! ## A tick -/

section Tick

variable {binary : Bool} {p q : Cmos} {t t' : Moment}

/-- The month's length that the table has for the date of `t`. -/
def tableLength (behind : ℕ → ℤ) (t : Moment) : ℤ :=
  monthDays behind (leapIndex (t.year % 100)) t.month

theorem dupdateDone_shows (hmode : Binary p ↔ binary = true) (dw : UChar) (hday : t.day < 256)
    (hmonth : t.month < 256) (hcentury : p CENTURY = bcd (t.year / 100)) :
    ShowsDate binary (dupdateDone p dw (BitVec.ofNat 8 t.day) (BitVec.ofNat 8 t.month)
      (BitVec.ofNat 8 (t.year % 100))) t := by
  refine ⟨?_, ?_, ?_, ?_⟩
  · exact ofBin_ofNat hmode hday
  · exact ofBin_ofNat hmode hmonth
  · exact ofBin_ofNat hmode (by omega)
  · exact hcentury

/-- At midnight the date becomes what the table has for the next day. -/
theorem updateDate_shows (behind : ℕ → ℤ) (h : ShowsDate binary p t)
    (hmode : Binary p ↔ binary = true) (hday : t.day ≤ 31) (hmonth : t.month ≤ 12)
    (hyear : t.year < 10000) :
    ShowsDate binary (updateDate behind p) (t.turn (tableLength behind t)) := by
  have hdm : toBin p (p RTC_DAY_OF_MONTH) = BitVec.ofNat 8 t.day := by
    rw [h.day, toBin_field hmode (by omega)]
  have hmo : toBin p (p RTC_MONTH) = BitVec.ofNat 8 t.month := by
    rw [h.month, toBin_field hmode (by omega)]
  have hy : toBin p (p RTC_YEAR) = BitVec.ofNat 8 (t.year % 100) := by
    rw [h.year, toBin_field hmode (by omega)]
  have hlast : BitVec.ofNat 8 (t.month + 1) ≤ (12 : UChar) ↔ t.month + 1 ≤ 12 := by
    show (BitVec.ofNat 8 (t.month + 1)).toNat ≤ 12 ↔ _
    rw [toNat_ofNat (by omega)]
  have hturn : BitVec.ofNat 8 (t.year % 100 + 1) ≤ (99 : UChar) ↔ t.year % 100 + 1 ≤ 99 := by
    show (BitVec.ofNat 8 (t.year % 100 + 1)).toNat ≤ 99 ↔ _
    rw [toNat_ofNat (by omega)]
  unfold updateDate Moment.turn
  simp only [hdm, hmo, hy, ofNat_add_one, hlast, hturn]
  rw [toNat_ofNat (by omega : t.day + 1 < 256), toNat_ofNat (by omega : t.month < 256),
    toNat_ofNat (by omega : t.year % 100 < 256), Nat.cast_add, Nat.cast_one]
  generalize (toBin p (p RTC_DAY_OF_WEEK) + 1) % 7 = dw
  change ShowsDate binary (if _ ≤ tableLength behind t then _ else _) _
  split_ifs with h₁ h₂ h₃
  · exact dupdateDone_shows (t := { t with day := t.day + 1 }) hmode dw (by dsimp only; omega)
      (by dsimp only; omega) h.century
  · exact dupdateDone_shows (t := { t with month := t.month + 1, day := 1 }) hmode dw
      (by dsimp only; omega) (by dsimp only; omega) h.century
  · have hyear : (t.year + 1) % 100 = t.year % 100 + 1 := by omega
    have hcentury : (t.year + 1) / 100 = t.year / 100 := by omega
    rw [← hyear]
    refine dupdateDone_shows (t := { t with year := t.year + 1, month := 1, day := 1 }) hmode dw
      (by dsimp only; omega) (by dsimp only; omega) ?_
    rw [hcentury]
    exact h.century
  · -- the century turns
    have hyear : (t.year + 1) % 100 = 0 := by omega
    have hcentury : (t.year + 1) / 100 = t.year / 100 + 1 := by omega
    have hmode' := (binary_update (p := p) (v := binToBcd (bcdToBin (p CENTURY) + 1))
      (by decide : RTC_CONTROL ≠ CENTURY)).trans hmode
    have hstore := dupdateDone_shows (t := { t with year := t.year + 1, month := 1, day := 1 })
      hmode' dw (by dsimp only; omega) (by dsimp only; omega) (by
        rw [Function.update_self, h.century, bcdToBin_bcd (by omega), ofNat_add_one,
          binToBcd_ofNat (by omega), hcentury])
    rw [hyear] at hstore
    exact hstore

theorem updateDate_control (behind : ℕ → ℤ) (p : Cmos) :
    updateDate behind p RTC_CONTROL = p RTC_CONTROL := by
  have hdone : ∀ (q : Cmos) (dw dm mo y : UChar),
      dupdateDone q dw dm mo y RTC_CONTROL = q RTC_CONTROL := fun _ _ _ _ _ => rfl
  unfold updateDate
  dsimp only
  split_ifs
  · exact hdone _ _ _ _ _
  · exact hdone _ _ _ _ _
  · exact hdone _ _ _ _ _
  · exact hdone _ _ _ _ _

theorem ShowsDate.congr (h : ShowsDate binary p t) (hday : q RTC_DAY_OF_MONTH = p RTC_DAY_OF_MONTH)
    (hmonth : q RTC_MONTH = p RTC_MONTH) (hyear : q RTC_YEAR = p RTC_YEAR)
    (hcentury : q CENTURY = p CENTURY) : ShowsDate binary q t :=
  ⟨hday.trans h.day, hmonth.trans h.month, hyear.trans h.year, hcentury.trans h.century⟩

/-- The new time is stored, and the date stays. -/
theorem tupdateDone_shows (hmode : Binary p ↔ binary = true)
    (hruns : p RTC_CONTROL &&& RTC_SET = 0) (hdate : ShowsDate binary p t) (hh : t.hour < 256)
    (hm : t.minute < 256) (hs : t.second < 256) :
    Shows binary (tupdateDone p (BitVec.ofNat 8 t.hour) (BitVec.ofNat 8 t.minute)
      (BitVec.ofNat 8 t.second)).1 t :=
  ⟨⟨ofBin_ofNat hmode hh, ofBin_ofNat hmode hm, ofBin_ofNat hmode hs⟩,
    hdate.congr rfl rfl rfl rfl, hmode, hruns⟩

/-- A counter below `n` wraps at `n`. -/
theorem ofNat_wrap {x n : ℕ} (hx : x < n) (hn : n < 256) :
    BitVec.ofNat 8 (x + 1) % BitVec.ofNat 8 n ≠ 0 ↔ x + 1 < n := by
  have hmod : (BitVec.ofNat 8 (x + 1) % BitVec.ofNat 8 n).toNat = (x + 1) % n := by
    rw [BitVec.toNat_umod, toNat_ofNat (by omega), toNat_ofNat hn]
  by_cases hlt : x + 1 < n
  · refine iff_of_true (fun hc => ?_) hlt
    rw [hc, Nat.mod_eq_of_lt hlt] at hmod
    exact absurd hmod (Nat.succ_ne_zero x).symm
  · have hn : x + 1 = n := by omega
    rw [hn, Nat.mod_self] at hmod
    refine iff_of_false (not_not.mpr ?_) hlt
    rw [hn]
    exact BitVec.eq_of_toNat_eq hmod

/-- A tick takes the clock to the next second, by the table. -/
theorem rtcUpdate_shows (behind : ℕ → ℤ) (h : Shows binary p t) (ht : t.Valid)
    (hyear : t.year < 10000) :
    Shows binary (rtcUpdate behind p).1 (t.tick (tableLength behind t)) := by
  obtain ⟨⟨hh, hm, hs⟩, hdate, hmode, hruns⟩ := h
  have hlt := ht.hour
  have hlt' := ht.minute
  have hlt'' := ht.second
  rw [rtcUpdate, if_neg (not_not.mpr hruns)]
  set q := Function.update p RTC_REG_A (p RTC_REG_A ||| RTC_UIP) with hq
  have hmode : Binary q ↔ binary = true := hmode
  have hruns : q RTC_CONTROL &&& RTC_SET = 0 := hruns
  have hdate : ShowsDate binary q t := hdate.congr rfl rfl rfl rfl
  have hh : toBin q (q RTC_HOURS) = BitVec.ofNat 8 t.hour := by
    rw [← toBin_field hmode (by omega), ← hh]
    rfl
  have hm : toBin q (q RTC_MINUTES) = BitVec.ofNat 8 t.minute := by
    rw [← toBin_field hmode (by omega), ← hm]
    rfl
  have hs : toBin q (q RTC_SECONDS) = BitVec.ofNat 8 t.second := by
    rw [← toBin_field hmode (by omega), ← hs]
    rfl
  have hsec : BitVec.ofNat 8 (t.second + 1) % 60 ≠ 0 ↔ t.second + 1 < 60 :=
    ofNat_wrap hlt'' (by decide)
  have hmin : BitVec.ofNat 8 (t.minute + 1) % 60 ≠ 0 ↔ t.minute + 1 < 60 :=
    ofNat_wrap hlt' (by decide)
  have hhour : BitVec.ofNat 8 (t.hour + 1) % 24 ≠ 0 ↔ t.hour + 1 < 24 :=
    ofNat_wrap hlt (by decide)
  unfold updateTime Moment.tick
  simp only [hh, hm, hs, ofNat_add_one, hsec, hmin, hhour]
  have hsame : ∀ (hour minute second : ℕ), ShowsDate binary q { t with hour, minute, second } :=
    fun _ _ _ => ⟨hdate.day, hdate.month, hdate.year, hdate.century⟩
  split_ifs with h₁ h₂ h₃
  · exact tupdateDone_shows (t := { t with second := t.second + 1 }) hmode hruns (hsame _ _ _)
      (by dsimp only; omega) (by dsimp only; omega) (by dsimp only; omega)
  · exact tupdateDone_shows (t := { t with minute := t.minute + 1, second := 0 }) hmode hruns
      (hsame _ _ _) (by dsimp only; omega) (by dsimp only; omega) (by dsimp only; omega)
  · exact tupdateDone_shows (t := { t with hour := t.hour + 1, minute := 0, second := 0 }) hmode
      hruns (hsame _ _ _) (by dsimp only; omega) (by dsimp only; omega) (by dsimp only; omega)
  · -- midnight: the date is that of the next day
    have hmode' : Binary (updateDate behind q) ↔ binary = true := by
      rw [Binary, updateDate_control]
      exact hmode
    have hruns' : updateDate behind q RTC_CONTROL &&& RTC_SET = 0 := by
      rw [updateDate_control]
      exact hruns
    have hlen := monthLength_le t.year t.month
    have hday := ht.day_le
    have hdate' : ShowsDate binary (updateDate behind q)
        ({ t with hour := 0, minute := 0, second := 0 }.turn (tableLength behind t)) :=
      updateDate_shows behind (hsame 0 0 0) hmode (by dsimp only; omega) ht.month_le hyear
    obtain ⟨hh₀, hm₀, hs₀⟩ :=
      Moment.turn_time (tableLength behind t) { t with hour := 0, minute := 0, second := 0 }
    have h256 : 0 < 256 := by decide
    have hstore := tupdateDone_shows hmode' hruns' hdate' (by rw [hh₀]; exact h256)
      (by rw [hm₀]; exact h256) (by rw [hs₀]; exact h256)
    rw [hh₀, hm₀, hs₀] at hstore
    exact hstore

end Tick

/-! ## Reports -/

/-- What is read of the clock is `t`, in BCD. -/
structure Reports (p : Cmos) (t : Moment) : Prop where
  hour : ∀ regs, IsBcd (get8h (getBcdTime p regs).ecx) t.hour
  minute : ∀ regs, IsBcd (get8 (getBcdTime p regs).ecx) t.minute
  second : ∀ regs, IsBcd (get8h (getBcdTime p regs).edx) t.second
  century : ∀ regs, IsBcd (get8h (getBcdDate p regs).ecx) (t.year / 100)
  year : ∀ regs, IsBcd (get8 (getBcdDate p regs).ecx) (t.year % 100)
  month : ∀ regs, IsBcd (get8h (getBcdDate p regs).edx) t.month
  day : ∀ regs, IsBcd (get8 (getBcdDate p regs).edx) t.day

/-- The date of `t` has four digits for its year, and in binary mode one digit for each other
part. -/
def Readable (binary : Bool) (t : Moment) : Prop :=
  t.year < 10000 ∧ (binary = true → t.year % 100 < 10 ∧ t.month < 10 ∧ t.day < 10)

/-- The table ends the day of `t` as the calendar does. -/
def TurnsRight (behind : ℕ → ℤ) (t : Moment) : Prop :=
  t.LastSecond → ((t.day : ℤ) + 1 ≤ tableLength behind t ↔ t.day + 1 ≤ monthLength t.year t.month)

section Reports

variable {binary : Bool} {p : Cmos} {t t' : Moment} {x : ℕ}

theorem isBcd_time (hmode : Binary p ↔ binary = true) (h : x < 100) :
    IsBcd (if Binary p then binToBcd (field binary x) else field binary x) x := by
  refine ⟨h, ?_⟩
  unfold field
  by_cases hb : binary = true
  · rw [if_pos (hmode.mpr hb), if_pos hb, binToBcd_ofNat (by omega)]
  · rw [if_neg (fun hc => hb (hmode.mp hc)), if_neg hb]

/-- `get_bcd_date` converts the wrong way. -/
theorem isBcd_date (hmode : Binary p ↔ binary = true) (h : x < 100) :
    IsBcd (if Binary p then bcdToBin (field binary x) else field binary x) x ↔
      (binary = true → x < 10) := by
  unfold field
  by_cases hb : binary = true
  · rw [if_pos (hmode.mpr hb), if_pos hb, isBcd_bcdToBin h]
    exact ⟨fun hlt _ => hlt, fun hlt => hlt hb⟩
  · rw [if_neg (fun hc => hb (hmode.mp hc)), if_neg hb]
    exact iff_of_true ⟨h, rfl⟩ fun hc => absurd hc hb

/-- A clock that shows `t` reports it, if it can be read. -/
theorem Shows.reports (h : Shows binary p t) (ht : t.Valid) : Reports p t ↔ Readable binary t := by
  obtain ⟨⟨hh, hm, hs⟩, ⟨hday, hmonth, hyear, hcentury⟩, hmode, -⟩ := h
  have hlen := monthLength_le t.year t.month
  have hday' := ht.day_le
  have hmonth' := ht.month_le
  have hread := isBcd_date hmode (by omega : t.year % 100 < 100)
  have hreadMonth := isBcd_date hmode (by omega : t.month < 100)
  have hreadDay := isBcd_date hmode (by omega : t.day < 100)
  rw [← hyear] at hread
  rw [← hmonth] at hreadMonth
  rw [← hday] at hreadDay
  constructor
  · intro hr
    have hc := hr.century ⟨0, 0, 0⟩
    have hy := hr.year ⟨0, 0, 0⟩
    have hm := hr.month ⟨0, 0, 0⟩
    have hd := hr.day ⟨0, 0, 0⟩
    unfold getBcdDate at hc hy hm hd
    dsimp only at hc hy hm hd
    rw [get8h_set8, get8h_set8h] at hc hm
    rw [get8_set8] at hy hd
    have hlt := hc.1
    exact ⟨by omega, fun hb => ⟨hread.mp hy hb, hreadMonth.mp hm hb, hreadDay.mp hd hb⟩⟩
  · rintro ⟨hlt, hb⟩
    have htime := isBcd_time hmode (x := t.hour) (by have := ht.hour; omega)
    have hminute := isBcd_time hmode (x := t.minute) (by have := ht.minute; omega)
    have hsecond := isBcd_time hmode (x := t.second) (by have := ht.second; omega)
    rw [← hh] at htime
    rw [← hm] at hminute
    rw [← hs] at hsecond
    constructor <;> intro regs
    · rw [getBcdTime, get8h_set8, get8h_set8h]
      exact htime
    · rw [getBcdTime, get8_set8]
      exact hminute
    · rw [getBcdTime, get8h_set8, get8h_set8h]
      exact hsecond
    · rw [getBcdDate, get8h_set8, get8h_set8h, hcentury]
      exact ⟨by omega, rfl⟩
    · rw [getBcdDate, get8_set8]
      exact hread.mpr fun hc => (hb hc).1
    · rw [getBcdDate, get8h_set8, get8h_set8h]
      exact hreadMonth.mpr fun hc => (hb hc).2.1
    · rw [getBcdDate, get8_set8]
      exact hreadDay.mpr fun hc => (hb hc).2.2

/-- The first day of a month is read as such, and no other day is. -/
theorem eq_one_iff_of_read {y : ℕ} (hmode : Binary p ↔ binary = true) (hx : x < 100)
    (h : IsBcd (if Binary p then bcdToBin (field binary x) else field binary x) y) :
    x = 1 ↔ y = 1 := by
  obtain ⟨hy, heq⟩ := h
  have heq := congrArg BitVec.toNat heq
  rw [toNat_bcd (by omega)] at heq
  unfold field at heq
  by_cases hb : binary = true
  · rw [if_pos (hmode.mpr hb), if_pos hb, toNat_bcdToBin, toNat_ofNat (by omega)] at heq
    omega
  · rw [if_neg (fun hc => hb (hmode.mp hc)), if_neg hb, toNat_bcd (by omega)] at heq
    omega

/-- A tick that ends the day wrongly is seen. -/
theorem Shows.turnsRight {behind : ℕ → ℤ} (h : Shows binary p t) (ht : t.Valid)
    (hyear : t.year < 10000) (hr : Reports (rtcUpdate behind p).1 t.next) :
    TurnsRight behind t := by
  intro hl
  have hshows := rtcUpdate_shows behind h ht hyear
  have hpos := ht.day_pos
  have hle := ht.day_le
  have hlen := monthLength_le t.year t.month
  have hread := hr.day ⟨0, 0, 0⟩
  have htable := Moment.tick_day hl (tableLength behind t)
  have hnext : t.next.day = _ := Moment.tick_day hl (monthLength t.year t.month)
  rw [getBcdDate, get8_set8, hshows.date.day, hnext] at hread
  have hone := eq_one_iff_of_read hshows.mode (by rw [htable]; split_ifs <;> omega) hread
  rw [htable] at hone
  split_ifs at hone with h₁ h₂ h₂
  · exact iff_of_true h₁ (by omega)
  · omega
  · omega
  · exact iff_of_false h₁ (by omega)

end Reports

/-- Where the table ends the day right, the clock goes on with the calendar. -/
theorem Shows.next {binary : Bool} {p : Cmos} {t : Moment} {behind : ℕ → ℤ} (h : Shows binary p t)
    (ht : t.Valid) (hyear : t.year < 10000) (hturn : TurnsRight behind t) :
    Shows binary (rtcUpdate behind p).1 t.next := by
  have hsame : t.tick (tableLength behind t) = t.next := by
    refine Moment.tick_congr ht fun hl => ?_
    rw [hturn hl]
    omega
  rw [← hsame]
  exact rtcUpdate_shows behind h ht hyear

/-! ## Setting the clock -/

/-- The registers hold the time of `t`. -/
structure IsTime (regs : Vm86Regs) (t : Moment) : Prop where
  hour : IsBcd (get8h regs.ecx) t.hour
  minute : IsBcd (get8 regs.ecx) t.minute
  second : IsBcd (get8h regs.edx) t.second

/-- The registers hold the date of `t`. -/
structure IsDate (regs : Vm86Regs) (t : Moment) : Prop where
  century : IsBcd (get8h regs.ecx) (t.year / 100)
  year : IsBcd (get8 regs.ecx) (t.year % 100)
  month : IsBcd (get8h regs.edx) t.month
  day : IsBcd (get8 regs.edx) t.day

section Set

variable {p : Cmos} {t : Moment} {time date : Vm86Regs} {x : ℕ} {b : UChar}

theorem field_of_isBcd (h : IsBcd b x) :
    (if Binary p then bcdToBin b else b) = field (decide (Binary p)) x := by
  unfold field
  by_cases hb : Binary p
  · rw [if_pos hb, if_pos (decide_eq_true hb), h.2, bcdToBin_bcd h.1]
  · rw [if_neg hb, if_neg (fun hc => hb (of_decide_eq_true hc)), h.2]

theorem setBcdTime_control (p : Cmos) (regs : Vm86Regs) {m : UChar} (hm : RTC_DST_EN &&& m = 0)
    (hm' : ~~~RTC_DST_EN &&& m = m) :
    setBcdTime p regs RTC_CONTROL &&& m = p RTC_CONTROL &&& m := by
  show (if _ then p RTC_CONTROL ||| RTC_DST_EN else p RTC_CONTROL &&& ~~~RTC_DST_EN) &&& m = _
  split
  · rw [BitVec.and_or_distrib_right, hm]
    exact BitVec.or_zero
  · rw [BitVec.and_assoc, hm']

/-- A time and a date that are set are shown. -/
theorem set_shows (hruns : p RTC_CONTROL &&& RTC_SET = 0) (htime : IsTime time t)
    (hdate : IsDate date t) :
    Shows (decide (Binary p)) (setBcdDate (setBcdTime p time) date) t := by
  have hmode : Binary (setBcdTime p time) ↔ Binary p := by
    rw [Binary, Binary, setBcdTime_control p time (by decide) (by decide)]
  refine ⟨⟨?_, ?_, ?_⟩, ⟨?_, ?_, ?_, ?_⟩, ?_, ?_⟩
  · exact field_of_isBcd htime.hour
  · exact field_of_isBcd htime.minute
  · exact field_of_isBcd htime.second
  · exact (if_congr hmode rfl rfl).trans (field_of_isBcd hdate.day)
  · exact (if_congr hmode rfl rfl).trans (field_of_isBcd hdate.month)
  · exact (if_congr hmode rfl rfl).trans (field_of_isBcd hdate.year)
  · exact hdate.century.2
  · exact hmode.trans decide_eq_true_iff.symm
  · exact (setBcdTime_control p time (by decide) (by decide)).trans hruns

end Set

/-! ## Runs -/

/-- The clock `n` ticks after its time and date were set. -/
def clockAfter (behind : ℕ → ℤ) (p : Cmos) (time date : Vm86Regs) (n : ℕ) : Cmos :=
  (fun p => (rtcUpdate behind p).1)^[n] (setBcdDate (setBcdTime p time) date)

theorem clockAfter_succ (behind : ℕ → ℤ) (p : Cmos) (time date : Vm86Regs) (n : ℕ) :
    clockAfter behind p time date (n + 1) =
      (rtcUpdate behind (clockAfter behind p time date n)).1 :=
  Function.iterate_succ_apply' ..

/-- **The clock.** A clock that is set, and runs, reports the Gregorian date and time of every
second up to the `N`-th, if and only if the table ends each day on the way right, and in
binary mode no part of a date has two digits. -/
theorem rtc_runs (behind : ℕ → ℤ) (p : Cmos) (hruns : p RTC_CONTROL &&& RTC_SET = 0) (t : Moment)
    (ht : t.Valid) (time date : Vm86Regs) (htime : IsTime time t) (hdate : IsDate date t) (N : ℕ) :
    (∀ n ≤ N, ∀ t' : Moment, t'.Valid → t'.seconds = t.seconds + n →
      Reports (clockAfter behind p time date n) t') ↔
    (∀ n ≤ N, ∀ t' : Moment, t'.Valid → t'.seconds = t.seconds + n →
      Readable (decide (Binary p)) t' ∧ (n < N → TurnsRight behind t')) := by
  simp only [ht.forall_later]
  constructor
  · intro hrep
    have hshows : ∀ n ≤ N, Shows (decide (Binary p)) (clockAfter behind p time date n)
        (Moment.next^[n] t) := by
      intro n
      induction n with
      | zero => exact fun _ => set_shows hruns htime hdate
      | succ n ih =>
        intro hn
        have hsh := ih (Nat.le_of_succ_le hn)
        have hvalid := (ht.iterate n).1
        have hread := (hsh.reports hvalid).mp (hrep n (Nat.le_of_succ_le hn))
        have hnext := hrep (n + 1) hn
        rw [clockAfter_succ, Function.iterate_succ_apply'] at hnext ⊢
        exact hsh.next hvalid hread.1 (hsh.turnsRight hvalid hread.1 hnext)
    intro n hn
    have hvalid := (ht.iterate n).1
    have hread := ((hshows n hn).reports hvalid).mp (hrep n hn)
    refine ⟨hread, fun hlt => ?_⟩
    have hnext := hrep (n + 1) hlt
    rw [clockAfter_succ, Function.iterate_succ_apply'] at hnext
    exact (hshows n hn).turnsRight hvalid hread.1 hnext
  · intro hok n hn
    have hshows : ∀ n ≤ N, Shows (decide (Binary p)) (clockAfter behind p time date n)
        (Moment.next^[n] t) := by
      intro n
      induction n with
      | zero => exact fun _ => set_shows hruns htime hdate
      | succ n ih =>
        intro hn
        obtain ⟨hread, hturn⟩ := hok n (Nat.le_of_succ_le hn)
        rw [clockAfter_succ, Function.iterate_succ_apply']
        exact (ih (Nat.le_of_succ_le hn)).next (ht.iterate n).1 hread.1 (hturn hn)
    exact ((hshows n hn).reports (ht.iterate n).1).mpr (hok n hn).1

/-- A second after midnight of the first of January 2001. -/
theorem rtc_runs_2001 : Reports (clockAfter (fun _ => 0) (fun _ => 0) ⟨0, 0, 0⟩
    ⟨0x2001, 0x0101, 0⟩ 1) ⟨2001, 1, 1, 0, 0, 1⟩ := by
  have ht : (⟨2001, 1, 1, 0, 0, 0⟩ : Moment).Valid :=
    ⟨by decide, by decide, by decide, by decide, by decide, by decide, by decide⟩
  refine (rtc_runs (fun _ => 0) (fun _ => 0) rfl _ ht ⟨0, 0, 0⟩ ⟨0x2001, 0x0101, 0⟩
    ⟨⟨by decide, rfl⟩, ⟨by decide, rfl⟩, ⟨by decide, rfl⟩⟩
    ⟨⟨by decide, rfl⟩, ⟨by decide, rfl⟩, ⟨by decide, rfl⟩, ⟨by decide, rfl⟩⟩ 1).mpr ?_ 1
    (le_refl 1) _ ht.next.1 ht.next.2
  simp only [ht.forall_later]
  intro n hn
  interval_cases n
  · exact ⟨⟨by decide, fun _ => by decide⟩, fun _ hl => absurd hl.1 (by decide)⟩
  · exact ⟨⟨by decide, fun _ => by decide⟩, fun hlt => absurd hlt (by decide)⟩

/-- The day after the 28th of January 1999 is the first of February. -/
theorem january_ends_early : ¬∀ (behind : ℕ → ℤ) (p : Cmos), p RTC_CONTROL &&& RTC_SET = 0 →
    ∀ t : Moment, t.Valid → ∀ time date : Vm86Regs, IsTime time t → IsDate date t →
    ∀ (n : ℕ) (t' : Moment), t'.Valid → t'.seconds = t.seconds + n →
      Reports (clockAfter behind p time date n) t' := by
  intro hall
  have ht : (⟨1999, 1, 28, 23, 59, 59⟩ : Moment).Valid :=
    ⟨by decide, by decide, by decide, by decide, by decide, by decide, by decide⟩
  have hrep := hall (fun _ => 0) (fun _ => 0) rfl _ ht ⟨0x2359, 0x5900, 0⟩ ⟨0x1999, 0x0128, 0⟩
    ⟨⟨by decide, rfl⟩, ⟨by decide, rfl⟩, ⟨by decide, rfl⟩⟩
    ⟨⟨by decide, rfl⟩, ⟨by decide, rfl⟩, ⟨by decide, rfl⟩, ⟨by decide, rfl⟩⟩ 1 _ ht.next.1 ht.next.2
  exact absurd (hrep.day ⟨0, 0, 0⟩).2 (by decide)

end Vmm386.Vcmos
