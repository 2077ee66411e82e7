import Mathlib.Data.BitVec
import Vmm386.Time.ExpandTime

/-!
# `expand_time` and `mktime` against the calendar
-/

namespace Vmm386.Time

open Calendar

/-! ## The loops -/

/-- The loops end with the period that `cal` falls into. `S` adds the lengths up. -/
theorem countOff_eq {len : ℕ → Option ULong} {S : ℕ → ℕ} {j r : ℕ} (hmono : Monotone S)
    (hr : S j + r < S (j + 1)) {fuel i : ℕ} {cal : ULong}
    (hlen : ∀ k, i ≤ k → k ≤ j → ∃ nxt, len k = some nxt ∧ S (k + 1) = S k + nxt.toNat)
    (hij : i ≤ j) (hfuel : j - i < fuel) (hcal : cal.toNat + S i = S j + r) :
    countOff len fuel i cal = some (j, BitVec.ofNat 32 r) := by
  induction fuel generalizing i cal with
  | zero => omega
  | succ fuel ih =>
    obtain ⟨nxt, hnxt, hS⟩ := hlen i le_rfl hij
    rw [countOff, hnxt, Option.bind_some]
    by_cases heq : i = j
    · subst heq
      have hcal' : cal.toNat = r := by omega
      have hlt : cal < nxt := BitVec.lt_def.mpr (by omega)
      rw [if_pos hlt, ← hcal', BitVec.ofNat_toNat, BitVec.setWidth_eq]
    · have hle : S (i + 1) ≤ S j := hmono (by omega)
      have hge : nxt.toNat ≤ cal.toNat := by omega
      rw [if_neg fun hlt => absurd (BitVec.lt_def.mp hlt) (by omega)]
      apply ih (fun k hk hk' => hlen k (by omega) hk') (by omega) (by omega)
      rw [BitVec.toNat_sub_of_le (BitVec.le_def.mpr hge)]
      omega

theorem leapYear_eq (y : ℕ) : leapYear y = if IsLeap y then 1 else 0 := rfl

theorem daysBeforeYear_yearDays (y : ℕ) :
    daysBeforeYear (y + 1) = daysBeforeYear y + (yearDays y).toNat := by
  have hsum := daysBeforeMonth_eq (y := y) (m := 13) (by decide) le_rfl
  rw [daysBeforeYear_succ, hsum, yearDays, leapYear_eq]
  by_cases hl : IsLeap y <;> simp [hl]

/-- The days of the year before the month with the index `k`, as the table has them: its
April is a day too long. -/
def tableDays (y k : ℕ) : ℕ := daysBeforeMonth y (k + 1) + if k = 4 then 1 else 0

theorem tableDays_monthDays {y k : ℕ} (h : k < 12) :
    ∃ nxt, monthDays y k = some nxt ∧ tableDays y (k + 1) = tableDays y k + nxt.toNat := by
  have hcases : k = 0 ∨ k = 1 ∨ k = 2 ∨ k = 3 ∨ k = 4 ∨ k = 5 ∨ k = 6 ∨ k = 7 ∨ k = 8 ∨ k = 9 ∨
      k = 10 ∨ k = 11 := by omega
  unfold tableDays monthDays
  rw [leapYear_eq, daysBeforeMonth_succ (Nat.le_add_left 1 k)]
  rcases hcases with rfl | rfl | rfl | rfl | rfl | rfl | rfl | rfl | rfl | rfl | rfl | rfl <;>
    by_cases hl : IsLeap y <;> simp [hl, daysPerMonth, monthLength]

theorem tableDays_mono (y : ℕ) : Monotone (tableDays y) := by
  refine monotone_nat_of_le_succ fun k => ?_
  have hpos := monthLength_pos y (k + 1)
  have hsucc := daysBeforeMonth_succ (y := y) (Nat.le_add_left 1 k)
  unfold tableDays
  split_ifs <;> omega

/-! ## The date -/

/-- The first of January 1970. -/
def epoch : Moment := ⟨1970, 1, 1, 0, 0, 0⟩

theorem epoch_valid : epoch.Valid := by
  constructor <;> decide

/-- The moment `cal` seconds after the epoch. -/
def momentAt (cal : ULong) : Moment := Moment.next^[cal.toNat] epoch

/-- The moment that broken-down time names. -/
def TimeBits.moment (tm : TimeBits) : Moment :=
  ⟨tm.year, tm.month, tm.day.toNat, tm.hour.toNat, tm.minute.toNat, tm.second.toNat⟩

/-- The date that the table makes of a date: the first of May becomes the 31st of April. -/
def tableDate (t : Moment) : Moment :=
  if t.month = 5 then
    if t.day = 1 then { t with month := 4, day := 31 } else { t with day := t.day - 1 }
  else t

@[simp] theorem tableDate_year (t : Moment) : (tableDate t).year = t.year := by
  unfold tableDate
  split_ifs <;> rfl

theorem tableDate_time (t : Moment) :
    (tableDate t).hour = t.hour ∧ (tableDate t).minute = t.minute ∧
      (tableDate t).second = t.second := by
  unfold tableDate
  split_ifs <;> exact ⟨rfl, rfl, rfl⟩

/-- The table's date stands for the same day of the year. -/
theorem tableDate_days {t : Moment} (h : t.Valid) :
    1 ≤ (tableDate t).month ∧ (tableDate t).month ≤ 12 ∧ 1 ≤ (tableDate t).day ∧
      (tableDate t).day ≤ 31 ∧
      tableDays t.year ((tableDate t).month - 1) + ((tableDate t).day - 1) =
        daysBeforeMonth t.year t.month + (t.day - 1) ∧
      tableDays t.year ((tableDate t).month - 1) + ((tableDate t).day - 1) <
        tableDays t.year ((tableDate t).month - 1 + 1) := by
  have hmonth := h.month_pos
  have hmonth' := h.month_le
  have hday := h.day_pos
  have hday' := h.day_le
  have hlen := monthLength_le t.year t.month
  have hsucc := daysBeforeMonth_succ (y := t.year) h.month_pos
  have hapril : daysBeforeMonth t.year 5 = daysBeforeMonth t.year 4 + 30 :=
    daysBeforeMonth_succ (by decide)
  unfold tableDate
  split_ifs with hm hd
  · -- the first of May
    rw [hm] at hsucc ⊢
    simp only [tableDays, Nat.reduceSub, Nat.reduceAdd]
    rw [if_neg (by decide), if_pos (by decide)]
    omega
  · rw [hm] at hsucc hday' ⊢
    have hmay : monthLength t.year 5 = 31 := rfl
    simp only [Nat.reduceAdd] at hsucc
    simp only [tableDays, Nat.reduceSub, Nat.reduceAdd]
    rw [if_pos (by decide), if_neg (by decide)]
    omega
  · have hne : t.month - 1 ≠ 4 := by omega
    simp only [tableDays, Nat.sub_add_cancel hmonth]
    rw [if_neg hne]
    omega

theorem momentAt_valid (cal : ULong) : (momentAt cal).Valid := (epoch_valid.iterate cal.toNat).1

theorem momentAt_seconds (cal : ULong) :
    (momentAt cal).seconds = epoch.seconds + cal.toNat := (epoch_valid.iterate cal.toNat).2

theorem epoch_seconds : epoch.seconds = 719528 * 86400 := by decide

/-- The whole days since the epoch. -/
theorem momentAt_days (cal : ULong) :
    daysBeforeYear (momentAt cal).year +
        daysBeforeMonth (momentAt cal).year (momentAt cal).month + ((momentAt cal).day - 1) =
      719528 + cal.toNat / 86400 := by
  have hs := momentAt_seconds cal
  have hv := momentAt_valid cal
  have hh := hv.hour
  have hm := hv.minute
  have hsec := hv.second
  rw [epoch_seconds, Moment.seconds] at hs
  omega

theorem momentAt_time (cal : ULong) :
    (momentAt cal).hour = cal.toNat / 60 / 60 % 24 ∧
      (momentAt cal).minute = cal.toNat / 60 % 60 ∧ (momentAt cal).second = cal.toNat % 60 := by
  have hs := momentAt_seconds cal
  have hv := momentAt_valid cal
  have hh := hv.hour
  have hm := hv.minute
  have hsec := hv.second
  rw [epoch_seconds, Moment.seconds] at hs
  omega

theorem momentAt_year (cal : ULong) : 1970 ≤ (momentAt cal).year := by
  have hdays := momentAt_days cal
  have hlt := (momentAt_valid cal).year_days
  by_contra hlate
  have hmono : daysBeforeYear ((momentAt cal).year + 1) ≤ daysBeforeYear 1970 :=
    daysBeforeYear_mono (by omega)
  have hepoch : daysBeforeYear 1970 = 719528 := rfl
  omega

/-- `expand_time` returns, with the date of the table. -/
theorem expandTime_date (cal : ULong) :
    ∃ tm, expandTime cal = some tm ∧ tm.moment = tableDate (momentAt cal) ∧
      tm.dayOfWeek = dayOfWeek tm.day tm.month tm.year := by
  have hv := momentAt_valid cal
  have hdays := momentAt_days cal
  have hyear := momentAt_year cal
  obtain ⟨hh, hm, hs⟩ := momentAt_time cal
  obtain ⟨hmonth, hmonth', hday, hday', heq, hlt⟩ := tableDate_days hv
  obtain ⟨hh', hm', hs'⟩ := tableDate_time (momentAt cal)
  have hcal := cal.isLt
  generalize momentAt cal = t at *
  generalize htable : tableDate t = t' at *
  have hcount : (cal / SECS_PER_MIN / MINS_PER_HOUR / HOURS_PER_DAY).toNat = cal.toNat / 86400 := by
    simp only [BitVec.toNat_udiv]
    rw [Nat.div_div_eq_div_mul, Nat.div_div_eq_div_mul]
    rfl
  have hyears : countOff (fun year => some (yearDays year))
      ((cal / SECS_PER_MIN / MINS_PER_HOUR / HOURS_PER_DAY).toNat + 1) EPOCH_YEAR
      (cal / SECS_PER_MIN / MINS_PER_HOUR / HOURS_PER_DAY) =
        some (t.year, BitVec.ofNat 32 (daysBeforeMonth t.year t.month + (t.day - 1))) := by
    have hepoch : daysBeforeYear 1970 = 719528 := rfl
    have hgrow := daysBeforeYear_strictMono.add_le_nat (t.year - 1970) 1970
    rw [Nat.sub_add_cancel hyear] at hgrow
    have hend := hv.year_days
    apply countOff_eq (S := daysBeforeYear) (fun _ _ h => daysBeforeYear_mono h) (by omega)
      (fun k _ _ => ⟨_, rfl, daysBeforeYear_yearDays k⟩) hyear (by omega)
    omega
  have hsmall : daysBeforeMonth t.year t.month + (t.day - 1) < 2 ^ 32 := by
    have hend := hv.year_days
    have hone := daysBeforeYear_yearDays t.year
    have hlen : (yearDays t.year).toNat ≤ 366 := by
      unfold yearDays
      split_ifs <;> decide
    omega
  have hmonths : countOff (monthDays t.year) 13 0
      (BitVec.ofNat 32 (daysBeforeMonth t.year t.month + (t.day - 1))) =
        some (t'.month - 1, BitVec.ofNat 32 (t'.day - 1)) := by
    apply countOff_eq (tableDays_mono t.year) hlt
      (fun k _ hk => tableDays_monthDays (by omega)) (by omega) (by omega)
    have hzero : tableDays t.year 0 = 0 := rfl
    rw [hzero, heq, BitVec.toNat_ofNat, Nat.mod_eq_of_lt hsmall, Nat.add_zero]
  simp only [expandTime, hyears, hmonths, Option.bind_some]
  refine ⟨_, rfl, ?_, rfl⟩
  have hyear' : t'.year = t.year := by rw [← htable, tableDate_year]
  have hdate : t'.month - 1 + 1 = t'.month ∧ (BitVec.ofNat 32 (t'.day - 1) + 1).toNat = t'.day := by
    rw [BitVec.toNat_add, BitVec.toNat_ofNat]
    change _ ∧ ((t'.day - 1) % 2 ^ 32 + 1) % 2 ^ 32 = _
    omega
  unfold TimeBits.moment
  simp only [hdate, BitVec.toNat_udiv, BitVec.toNat_umod]
  change _ = Moment.mk t'.year t'.month t'.day t'.hour t'.minute t'.second
  rw [hyear', hh', hm', hs', hh, hm, hs]
  rfl

/-- The name of the month. -/
theorem expandTime_monthAbbrev {cal : ULong} {tm : TimeBits} (h : expandTime cal = some tm) :
    tm.monthAbbrev = monthAbbrevs.getD (tm.month - 1) "" := by
  unfold expandTime at h
  obtain ⟨y, -, h⟩ := Option.bind_eq_some_iff.mp h
  obtain ⟨m, -, h⟩ := Option.bind_eq_some_iff.mp h
  cases Option.some_inj.mp h
  rfl

/-! ## The way back -/

theorem ofNat_udiv {a b : ℕ} (ha : a < 2 ^ 32) (hb : b < 2 ^ 32) :
    (BitVec.ofNat 32 a) / (BitVec.ofNat 32 b) = BitVec.ofNat 32 (a / b) := by
  apply BitVec.eq_of_toNat_eq
  have hle : a / b ≤ a := Nat.div_le_self a b
  rw [BitVec.toNat_udiv, BitVec.toNat_ofNat, BitVec.toNat_ofNat, BitVec.toNat_ofNat,
    Nat.mod_eq_of_lt ha, Nat.mod_eq_of_lt hb, Nat.mod_eq_of_lt (by omega)]

/-- The shift of the first two months to the end of the year before. -/
theorem shift_eq {m y : ℕ} (h : 1 ≤ m) (hle : m ≤ 12) (hy : 1 ≤ y) :
    (if (BitVec.ofNat 32 m - 2).toInt ≤ 0 then (BitVec.ofNat 32 m - 2 + 12, BitVec.ofNat 32 y - 1)
      else (BitVec.ofNat 32 m - 2, BitVec.ofNat 32 y)) =
      (BitVec.ofNat 32 (if m ≤ 2 then m + 10 else m - 2),
        BitVec.ofNat 32 (if m ≤ 2 then y - 1 else y)) := by
  have hyear : BitVec.ofNat 32 y - 1 = BitVec.ofNat 32 (y - 1) := by
    obtain ⟨z, rfl⟩ := Nat.exists_eq_add_of_le' hy
    rw [BitVec.ofNat_add, Nat.add_sub_cancel]
    exact BitVec.add_sub_cancel _ _
  have hcases : m = 1 ∨ m = 2 ∨ m = 3 ∨ m = 4 ∨ m = 5 ∨ m = 6 ∨ m = 7 ∨ m = 8 ∨ m = 9 ∨
      m = 10 ∨ m = 11 ∨ m = 12 := by omega
  rcases hcases with rfl | rfl | rfl | rfl | rfl | rfl | rfl | rfl | rfl | rfl | rfl | rfl <;>
    simp
  · exact hyear
  · exact hyear

/-- The number `mktime` makes, from the years and months that begin in March. -/
theorem count_eq {R : Type*} [CommRing R] {a b c d y n : R} (e h m s : R)
    (hgauss : 365 * y + a + c + d + 30 = n + b) :
    (((a - b + c + d + (e + 1) + y * 365 - 719499) * 24 + h) * 60 + m) * 60 + s =
      (((n + e) * 24 + h) * 60 + m) * 60 + s - 719528 * 86400 := by
  linear_combination 86400 * hgauss

/-- `mktime` numbers the seconds of valid moments. -/
theorem mktime_eq {t : Moment} (h : t.Valid) (hyear : 1 ≤ t.year) (hlate : t.year < 2 ^ 32) :
    mktime (BitVec.ofNat 32 t.year) (BitVec.ofNat 32 t.month) (BitVec.ofNat 32 t.day)
        (BitVec.ofNat 32 t.hour) (BitVec.ofNat 32 t.minute) (BitVec.ofNat 32 t.second) =
      BitVec.ofNat 32 t.seconds - BitVec.ofNat 32 epoch.seconds := by
  have hgauss := gauss_days hyear h.month_pos h.month_le
  have hday := h.day_pos
  have hmonth' := h.month_le
  have hyear' : (if t.month ≤ 2 then t.year - 1 else t.year) < 2 ^ 32 := by split_ifs <;> omega
  have hmon : 367 * (if t.month ≤ 2 then t.month + 10 else t.month - 2) < 2 ^ 32 := by
    split_ifs <;> omega
  rw [epoch_seconds]
  unfold mktime Moment.seconds
  rw [shift_eq h.month_pos h.month_le hyear]
  generalize daysBeforeYear t.year + daysBeforeMonth t.year t.month = n at *
  generalize (if t.month ≤ 2 then t.year - 1 else t.year) = y at *
  generalize (if t.month ≤ 2 then t.month + 10 else t.month - 2) = m at *
  obtain ⟨e, he⟩ := Nat.exists_eq_add_of_le' hday
  have h4 : BitVec.ofNat 32 y / 4 = ((y / 4 : ℕ) : ULong) := ofNat_udiv hyear' (by decide)
  have h100 : BitVec.ofNat 32 y / 100 = ((y / 100 : ℕ) : ULong) := ofNat_udiv hyear' (by decide)
  have h400 : BitVec.ofNat 32 y / 400 = ((y / 400 : ℕ) : ULong) := ofNat_udiv hyear' (by decide)
  have h12 : 367 * BitVec.ofNat 32 m / 12 = ((367 * m / 12 : ℕ) : ULong) := by
    have hdiv := ofNat_udiv (b := 12) hmon (by decide)
    rwa [BitVec.ofNat_mul] at hdiv
  have hgauss' := congrArg (BitVec.ofNat 32) hgauss
  simp only [h4, h100, h400, h12, he, Nat.add_sub_cancel]
  simp only [BitVec.ofNat_add, BitVec.ofNat_mul] at hgauss' ⊢
  exact count_eq _ _ _ _ hgauss'

theorem TimeBits.mktime_eq {tm : TimeBits} (h : tm.moment.Valid) (hyear : 1 ≤ tm.year)
    (hlate : tm.year < 2 ^ 32) :
    mktime (BitVec.ofNat 32 tm.year) (BitVec.ofNat 32 tm.month) tm.day tm.hour tm.minute tm.second =
      BitVec.ofNat 32 tm.moment.seconds - BitVec.ofNat 32 epoch.seconds := by
  have heq := Time.mktime_eq h hyear hlate
  simpa only [TimeBits.moment, BitVec.ofNat_toNat, BitVec.setWidth_eq] using heq

theorem momentAt_year_le (cal : ULong) : (momentAt cal).year ≤ 2106 := by
  have hdays := momentAt_days cal
  have hcal := cal.isLt
  by_contra hlate
  have hmono : daysBeforeYear 2107 ≤ daysBeforeYear (momentAt cal).year :=
    daysBeforeYear_mono (by omega)
  have hend : daysBeforeYear 2107 = 769566 := rfl
  omega

/-- The number of the table's date, in May: a day short. -/
theorem tableDate_seconds {t : Moment} (hm : t.month = 5) (hd : 2 ≤ t.day) :
    (tableDate t).seconds + 86400 = t.seconds := by
  unfold tableDate
  rw [if_pos hm, if_neg (by omega)]
  unfold Moment.seconds
  dsimp only
  omega

/-- **There and back.** `expand_time` makes a date that `mktime` turns into the number it was
made from, except in May: `days_per_month` gives April 31 days and May 30. -/
theorem expandTime_mktime_iff (cal : ULong) :
    (∃ tm, expandTime cal = some tm ∧ tm.moment.Valid ∧
      mktime (BitVec.ofNat 32 tm.year) (BitVec.ofNat 32 tm.month) tm.day tm.hour tm.minute
        tm.second = cal) ↔
      (momentAt cal).month ≠ 5 := by
  obtain ⟨tm, htm, hmoment, -⟩ := expandTime_date cal
  have hyear : tm.year = (momentAt cal).year := by
    rw [← tableDate_year, ← hmoment]
    rfl
  have hearly := momentAt_year cal
  have hlate := momentAt_year_le cal
  have hseconds := momentAt_seconds cal
  have hback : BitVec.ofNat 32 (epoch.seconds + cal.toNat) - BitVec.ofNat 32 epoch.seconds =
      cal := by
    rw [BitVec.ofNat_add, BitVec.add_comm, BitVec.add_sub_cancel, BitVec.ofNat_toNat,
      BitVec.setWidth_eq]
  constructor
  · rintro ⟨tm', htm', hvalid, heq⟩ hmay
    cases htm.symm.trans htm'
    by_cases hd : (momentAt cal).day = 1
    · -- the 31st of April is no date
      have hle := hvalid.day_le
      rw [hmoment, tableDate, if_pos hmay, if_pos hd] at hle
      have hlong : 31 ≤ monthLength (momentAt cal).year 4 := hle
      have hapril : monthLength (momentAt cal).year 4 = 30 := rfl
      omega
    · have hpos := (momentAt_valid cal).day_pos
      have hshort := tableDate_seconds hmay (by omega : 2 ≤ (momentAt cal).day)
      rw [TimeBits.mktime_eq hvalid (by omega) (by omega), hmoment] at heq
      have hsame := heq.trans hback.symm
      rw [← hseconds, ← hshort, BitVec.ofNat_add] at hsame
      have hday : (0 : ULong) = BitVec.ofNat 32 86400 := by
        linear_combination hsame
      exact absurd hday (by decide)
  · intro hmay
    have hsame : tm.moment = momentAt cal := by rw [hmoment, tableDate, if_neg hmay]
    have hvalid : tm.moment.Valid := hsame ▸ momentAt_valid cal
    refine ⟨tm, htm, hvalid, ?_⟩
    rw [TimeBits.mktime_eq hvalid (by omega) (by omega), hsame, hseconds]
    exact hback

/-- The first of May 1970 becomes the 31st of April. -/
theorem expandTime_april :
    ¬∀ cal, ∃ tm, expandTime cal = some tm ∧ tm.moment.Valid ∧
      mktime (BitVec.ofNat 32 tm.year) (BitVec.ofNat 32 tm.month) tm.day tm.hour tm.minute
        tm.second = cal := by
  intro h
  obtain ⟨tm, htm, hvalid, -⟩ := h 10368000
  have hmoment : (expandTime 10368000).map TimeBits.moment = some ⟨1970, 4, 31, 0, 0, 0⟩ := by
    decide +kernel
  rw [htm, Option.map_some, Option.some_inj] at hmoment
  have hle := hvalid.day_le
  rw [hmoment] at hle
  exact absurd hle (by decide)

/-! ## The day of the week -/

theorem dayOfWeek_toNat {d m y : ℕ} (hle : m ≤ 12) (hd : d ≤ 31) (hy : y ≤ 2106) :
    (dayOfWeek (BitVec.ofNat 32 d) m y).toNat =
      (d + 2 * (if m ≤ 2 then m + 12 else m) + 3 * ((if m ≤ 2 then m + 12 else m) + 1) / 5 +
        (if m ≤ 2 then y - 1 else y) / 4 - (if m ≤ 2 then y - 1 else y) / 100 +
        (if m ≤ 2 then y - 1 else y) / 400) % 7 := by
  have hbranch : (if m ≤ 2 then (m + 12, y - 1) else (m, y)) =
      (if m ≤ 2 then m + 12 else m, if m ≤ 2 then y - 1 else y) := by
    split_ifs <;> rfl
  have hmonth : (if m ≤ 2 then m + 12 else m) ≤ 14 := by split_ifs <;> omega
  have hyear : (if m ≤ 2 then y - 1 else y) ≤ 2106 := by split_ifs <;> omega
  unfold dayOfWeek
  rw [hbranch]
  generalize (if m ≤ 2 then m + 12 else m) = m' at *
  generalize (if m ≤ 2 then y - 1 else y) = y' at *
  have hround : y' / 100 ≤ y' / 4 := Nat.div_le_div_left (by decide) (by decide)
  have hweek : BitVec.toNat DAYS_PER_WEEK = 7 := rfl
  obtain ⟨n, hn⟩ : ∃ n, d + 2 * m' + 3 * (m' + 1) / 5 + y' / 4 = n + y' / 100 :=
    Nat.exists_eq_add_of_le' (by omega)
  have hlt : n + y' / 400 < 2 ^ 32 := by omega
  dsimp only
  rw [← BitVec.ofNat_add, ← BitVec.ofNat_add, ← BitVec.ofNat_add, hn, BitVec.ofNat_add,
    BitVec.add_sub_cancel, ← BitVec.ofNat_add, BitVec.toNat_umod, BitVec.toNat_ofNat, hweek,
    Nat.add_sub_cancel, Nat.mod_eq_of_lt hlt]

/-- The formula for the day of the week, which lacks the year itself. -/
theorem dayOfWeek_eq {d m y : ℕ} (h : 1 ≤ m) (hle : m ≤ 12) (hd : 1 ≤ d) (hd' : d ≤ 31)
    (hy : 1 ≤ y) (hy' : y ≤ 2106) :
    ((dayOfWeek (BitVec.ofNat 32 d) m y).toNat + if m ≤ 2 then y - 1 else y) % 7 =
      (daysBeforeYear y + daysBeforeMonth y m + (d - 1) + 5) % 7 := by
  have hgauss := gauss_days hy h hle
  have hmonth : (367 * (if m ≤ 2 then m + 10 else m - 2) / 12 + 6) % 7 =
      (2 * (if m ≤ 2 then m + 12 else m) + 3 * ((if m ≤ 2 then m + 12 else m) + 1) / 5) % 7 := by
    have hcases : m = 1 ∨ m = 2 ∨ m = 3 ∨ m = 4 ∨ m = 5 ∨ m = 6 ∨ m = 7 ∨ m = 8 ∨ m = 9 ∨
        m = 10 ∨ m = 11 ∨ m = 12 := by omega
    rcases hcases with rfl | rfl | rfl | rfl | rfl | rfl | rfl | rfl | rfl | rfl | rfl | rfl <;> rfl
  have hround : (if m ≤ 2 then y - 1 else y) / 100 ≤ (if m ≤ 2 then y - 1 else y) / 4 :=
    Nat.div_le_div_left (by decide) (by decide)
  rw [dayOfWeek_toNat hle hd' hy']
  generalize (if m ≤ 2 then y - 1 else y) = y' at *
  generalize 3 * ((if m ≤ 2 then m + 12 else m) + 1) / 5 = u at *
  generalize (if m ≤ 2 then m + 12 else m) = v at *
  generalize 367 * (if m ≤ 2 then m + 10 else m - 2) / 12 = w at *
  omega

/-- The days that `expand_time` falls behind the calendar by: May has 30 in its table. -/
def lag (t : Moment) : ℕ := if t.month = 5 ∧ 2 ≤ t.day then 1 else 0

/-- The year that a day's formula counts in, which begins in March. -/
def marchYear (t : Moment) : ℕ := if t.month ≤ 2 then t.year - 1 else t.year

/-- The formula at the date of the table, in days of the calendar. -/
theorem tableDate_dayOfWeek {t : Moment} (h : t.Valid) (hearly : 1 ≤ t.year)
    (hlate : t.year ≤ 2106) :
    ((dayOfWeek (BitVec.ofNat 32 (tableDate t).day) (tableDate t).month t.year).toNat +
        (marchYear t + lag t)) % 7 =
      (daysBeforeYear t.year + daysBeforeMonth t.year t.month + (t.day - 1) + 5) % 7 := by
  obtain ⟨hmonth, hmonth', hday, hday', -, -⟩ := tableDate_days h
  have hformula := dayOfWeek_eq hmonth hmonth' hday hday' hearly hlate
  have hpos := h.day_pos
  generalize dayOfWeek _ (tableDate t).month t.year = dow at *
  unfold marchYear lag
  by_cases hmay : t.month = 5
  · have hapril : daysBeforeMonth t.year 5 = daysBeforeMonth t.year 4 + 30 :=
      daysBeforeMonth_succ (by decide)
    unfold tableDate at hformula
    by_cases hd : t.day = 1
    · rw [if_pos hmay, if_pos hd] at hformula
      simp only [hmay, hd] at hformula ⊢
      norm_num at hformula ⊢
      omega
    · rw [if_pos hmay, if_neg hd] at hformula
      have hd' : 2 ≤ t.day := by omega
      simp only [hmay, hd'] at hformula ⊢
      norm_num at hformula ⊢
      omega
  · rw [tableDate, if_neg hmay] at hformula
    simp only [hmay, false_and, if_false]
    omega

/-- **The day of the week.** 1 January 1970 was a Thursday; `expand_time` goes on from there
exactly when the year that its formula leaves out is a multiple of seven, where the day that is
missing in May counts as one more. -/
theorem expandTime_dayOfWeek_iff (cal : ULong) :
    (∃ tm, expandTime cal = some tm ∧ tm.dayOfWeek.toNat = (3 + cal.toNat / 86400) % 7) ↔
      (marchYear (momentAt cal) + lag (momentAt cal)) % 7 = 0 := by
  obtain ⟨tm, htm, hmoment, hdow⟩ := expandTime_date cal
  have hdays := momentAt_days cal
  have hearly := momentAt_year cal
  have hformula :=
    tableDate_dayOfWeek (momentAt_valid cal) (by omega) (momentAt_year_le cal)
  have hsame : tm.dayOfWeek = dayOfWeek (BitVec.ofNat 32 (tableDate (momentAt cal)).day)
      (tableDate (momentAt cal)).month (momentAt cal).year := by
    rw [hdow, ← tableDate_year, ← hmoment]
    exact congrArg (dayOfWeek · tm.month tm.year) (BitVec.ofNat_toNat 32 tm.day).symm
  have hweek : tm.dayOfWeek.toNat < 7 := by
    rw [hdow]
    exact Nat.mod_lt _ (by decide)
  rw [← hsame, hdays] at hformula
  constructor
  · rintro ⟨tm', htm', heq⟩
    cases htm.symm.trans htm'
    omega
  · intro hlag
    exact ⟨tm, htm, by omega⟩

/-- The first of January 1970 becomes a Tuesday. -/
theorem expandTime_epoch :
    ¬∀ cal, ∃ tm, expandTime cal = some tm ∧
      tm.dayOfWeek.toNat = (3 + cal.toNat / 86400) % 7 := by
  intro h
  obtain ⟨tm, htm, heq⟩ := h 0
  have hdow : (expandTime 0).map TimeBits.dayOfWeek = some 1 := by decide +kernel
  rw [htm, Option.map_some, Option.some_inj] at hdow
  rw [hdow] at heq
  exact absurd heq (by decide)

end Vmm386.Time
