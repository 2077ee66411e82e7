import Mathlib.Algebra.BigOperators.Intervals
import Mathlib.Algebra.Order.BigOperators.Group.Finset
import Mathlib.Order.Interval.Finset.Nat

/-!
# The Gregorian calendar

Moments, and their number of seconds since the first of January of the year zero.
-/

namespace Calendar

/-- Leap years. -/
def IsLeap (y : ℕ) : Prop := y % 4 = 0 ∧ (y % 100 ≠ 0 ∨ y % 400 = 0)

instance (y : ℕ) : Decidable (IsLeap y) := inferInstanceAs (Decidable (_ ∧ _))

/-- The days of a month; January is month 1. -/
def monthLength (y m : ℕ) : ℕ :=
  if m = 2 then if IsLeap y then 29 else 28
  else if m = 4 ∨ m = 6 ∨ m = 9 ∨ m = 11 then 30
  else 31

/-- A date and a time. -/
structure Moment where
  year : ℕ
  month : ℕ
  day : ℕ
  hour : ℕ
  minute : ℕ
  second : ℕ
  deriving DecidableEq

namespace Moment

structure Valid (t : Moment) : Prop where
  month_pos : 1 ≤ t.month
  month_le : t.month ≤ 12
  day_pos : 1 ≤ t.day
  day_le : t.day ≤ monthLength t.year t.month
  hour : t.hour < 24
  minute : t.minute < 60
  second : t.second < 60

/-- The next day, in a month of `len` days. -/
def turn (len : ℤ) (t : Moment) : Moment :=
  if (t.day : ℤ) + 1 ≤ len then { t with day := t.day + 1 }
  else if t.month + 1 ≤ 12 then { t with month := t.month + 1, day := 1 }
  else { t with year := t.year + 1, month := 1, day := 1 }

/-- The last second of a day. -/
def LastSecond (t : Moment) : Prop := t.hour = 23 ∧ t.minute = 59 ∧ t.second = 59

/-- A second later, in a month of `len` days. -/
def tick (len : ℤ) (t : Moment) : Moment :=
  if t.second + 1 < 60 then { t with second := t.second + 1 }
  else if t.minute + 1 < 60 then { t with minute := t.minute + 1, second := 0 }
  else if t.hour + 1 < 24 then { t with hour := t.hour + 1, minute := 0, second := 0 }
  else { t with hour := 0, minute := 0, second := 0 }.turn len

/-- A second later. -/
def next (t : Moment) : Moment := t.tick (monthLength t.year t.month)

end Moment

/-! ## Counting -/

/-- The days before the year `y`. -/
def daysBeforeYear (y : ℕ) : ℕ := 365 * y + (y + 3) / 4 + (y + 399) / 400 - (y + 99) / 100

/-- The days of the year before the month `m`. -/
def daysBeforeMonth (y m : ℕ) : ℕ := ∑ i ∈ Finset.Ico 1 m, monthLength y i

/-- The seconds before the moment `t`. -/
def Moment.seconds (t : Moment) : ℕ :=
  (((daysBeforeYear t.year + daysBeforeMonth t.year t.month + (t.day - 1)) * 24 + t.hour) * 60 +
    t.minute) * 60 + t.second

section

variable {y m : ℕ} {t t' : Moment} {len : ℤ}

theorem monthLength_pos (y m : ℕ) : 28 ≤ monthLength y m := by
  unfold monthLength
  split_ifs <;> omega

theorem monthLength_le (y m : ℕ) : monthLength y m ≤ 31 := by
  unfold monthLength
  split_ifs <;> omega

theorem daysBeforeMonth_succ (h : 1 ≤ m) :
    daysBeforeMonth y (m + 1) = daysBeforeMonth y m + monthLength y m :=
  Finset.sum_Ico_succ_top h _

theorem daysBeforeMonth_mono {m' : ℕ} (h : m ≤ m') : daysBeforeMonth y m ≤ daysBeforeMonth y m' :=
  Finset.sum_le_sum_of_subset (Finset.Ico_subset_Ico_right h)

/-- The twelve months make up the year. -/
theorem daysBeforeYear_succ (y : ℕ) :
    daysBeforeYear (y + 1) = daysBeforeYear y + daysBeforeMonth y 13 := by
  have hsum : daysBeforeMonth y 13 = 337 + monthLength y 2 := by
    unfold daysBeforeMonth
    simp [Finset.sum_Ico_eq_sum_range, Finset.sum_range_succ, monthLength]
    omega
  have h4 : (y + 1 + 3) / 4 = (y + 3) / 4 + if y % 4 = 0 then 1 else 0 := by
    split_ifs <;> omega
  have h100 : (y + 1 + 99) / 100 = (y + 99) / 100 + if y % 100 = 0 then 1 else 0 := by
    split_ifs <;> omega
  have h400 : (y + 1 + 399) / 400 = (y + 399) / 400 + if y % 400 = 0 then 1 else 0 := by
    split_ifs <;> omega
  have hle : (y + 99) / 100 ≤ y := by omega
  have h100' : y % 100 = 0 → y % 4 = 0 := by omega
  have h400' : y % 400 = 0 → y % 100 = 0 := by omega
  have hfeb : monthLength y 2 = if IsLeap y then 29 else 28 := rfl
  rw [hsum, hfeb, daysBeforeYear, daysBeforeYear, h4, h100, h400]
  generalize (y + 3) / 4 = a
  generalize (y + 99) / 100 = b at *
  generalize (y + 399) / 400 = c
  clear h4 h100 h400 hfeb hsum
  by_cases hc : y % 400 = 0
  · have hleap : IsLeap y := ⟨h100' (h400' hc), .inr hc⟩
    rw [if_pos (h100' (h400' hc)), if_pos hc, if_pos (h400' hc), if_pos hleap]
    omega
  · by_cases hb : y % 100 = 0
    · rw [if_pos (h100' hb), if_neg hc, if_pos hb,
        if_neg fun h : IsLeap y => h.2.elim (absurd hb) hc]
      omega
    · by_cases ha : y % 4 = 0
      · have hleap : IsLeap y := ⟨ha, .inl hb⟩
        rw [if_pos ha, if_neg hc, if_neg hb, if_pos hleap]
        omega
      · rw [if_neg ha, if_neg hc, if_neg hb, if_neg fun h : IsLeap y => ha h.1]
        omega

theorem daysBeforeYear_strictMono : StrictMono daysBeforeYear := by
  refine strictMono_nat_of_lt_succ fun y => ?_
  have hjan : 28 ≤ daysBeforeMonth y 2 := by
    rw [daysBeforeMonth_succ le_rfl]
    exact Nat.le_add_left_of_le (monthLength_pos y 1)
  have hrest : daysBeforeMonth y 2 ≤ daysBeforeMonth y 13 := daysBeforeMonth_mono (by decide)
  rw [daysBeforeYear_succ]
  omega

theorem daysBeforeYear_mono {y' : ℕ} (h : y ≤ y') : daysBeforeYear y ≤ daysBeforeYear y' :=
  daysBeforeYear_strictMono.monotone h

/-- The days of the year before a month, counted month by month. -/
theorem daysBeforeMonth_eq (h : 1 ≤ m) (hle : m ≤ 13) :
    daysBeforeMonth y m =
      [0, 31, 59, 90, 120, 151, 181, 212, 243, 273, 304, 334, 365].getD (m - 1) 0 + if 2 < m ∧ IsLeap y then 1 else 0 := by
  induction m, h using Nat.le_induction with
  | base => rfl
  | succ m hm ih =>
    rw [daysBeforeMonth_succ hm, ih (by omega)]
    have hcases : m = 1 ∨ m = 2 ∨ m = 3 ∨ m = 4 ∨ m = 5 ∨ m = 6 ∨ m = 7 ∨ m = 8 ∨ m = 9 ∨ m = 10 ∨
        m = 11 ∨ m = 12 := by omega
    rcases hcases with rfl | rfl | rfl | rfl | rfl | rfl | rfl | rfl | rfl | rfl | rfl | rfl <;>
      by_cases hl : IsLeap y <;> simp [monthLength, hl]

/-- The number of the next year's first day, in closed form. -/
theorem daysBeforeYear_add_one (y : ℕ) :
    daysBeforeYear (y + 1) + y / 100 = 365 * y + 366 + y / 4 + y / 400 := by
  have h4 : (y + 1 + 3) / 4 = y / 4 + 1 := by omega
  have h100 : (y + 1 + 99) / 100 = y / 100 + 1 := by omega
  have h400 : (y + 1 + 399) / 400 = y / 400 + 1 := by omega
  rw [daysBeforeYear, h4, h100, h400]
  omega

/-- Years that begin in March: the number of the first of a month, in closed form. -/
theorem gauss_days (hy : 1 ≤ y) (h : 1 ≤ m) (hle : m ≤ 12) :
    365 * (if m ≤ 2 then y - 1 else y) + (if m ≤ 2 then y - 1 else y) / 4 +
        (if m ≤ 2 then y - 1 else y) / 400 + 367 * (if m ≤ 2 then m + 10 else m - 2) / 12 + 30 =
      daysBeforeYear y + daysBeforeMonth y m + (if m ≤ 2 then y - 1 else y) / 100 := by
  have hdays := daysBeforeMonth_eq (y := y) h (by omega)
  by_cases hm : m ≤ 2
  · -- January and February end the year before
    have hyear := daysBeforeYear_add_one (y - 1)
    rw [Nat.sub_add_cancel hy] at hyear
    have hmonth : 367 * (m + 10) / 12 = daysBeforeMonth y m + 336 := by
      rw [hdays, if_neg (by omega)]
      have hcases : m = 1 ∨ m = 2 := by omega
      rcases hcases with rfl | rfl <;> rfl
    rw [if_pos hm, if_pos hm, hmonth]
    omega
  · have hyear := daysBeforeYear_add_one y
    have hnext : daysBeforeMonth y 13 = 365 + if IsLeap y then 1 else 0 := by
      simpa using daysBeforeMonth_eq (y := y) (m := 13) (by decide) le_rfl
    have hmonth : 367 * (m - 2) / 12 + 29 + (if IsLeap y then 1 else 0) = daysBeforeMonth y m := by
      have hiff : (2 < m ∧ IsLeap y) ↔ IsLeap y := and_iff_right (not_le.mp hm)
      rw [hdays, if_congr hiff rfl rfl]
      have hcases : m = 3 ∨ m = 4 ∨ m = 5 ∨ m = 6 ∨ m = 7 ∨ m = 8 ∨ m = 9 ∨ m = 10 ∨
          m = 11 ∨ m = 12 := by omega
      rcases hcases with rfl | rfl | rfl | rfl | rfl | rfl | rfl | rfl | rfl | rfl <;> rfl
    rw [if_neg hm, if_neg hm]
    rw [daysBeforeYear_succ, hnext] at hyear
    omega
/-! ## The number of a moment -/

theorem Moment.Valid.month_days (h : t.Valid) :
    daysBeforeMonth t.year t.month + (t.day - 1) < daysBeforeMonth t.year (t.month + 1) := by
  rw [daysBeforeMonth_succ h.month_pos]
  have hpos := h.day_pos
  have hle := h.day_le
  omega

/-- The day of the year `t` is in. -/
theorem Moment.Valid.year_days (h : t.Valid) :
    daysBeforeYear t.year + daysBeforeMonth t.year t.month + (t.day - 1) <
      daysBeforeYear (t.year + 1) := by
  have hdays := h.month_days
  have hmono : daysBeforeMonth t.year (t.month + 1) ≤ daysBeforeMonth t.year 13 :=
    daysBeforeMonth_mono (Nat.succ_le_succ h.month_le)
  rw [daysBeforeYear_succ]
  omega

/-- A moment is known by its number of seconds. -/
theorem Moment.Valid.seconds_inj (h : t.Valid) (h' : t'.Valid) (heq : t.seconds = t'.seconds) :
    t = t' := by
  unfold Moment.seconds at heq
  have hh := h.hour
  have hh' := h'.hour
  have hm := h.minute
  have hm' := h'.minute
  have hs := h.second
  have hs' := h'.second
  have hdays : daysBeforeYear t.year + daysBeforeMonth t.year t.month + (t.day - 1) =
      daysBeforeYear t'.year + daysBeforeMonth t'.year t'.month + (t'.day - 1) := by omega
  -- the later of two years begins after the earlier one
  have hyear : t.year = t'.year := by
    have hlt := h.year_days
    have hlt' := h'.year_days
    rcases Nat.lt_trichotomy t.year t'.year with hc | hc | hc
    · have hmono : daysBeforeYear (t.year + 1) ≤ daysBeforeYear t'.year := daysBeforeYear_mono hc
      omega
    · exact hc
    · have hmono : daysBeforeYear (t'.year + 1) ≤ daysBeforeYear t.year := daysBeforeYear_mono hc
      omega
  have hmonth : t.month = t'.month := by
    have hlt := h.month_days
    have hlt' := h'.month_days
    rw [hyear] at hlt hdays
    rcases Nat.lt_trichotomy t.month t'.month with hc | hc | hc
    · have hmono : daysBeforeMonth t'.year (t.month + 1) ≤ daysBeforeMonth t'.year t'.month :=
        daysBeforeMonth_mono hc
      omega
    · exact hc
    · have hmono : daysBeforeMonth t'.year (t'.month + 1) ≤ daysBeforeMonth t'.year t.month :=
        daysBeforeMonth_mono hc
      omega
  rw [hyear, hmonth] at hdays
  have hpos := h.day_pos
  have hpos' := h'.day_pos
  obtain ⟨year, month, day, hour, minute, second⟩ := t
  obtain ⟨year', month', day', hour', minute', second'⟩ := t'
  simp only at *
  rw [Moment.mk.injEq]
  omega

namespace Moment

theorem turn_time (len : ℤ) (t : Moment) :
    (t.turn len).hour = t.hour ∧ (t.turn len).minute = t.minute ∧
      (t.turn len).second = t.second := by
  unfold turn
  split_ifs <;> exact ⟨rfl, rfl, rfl⟩

theorem turn_valid (h : t.Valid) : (t.turn (monthLength t.year t.month)).Valid := by
  have hpos := h.day_pos
  have hmonth := h.month_pos
  have hlen := monthLength_pos t.year (t.month + 1)
  have hlen' := monthLength_pos (t.year + 1) 1
  unfold turn
  split_ifs with hd hm
  · exact ⟨h.month_pos, h.month_le, by dsimp only; omega, by dsimp only; omega, h.hour, h.minute,
      h.second⟩
  · exact ⟨by dsimp only; omega, hm, le_refl 1, by dsimp only; omega, h.hour, h.minute, h.second⟩
  · exact ⟨le_refl 1, by dsimp only; omega, le_refl 1, by dsimp only; omega, h.hour, h.minute,
      h.second⟩

theorem turn_seconds (h : t.Valid) :
    (t.turn (monthLength t.year t.month)).seconds = t.seconds + 24 * 60 * 60 := by
  have hpos := h.day_pos
  have hle := h.day_le
  have hmonth := h.month_pos
  have hsucc := daysBeforeMonth_succ (y := t.year) h.month_pos
  unfold turn
  split_ifs with hd hm
  · unfold seconds
    dsimp only
    omega
  · unfold seconds
    dsimp only
    omega
  · have hle' := h.month_le
    have hdec : t.month = 12 := by omega
    have hyear := daysBeforeYear_succ t.year
    have hone : daysBeforeMonth (t.year + 1) 1 = 0 := Finset.sum_eq_zero (by simp)
    have hsucc : daysBeforeMonth t.year 13 = daysBeforeMonth t.year 12 + monthLength t.year 12 :=
      daysBeforeMonth_succ (by decide)
    rw [hdec] at hle hd
    unfold seconds
    dsimp only
    rw [hdec, hone]
    omega

/-- The next second is valid, and one later. -/
theorem Valid.next (h : t.Valid) : t.next.Valid ∧ t.next.seconds = t.seconds + 1 := by
  have hs := h.second
  have hm := h.minute
  have hh := h.hour
  have h60 : 0 < 60 := by decide
  have h24 : 0 < 24 := by decide
  unfold Moment.next tick
  split_ifs with h₁ h₂ h₃
  · refine ⟨⟨h.month_pos, h.month_le, h.day_pos, h.day_le, hh, hm, h₁⟩, ?_⟩
    unfold seconds
    dsimp only
    omega
  · refine ⟨⟨h.month_pos, h.month_le, h.day_pos, h.day_le, hh, h₂, h60⟩, ?_⟩
    unfold seconds
    dsimp only
    omega
  · refine ⟨⟨h.month_pos, h.month_le, h.day_pos, h.day_le, h₃, h60, h60⟩, ?_⟩
    unfold seconds
    dsimp only
    omega
  · have hvalid : Valid { t with hour := 0, minute := 0, second := 0 } :=
      ⟨h.month_pos, h.month_le, h.day_pos, h.day_le, h24, h60, h60⟩
    refine ⟨turn_valid hvalid, (turn_seconds hvalid).trans ?_⟩
    unfold seconds
    dsimp only
    omega

/-- Time goes on. -/
theorem Valid.iterate (h : t.Valid) (n : ℕ) :
    (Moment.next^[n] t).Valid ∧ (Moment.next^[n] t).seconds = t.seconds + n := by
  induction n with
  | zero => exact ⟨h, rfl⟩
  | succ n ih =>
    rw [Function.iterate_succ_apply']
    obtain ⟨hvalid, hseconds⟩ := ih.1.next
    exact ⟨hvalid, hseconds.trans (congrArg (· + 1) ih.2)⟩

/-- There is one moment `n` seconds later. -/
theorem Valid.forall_later (h : t.Valid) {n : ℕ} {P : Moment → Prop} :
    (∀ t' : Moment, t'.Valid → t'.seconds = t.seconds + n → P t') ↔ P (Moment.next^[n] t) := by
  obtain ⟨hvalid, hseconds⟩ := h.iterate n
  refine ⟨fun hall => hall _ hvalid hseconds, fun hP t' h' hseconds' => ?_⟩
  rwa [h'.seconds_inj hvalid (hseconds'.trans hseconds.symm)]

theorem tick_of_lastSecond (hl : t.LastSecond) (len : ℤ) :
    t.tick len = { t with hour := 0, minute := 0, second := 0 }.turn len := by
  obtain ⟨hh, hm, hs⟩ := hl
  rw [tick, if_neg (by omega), if_neg (by omega), if_neg (by omega)]

/-- The length of the month matters at the last second of a day only. -/
theorem tick_of_not_lastSecond (h : t.Valid) (hl : ¬t.LastSecond) (len len' : ℤ) :
    t.tick len = t.tick len' := by
  have hs := h.second
  have hm := h.minute
  have hh := h.hour
  unfold LastSecond at hl
  unfold tick
  split_ifs
  · rfl
  · rfl
  · rfl
  · omega

theorem tick_day (hl : t.LastSecond) (len : ℤ) :
    (t.tick len).day = if (t.day : ℤ) + 1 ≤ len then t.day + 1 else 1 := by
  rw [tick_of_lastSecond hl]
  unfold turn
  split_ifs <;> rfl

/-- Two lengths of the month that end the day alike. -/
theorem tick_congr (h : t.Valid) {len len' : ℤ}
    (hiff : t.LastSecond → ((t.day : ℤ) + 1 ≤ len ↔ (t.day : ℤ) + 1 ≤ len')) :
    t.tick len = t.tick len' := by
  by_cases hl : t.LastSecond
  · rw [tick_of_lastSecond hl, tick_of_lastSecond hl]
    exact if_congr (hiff hl) rfl rfl
  · exact tick_of_not_lastSecond h hl len len'

end Moment

end

end Calendar
