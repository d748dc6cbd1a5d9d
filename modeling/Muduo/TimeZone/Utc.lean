import Muduo.TimeZone

/-!
# Muduo.TimeZone.Utc

`toUtcTime` and `fromUtcTime` on the years of `Date.InRange`.

The code divides the seconds since the epoch, which rounds towards zero, and corrects
the remainder when it is negative; it does not correct the day of the week, so that
before the Julian day -1 it is negative.
-/

namespace Muduo.TimeZone

open Lib Lib.Calendar

theorem kJulianDayOf1970_eq : kJulianDayOf1970 = 2440588 := by decide

/-- The seconds in the day and the days, from the quotient that rounds towards zero. -/
theorem divide_day (t : Int) :
    (t.tmod kSecondsPerDay < 0 ∧ t.tmod kSecondsPerDay + kSecondsPerDay = t % 86400 ∧
        t.tdiv kSecondsPerDay - 1 = t / 86400) ∨
      (0 ≤ t.tmod kSecondsPerDay ∧ t.tmod kSecondsPerDay = t % 86400 ∧
        t.tdiv kSecondsPerDay = t / 86400) := by
  have hday : kSecondsPerDay = 86400 := rfl
  have hsign : Int.sign 86400 = 1 := rfl
  rw [hday, Int.tmod_eq_emod, Int.tdiv_eq_ediv, hsign]
  split_ifs <;> omega

/-- The day of a time. -/
structure OnDay (t : Int) (d : Day) : Prop where
  inRange : Date.InRange d.toYmd
  number : d.number = t / 86400 + 2440588

variable {d : Day} {t : Int}

theorem OnDay.bounds (h : OnDay t d) : -2472326 ≤ t / 86400 ∧ t / 86400 ≤ 510620337 := by
  obtain ⟨h₁, h₂⟩ := Date.number_bounds d.valid h.inRange
  rw [Date.firstDay_eq] at h₁
  rw [Date.lastDay_eq] at h₂
  have hnumber := h.number
  omega

theorem dayOfYear_bounds (d : Day) : 0 ≤ d.dayOfYear ∧ d.dayOfYear ≤ 365 := by
  have hlast := d.valid.dayOfYear_lt (show d.month ≤ (12 : Nat) from d.valid.month_le)
  refine ⟨d.valid.dayOfYear_nonneg, ?_⟩
  simp [Ymd.daysBeforeMonth, monthLength] at hlast
  split_ifs at hlast <;> omega

/-- The seconds in the day, corrected when they are negative, and the days. -/
theorem corrected_eq (h₁ : -2472326 ≤ t / 86400) (h₂ : t / 86400 ≤ 510620337) :
    (if narrow 32 (t.tmod kSecondsPerDay) < 0 then
        int32 (narrow 32 (t.tmod kSecondsPerDay) + kSecondsPerDay)
      else some (narrow 32 (t.tmod kSecondsPerDay))) = some (t % 86400) ∧
    (if narrow 32 (t.tmod kSecondsPerDay) < 0 then
        int32 (narrow 32 (t.tdiv kSecondsPerDay) - 1)
      else some (narrow 32 (t.tdiv kSecondsPerDay))) = some (t / 86400) := by
  have hday : kSecondsPerDay = 86400 := rfl
  have hsec : 0 ≤ t % 86400 ∧ t % 86400 < 86400 := by omega
  have hcases := divide_day t
  generalize t.tmod kSecondsPerDay = s at *
  generalize t.tdiv kSecondsPerDay = q at *
  generalize t % 86400 = s' at *
  generalize t / 86400 = q' at *
  rw [hday] at hcases ⊢
  rw [narrow_32_eq (x := s) (by omega) (by omega), narrow_32_eq (x := q) (by omega) (by omega)]
  obtain ⟨hneg, rfl, rfl⟩ | ⟨hpos, rfl, rfl⟩ := hcases
  · rw [if_pos hneg, if_pos hneg, int32_eq (by omega) (by omega), int32_eq (by omega) (by omega)]
    exact ⟨rfl, rfl⟩
  · rw [if_neg (by omega), if_neg (by omega)]
    exact ⟨rfl, rfl⟩

theorem yday_eq (h : Date.InRange d.toYmd) :
    (do int32 (d.number - (← Date.getJulianDayNumber d.year 1 1))) = some d.dayOfYear := by
  have hbounds := dayOfYear_bounds d
  have hyear := h.2
  rw [Date.getJulianDayNumber_eq h.1 (by omega) (by decide) (by decide) (by decide) (by decide),
    d.valid.number_eq, some_bind, add_sub_cancel_left,
    int32_eq (by omega) (by omega)]

theorem toUtcTime_eq (h : OnDay t d) (yday : Bool) :
    toUtcTime t yday = some ⟨⟨t % 86400 % 60, t % 86400 / 60 % 60, t % 86400 / 3600, d.day,
      d.month - 1, d.year - 1900, (t / 86400 + 2440589).tmod 7,
      if yday then d.dayOfYear else 0⟩, 0, 0, gmt⟩ := by
  have hbounds := h.bounds
  have hnumber := h.number
  have hmonth₁ := d.valid.month_pos
  have hmonth₂ := d.valid.month_le
  obtain ⟨hyear₁, hyear₂⟩ := h.inRange
  have hymd := Date.getYearMonthDay_number h.inRange
  have hweek : Date.weekDay d.number = some ((d.number + 1).tmod 7) := by
    obtain ⟨h₁, h₂⟩ := Date.number_bounds d.valid h.inRange
    exact Date.weekDay_eq h₁ (by omega)
  have hyday := yday_eq h.inRange
  obtain ⟨hseconds, hdays⟩ := corrected_eq hbounds.1 hbounds.2
  have hdate : t / 86400 + kJulianDayOf1970 = d.number := by rw [kJulianDayOf1970_eq, hnumber]
  have hnumber' : d.number + 1 = t / 86400 + 2440589 := by omega
  unfold toUtcTime
  dsimp only
  rw [hseconds, some_bind, hdays, some_bind, hdate, int32_bind (by omega) (by omega), hymd, some_bind,
    int32_bind (by omega) (by omega), int32_bind (by omega) (by omega), hweek, some_bind, hyday,
    hnumber']
  have hsec : ((t % 86400) % 2 ^ 32).toNat = (t % 86400).toNat := by omega
  have hhms : fillHMS (t % 86400).toNat =
      ((t % 86400 % 60).toNat, (t % 86400 / 60 % 60).toNat, (t % 86400 / 3600).toNat) := by
    simp only [fillHMS, Prod.mk.injEq]
    omega
  rw [hsec, hhms]
  have hnonneg : 0 ≤ t % 86400 := Int.emod_nonneg t (by decide)
  cases yday <;>
  simp [some_bind, Int.emod_nonneg, Int.ediv_nonneg, hnonneg]

/-- The date and time fields are those of a second of the day `d`. -/
structure Shows (u : BrokenTime) (d : Day) : Prop where
  sec : 0 ≤ u.tm_sec ∧ u.tm_sec < 60
  min : 0 ≤ u.tm_min ∧ u.tm_min < 60
  hour : 0 ≤ u.tm_hour ∧ u.tm_hour < 24
  mday : u.tm_mday = d.day
  mon : u.tm_mon + 1 = d.month
  year : u.tm_year + 1900 = d.year

theorem fromUtcTime_eq {u : BrokenTime} (hrange : Date.InRange d.toYmd) (h : Shows u d) :
    fromUtcTime u =
      some ((d.number - 2440588) * 86400 + (u.tm_hour * 3600 + u.tm_min * 60 + u.tm_sec)) := by
  obtain ⟨hsec, hmin, hhour, hmday, hmon, hyear⟩ := h
  have hmonth₁ := d.valid.month_pos
  have hmonth₂ := d.valid.month_le
  have hnumber := Date.getJulianDayNumber_inRange hrange
  obtain ⟨hfirst, hlast⟩ := Date.number_bounds d.valid hrange
  rw [Date.firstDay_eq] at hfirst
  rw [Date.lastDay_eq] at hlast
  obtain ⟨hyear₁, hyear₂⟩ := hrange
  have hday : kSecondsPerDay = 86400 := rfl
  unfold fromUtcTime fromUtcTimeFields
  rw [hyear, hmon, hmday, int32_bind (by omega) (by omega), int32_bind (by omega) (by omega), hnumber,
    some_bind, int32_bind (x := u.tm_hour * 3600) (by omega) (by omega),
    int32_bind (x := u.tm_min * 60) (by omega) (by omega),
    int32_bind (x := u.tm_hour * 3600 + u.tm_min * 60) (by omega) (by omega),
    int32_bind (x := u.tm_hour * 3600 + u.tm_min * 60 + u.tm_sec) (by omega) (by omega),
    kJulianDayOf1970_eq, int32_bind (x := d.number - 2440588) (by omega) (by omega), hday,
    exact_of_fits (fits_64.2 ⟨by omega, by omega⟩), some_bind,
    exact_of_fits (fits_64.2 ⟨by omega, by omega⟩)]

theorem OnDay.shows (h : OnDay t d) {u : Tm}
    (hu : toUtcTime t true = some u) : Shows u.toBrokenTime d := by
  rw [toUtcTime_eq h, Option.some.injEq] at hu
  subst hu
  exact ⟨by dsimp only; omega, by dsimp only; omega, by dsimp only; omega, rfl, by dsimp only; omega,
    by dsimp only; omega⟩

/-- The two functions are inverse to each other.  A `Day` is one of the calendar, and the
day of a time is the one that is `t / 86400`, rounded down, after the first of January
1970. -/
structure UtcExact : Prop where
  fromUtcTime_toUtcTime : ∀ (t : Int) (d : Day), OnDay t d → ∃ u : Tm, toUtcTime t true = some u ∧
    fromUtcTime u.toBrokenTime = some t ∧ Shows u.toBrokenTime d ∧ u.tm_yday = d.dayOfYear ∧
    -- the day of the week, from the Julian day -1 on and before
    (-2440589 ≤ t / 86400 → u.tm_wday = (t / 86400 + 4) % 7) ∧
    (t / 86400 < -2440589 →
      u.tm_wday = if (t / 86400 + 4) % 7 = 0 then 0 else (t / 86400 + 4) % 7 - 7)
  toUtcTime_fromUtcTime : ∀ (u : BrokenTime) (d : Day) (yday : Bool), Date.InRange d.toYmd →
    Shows u d → ∃ (t : Int) (u' : Tm), fromUtcTime u = some t ∧ toUtcTime t yday = some u' ∧
      u'.tm_sec = u.tm_sec ∧ u'.tm_min = u.tm_min ∧ u'.tm_hour = u.tm_hour ∧ u'.tm_mday = u.tm_mday ∧
      u'.tm_mon = u.tm_mon ∧ u'.tm_year = u.tm_year

end Muduo.TimeZone
