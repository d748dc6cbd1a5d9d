import Muduo.Lib.Calendar
import Muduo.Lib.Checked

/-!
# Muduo.Date

`muduo/base/Date.{h,cc}`: dates as Julian day numbers.

The code divides `int`s, which rounds towards zero, and an overflow is undefined.  From
the year -4799 on nothing that is divided is negative, and up to the year 1400000
nothing overflows: there the code computes the numbers of `Lib.Calendar`.
-/

namespace Muduo.Date

open Lib Lib.Calendar

abbrev YearMonthDay := Ymd

def getJulianDayNumber (year month day : Int) : Option Int := do
  let a := (← int32 (14 - month)).tdiv 12
  let y ← int32 ((← int32 (year + 4800)) - a)
  let m ← int32 ((← int32 (month + (← int32 (12 * a)))) - 3)
  let days ← int32 (day + (← int32 ((← int32 (153 * m)) + 2)).tdiv 5)
  let days ← int32 (days + (← int32 (y * 365)))
  let days ← int32 (days + y.tdiv 4)
  let days ← int32 (days - y.tdiv 100)
  let days ← int32 (days + y.tdiv 400)
  int32 (days - 32045)

def getYearMonthDay (julianDayNumber : Int) : Option YearMonthDay := do
  let a ← int32 (julianDayNumber + 32044)
  let b := (← int32 ((← int32 (4 * a)) + 3)).tdiv 146097
  let c ← int32 (a - (← int32 (b * 146097)).tdiv 4)
  let d := (← int32 ((← int32 (4 * c)) + 3)).tdiv 1461
  let e ← int32 (c - (← int32 (1461 * d)).tdiv 4)
  let m := (← int32 ((← int32 (5 * e)) + 2)).tdiv 153
  let day ← int32 ((← int32 (e - (← int32 ((← int32 (153 * m)) + 2)).tdiv 5)) + 1)
  let month ← int32 ((← int32 (m + 3)) - (← int32 (12 * m.tdiv 10)))
  let year ← int32 ((← int32 ((← int32 ((← int32 (b * 100)) + d)) - 4800)) + m.tdiv 10)
  return ⟨year, month, day⟩

def kDaysPerWeek : Int := 7

/-- `[0, 1, ..., 6] => [Sunday, Monday, ..., Saturday]` -/
def weekDay (julianDayNumber : Int) : Option Int := do
  return (← int32 (julianDayNumber + 1)).tmod kDaysPerWeek

/-! ## the code computes the calendar -/

/-- The years for which the code is considered. -/
def InRange (d : Ymd) : Prop := -4799 ≤ d.year ∧ d.year ≤ 1400000

theorem tdiv_eq {x k q : Int} (hq : x / k = q) (hx : 0 ≤ x) : x.tdiv k = q := by
  rw [Int.tdiv_eq_ediv_of_nonneg hx, hq]

theorem getJulianDayNumber_eq {year month day : Int} (h₁ : -4799 ≤ year) (h₂ : year ≤ 1400001)
    (hmonth₁ : 1 ≤ month) (hmonth₂ : month ≤ 12) (hday₁ : 1 ≤ day) (hday₂ : day ≤ 31) :
    getJulianDayNumber year month day = some (Ymd.number ⟨year, month, day⟩) := by
  unfold getJulianDayNumber Ymd.number Ymd.daysBefore Ymd.daysBeforeYear
  dsimp only
  generalize ha : (14 - month) / 12 = a
  generalize hy : year + 4800 - a = y
  generalize hm : month + 12 * a - 3 = m
  have hy₀ : 0 ≤ y ∧ y ≤ 1404801 := by omega
  have hm₀ : 0 ≤ m ∧ m ≤ 11 := by omega
  rw [int32_bind (x := 14 - month) (by omega) (by omega), tdiv_eq ha (by omega),
    int32_bind (x := year + 4800) (by omega) (by omega), hy,
    int32_bind (x := y) (by omega) (by omega), int32_bind (x := 12 * a) (by omega) (by omega),
    int32_bind (x := month + 12 * a) (by omega) (by omega), hm]
  clear ha hy hm
  generalize hp : (153 * m + 2) / 5 = p
  have hp₀ : 0 ≤ p ∧ p ≤ 337 := by omega
  rw [int32_bind (x := m) (by omega) (by omega), int32_bind (x := 153 * m) (by omega) (by omega),
    int32_bind (x := 153 * m + 2) (by omega) (by omega), tdiv_eq hp (by omega)]
  clear hp
  generalize hq₄ : y / 4 = q₄
  generalize hq₁ : y / 100 = q₁
  generalize hq₀ : y / 400 = q₀
  rw [tdiv_eq hq₄ hy₀.1, tdiv_eq hq₁ hy₀.1, tdiv_eq hq₀ hy₀.1]
  have hq : 0 ≤ q₄ ∧ q₄ ≤ 351200 ∧ 0 ≤ q₁ ∧ q₁ ≤ 14048 ∧ 0 ≤ q₀ ∧ q₀ ≤ 3512 := by omega
  clear hq₄ hq₁ hq₀
  rw [int32_bind (x := day + p) (by omega) (by omega),
    int32_bind (x := y * 365) (by omega) (by omega),
    int32_bind (x := day + p + y * 365) (by omega) (by omega),
    int32_bind (x := day + p + y * 365 + q₄) (by omega) (by omega),
    int32_bind (x := day + p + y * 365 + q₄ - q₁) (by omega) (by omega),
    int32_bind (x := day + p + y * 365 + q₄ - q₁ + q₀) (by omega) (by omega),
    int32_eq (by omega) (by omega)]
  congr 1
  omega

/-- The numbers of the first and the last day in range. -/
def firstDay : Int := Ymd.number ⟨-4799, 1, 1⟩

def lastDay : Int := Ymd.number ⟨1400000, 12, 31⟩

theorem firstDay_eq : firstDay = -31738 := rfl

theorem lastDay_eq : lastDay = 513060925 := rfl

theorem number_bounds {d : Ymd} (h : d.Valid) (hrange : InRange d) :
    firstDay ≤ d.number ∧ d.number ≤ lastDay := by
  have hnext : Ymd.number ⟨1400001, 1, 1⟩ = lastDay + 1 := rfl
  have hlow := Ymd.number_newYear_mono hrange.1
  have hday := h.dayOfYear_nonneg
  have hyear : d.year < 1400001 := by have := hrange.2; omega
  have hlt : d.number < Ymd.number ⟨1400001, 1, 1⟩ :=
    h.number_lt ⟨by decide, by decide, by decide, by decide⟩ (.inl hyear)
  constructor
  · rw [h.number_eq, firstDay]
    omega
  · omega

theorem inRange_of_bounds {d : Ymd} (h : d.Valid) (h₁ : firstDay ≤ d.number)
    (h₂ : d.number ≤ lastDay) : InRange d := by
  have hfirst : (⟨-4799, 1, 1⟩ : Ymd).Valid := ⟨by decide, by decide, by decide, by decide⟩
  have hlast : (⟨1400000, 12, 31⟩ : Ymd).Valid := ⟨by decide, by decide, by decide, by decide⟩
  constructor
  · by_contra hyear
    have := h.number_lt hfirst (.inl (by dsimp only; omega))
    unfold firstDay at h₁
    omega
  · by_contra hyear
    have := hlast.number_lt h (.inl (by dsimp only; omega))
    unfold lastDay at h₂
    omega

variable {j : Int} {d : Day}

theorem getYearMonthDay_eq (h₁ : firstDay ≤ j) (h₂ : j ≤ lastDay) :
    getYearMonthDay j = some (Ymd.ofNumber j) := by
  rw [firstDay_eq] at h₁
  rw [lastDay_eq] at h₂
  obtain ⟨b, d, e, h⟩ := Ymd.exists_split (j + 32044)
  obtain ⟨hb, hd⟩ := h.div_eq
  obtain ⟨hm₀, hm₁, hle⟩ := Ymd.month_div h.day_nonneg h.day_le
  rw [h.ofNumber_eq]
  obtain ⟨heq, hd₀, hd₁, he₀, he₁, -⟩ := h
  have hc : j + 32044 - (36524 * b + b / 4) = 365 * d + d / 4 + e := by omega
  rw [hc] at hd
  have ha : 0 ≤ j + 32044 ∧ j + 32044 ≤ 513092969 := by omega
  unfold getYearMonthDay
  rw [int32_bind (x := j + 32044) (by omega) (by omega)]
  generalize j + 32044 = a at *
  have hb₀ : 0 ≤ b ∧ b ≤ 14048 := by omega
  rw [int32_bind (x := 4 * a) (by omega) (by omega), int32_bind (x := 4 * a + 3) (by omega) (by omega),
    tdiv_eq hb (by omega), int32_bind (x := b * 146097) (by omega) (by omega),
    tdiv_eq (Ymd.days_of_centuries b) (by omega), hc]
  clear hb heq hc
  generalize hq : d / 4 = q at *
  have hq₀ : 0 ≤ q ∧ q ≤ 24 := by omega
  rw [int32_bind (x := 365 * d + q + e) (by omega) (by omega),
    int32_bind (x := 4 * (365 * d + q + e)) (by omega) (by omega),
    int32_bind (x := 4 * (365 * d + q + e) + 3) (by omega) (by omega), tdiv_eq hd (by omega),
    int32_bind (x := 1461 * d) (by omega) (by omega),
    tdiv_eq ((Ymd.days_of_years d).trans (by rw [hq])) (by omega),
    show 365 * d + q + e - (365 * d + q) = e by omega]
  clear hd hq
  generalize hm : (5 * e + 2) / 153 = m at *
  generalize hp : Ymd.daysBefore m = p at *
  have hp₀ : 0 ≤ p := by unfold Ymd.daysBefore at hp; omega
  rw [int32_bind (x := e) (by omega) (by omega), int32_bind (x := 5 * e) (by omega) (by omega),
    int32_bind (x := 5 * e + 2) (by omega) (by omega), tdiv_eq hm (by omega),
    int32_bind (x := 153 * m) (by omega) (by omega),
    int32_bind (x := 153 * m + 2) (by omega) (by omega), tdiv_eq hp (by omega)]
  clear hm hp
  generalize hten : m / 10 = n at *
  have hn : 0 ≤ n ∧ n ≤ 1 := by omega
  rw [tdiv_eq hten hm₀, int32_bind (x := e - p) (by omega) (by omega),
    int32_bind (x := e - p + 1) (by omega) (by omega), int32_bind (x := m + 3) (by omega) (by omega),
    int32_bind (x := 12 * n) (by omega) (by omega),
    int32_bind (x := m + 3 - 12 * n) (by omega) (by omega),
    int32_bind (x := b * 100) (by omega) (by omega),
    int32_bind (x := b * 100 + d) (by omega) (by omega),
    int32_bind (x := b * 100 + d - 4800) (by omega) (by omega),
    int32_bind (x := b * 100 + d - 4800 + n) (by omega) (by omega)]
  rfl

/-! ## dates -/

theorem getJulianDayNumber_day (h₁ : -4799 ≤ d.year) (h₂ : d.year ≤ 1400001) :
    getJulianDayNumber d.year d.month d.day = some d.number := by
  have hlen : monthLength d.year d.month ≤ 31 := by
    unfold monthLength
    split_ifs <;> omega
  exact getJulianDayNumber_eq h₁ h₂ d.valid.month_pos d.valid.month_le d.valid.day_pos
    (d.valid.day_le.trans hlen)

theorem getJulianDayNumber_inRange (h : InRange d.toYmd) :
    getJulianDayNumber d.year d.month d.day = some d.number :=
  getJulianDayNumber_day h.1 (h.2.trans (by decide))

theorem next_year (d : Day) : d.year ≤ d.next.year ∧ d.next.year ≤ d.year + 1 := by
  unfold Day.next Ymd.next
  split_ifs <;> simp

theorem weekDay_eq (h₁ : firstDay ≤ j) (h₂ : j ≤ lastDay + 1) :
    weekDay j = some ((j + 1).tmod 7) := by
  rw [firstDay_eq] at h₁
  rw [lastDay_eq] at h₂
  unfold weekDay
  rw [int32_bind (x := j + 1) (by omega) (by omega)]
  rfl

/-- The dates of the code are the days of the proleptic Gregorian calendar.  An
expression has a value only if no intermediate value overflows. -/
structure Gregorian : Prop where
  roundTrip : ∀ d : Day, InRange d.toYmd → ∃ j, getJulianDayNumber d.year d.month d.day = some j ∧
    getYearMonthDay j = some d.toYmd
  next : ∀ (d : Day) (j : Int), InRange d.toYmd → getJulianDayNumber d.year d.month d.day = some j →
    getJulianDayNumber d.next.year d.next.month d.next.day = some (j + 1)
  order : ∀ (d e : Day) (i j : Int), InRange d.toYmd → InRange e.toYmd →
    getJulianDayNumber d.year d.month d.day = some i →
    getJulianDayNumber e.year e.month e.day = some j → (i < j ↔ d.Before e.toYmd)
  /-- The numbers in range are those from the first day to the last one. -/
  interval : ∀ j, firstDay ≤ j ∧ j ≤ lastDay ↔ ∃ d : Day, InRange d.toYmd ∧
    getYearMonthDay j = some d.toYmd ∧ getJulianDayNumber d.year d.month d.day = some j
  weekDay : ∀ (d : Day) (j : Int), InRange d.toYmd →
    getJulianDayNumber d.year d.month d.day = some j →
    ∃ w w', weekDay j = some w ∧ weekDay (j + 1) = some w' ∧ w' % kDaysPerWeek = (w + 1) % kDaysPerWeek

theorem eq_number (h : InRange d.toYmd)
    (hj : getJulianDayNumber d.year d.month d.day = some j) : j = d.number := by
  rw [getJulianDayNumber_inRange h] at hj
  exact (Option.some.inj hj).symm

theorem getYearMonthDay_number (h : InRange d.toYmd) : getYearMonthDay d.number = some d.toYmd := by
  obtain ⟨h₁, h₂⟩ := number_bounds d.valid h
  rw [getYearMonthDay_eq h₁ h₂, d.valid.ofNumber_number]

/-- **The calendar.** -/
theorem date_gregorian : Gregorian where
  roundTrip d h := ⟨d.number, getJulianDayNumber_inRange h, getYearMonthDay_number h⟩
  next d j h hj := by
    have hyear := next_year d
    have hlast := h.2
    rw [eq_number h hj, ← d.valid.number_next]
    exact getJulianDayNumber_day (h.1.trans hyear.1) (by omega)
  order d e i j hd he hi hj := by
    rw [eq_number hd hi, eq_number he hj]
    exact d.valid.number_lt_iff e.valid
  interval j := by
    constructor
    · rintro ⟨h₁, h₂⟩
      have hnumber := Ymd.number_ofNumber j
      have hrange : InRange (Day.ofNumber j).toYmd :=
        inRange_of_bounds (Ymd.valid_ofNumber j) (hnumber.symm ▸ h₁) (hnumber.symm ▸ h₂)
      refine ⟨Day.ofNumber j, hrange, getYearMonthDay_eq h₁ h₂, ?_⟩
      rw [getJulianDayNumber_inRange hrange]
      exact congrArg some hnumber
    · rintro ⟨d, h, -, hj⟩
      rw [eq_number h hj]
      exact number_bounds d.valid h
  weekDay d j h hj := by
    obtain ⟨h₁, h₂⟩ := number_bounds d.valid h
    rw [← eq_number h hj] at h₁ h₂
    refine ⟨_, _, weekDay_eq h₁ (by omega), weekDay_eq (by omega) (by omega), ?_⟩
    unfold kDaysPerWeek
    rw [Int.tmod_eq_emod, Int.tmod_eq_emod]
    split_ifs <;> omega

end Muduo.Date
