import Mathlib.Tactic.NormNum

/-!
# Muduo.Lib.Calendar

The proleptic Gregorian calendar: the days, in their order, and their numbers.

A `Day` carries the proof that it exists.  Its number is computed from the year that
begins in March, so that the leap day is the last of its year; all divisions round
down, and the formulas hold for every year.
-/

namespace Lib.Calendar

def IsLeap (year : Int) : Prop := year % 4 = 0 ∧ (year % 100 ≠ 0 ∨ year % 400 = 0)

instance (year : Int) : Decidable (IsLeap year) := inferInstanceAs (Decidable (_ ∧ _))

def monthLength (year month : Int) : Int :=
  if month = 2 then (if IsLeap year then 29 else 28)
  else if month = 4 ∨ month = 6 ∨ month = 9 ∨ month = 11 then 30
  else 31

/-- Year, month and day of the month, both counted from 1. -/
@[ext] structure Ymd where
  year : Int
  month : Int
  day : Int
deriving DecidableEq, Repr

namespace Ymd

/-- There is such a day. -/
structure Valid (d : Ymd) : Prop where
  month_pos : 1 ≤ d.month
  month_le : d.month ≤ 12
  day_pos : 1 ≤ d.day
  day_le : d.day ≤ monthLength d.year d.month

/-- The day after it. -/
def next (d : Ymd) : Ymd :=
  if d.day < monthLength d.year d.month then ⟨d.year, d.month, d.day + 1⟩
  else if d.month < 12 then ⟨d.year, d.month + 1, 1⟩
  else ⟨d.year + 1, 1, 1⟩

/-- Days before the month in the year that begins in March. -/
def daysBefore (m : Int) : Int := (153 * m + 2) / 5

/-- Days before the year `y`, for years that begin in March. -/
def daysBeforeYear (y : Int) : Int := y * 365 + y / 4 - y / 100 + y / 400

/-- The Julian day number. -/
def number (d : Ymd) : Int :=
  let a := (14 - d.month) / 12
  d.day + daysBefore (d.month + 12 * a - 3) + daysBeforeYear (d.year + 4800 - a) - 32045

/-- The day of a Julian day number. -/
def ofNumber (j : Int) : Ymd :=
  let a := j + 32044
  let b := (4 * a + 3) / 146097
  let c := a - b * 146097 / 4
  let d := (4 * c + 3) / 1461
  let e := c - 1461 * d / 4
  let m := (5 * e + 2) / 153
  ⟨b * 100 + d - 4800 + m / 10, m + 3 - 12 * (m / 10), e - (153 * m + 2) / 5 + 1⟩

/-- In the order of the calendar. -/
def Before (d e : Ymd) : Prop :=
  d.year < e.year ∨ d.year = e.year ∧ (d.month < e.month ∨ d.month = e.month ∧ d.day < e.day)

theorem monthLength_pos (year month : Int) : 1 ≤ monthLength year month := by
  unfold monthLength
  split_ifs <;> omega

variable {d : Ymd}

theorem Valid.next (h : d.Valid) : d.next.Valid := by
  obtain ⟨h₁, h₂, h₃, h₄⟩ := h
  unfold Ymd.next
  split_ifs with hday hmonth
  · exact ⟨h₁, h₂, by dsimp only; omega, by dsimp only; omega⟩
  · exact ⟨by dsimp only; omega, by dsimp only; omega, Int.le_refl _, monthLength_pos _ _⟩
  · exact ⟨by dsimp only; omega, by dsimp only; omega, Int.le_refl _, monthLength_pos _ _⟩

theorem month_cases {m : Int} (h₁ : 1 ≤ m) (h₂ : m ≤ 12) :
    m = 1 ∨ m = 2 ∨ m = 3 ∨ m = 4 ∨ m = 5 ∨ m = 6 ∨ m = 7 ∨ m = 8 ∨ m = 9 ∨ m = 10 ∨ m = 11 ∨
      m = 12 := by
  omega

/-! ## years that begin in March -/

theorem days_of_centuries (b : Int) : b * 146097 / 4 = 36524 * b + b / 4 := by omega

theorem days_of_years (d : Int) : 1461 * d / 4 = 365 * d + d / 4 := by omega

theorem daysBeforeYear_century {b d : Int} (h₁ : 0 ≤ d) (h₂ : d < 100) :
    daysBeforeYear (b * 100 + d) = 36524 * b + b / 4 + (365 * d + d / 4) := by
  have hfour : (b * 100 + d) / 4 = 25 * b + d / 4 := by omega
  have hcentury : (b * 100 + d) / 100 = b := by omega
  have hfourth : (b * 100 + d) / 400 = b / 4 := by omega
  rw [daysBeforeYear, hfour, hcentury, hfourth]
  omega

/-- The month `m` after March is in the same year, or it is January or February. -/
theorem number_march {y m day : Int} (h₁ : 0 ≤ m) (h₂ : m ≤ 11) :
    number ⟨y - 4800 + m / 10, m + 3 - 12 * (m / 10), day⟩ =
      day + daysBefore m + daysBeforeYear y - 32045 := by
  have ha : (14 - (m + 3 - 12 * (m / 10))) / 12 = m / 10 := by omega
  have hm : m + 3 - 12 * (m / 10) + 12 * (m / 10) - 3 = m := by omega
  have hy : y - 4800 + m / 10 + 4800 - m / 10 = y := by omega
  simp only [number, ha, hm, hy]

/-- The century, the year in the century and the day in the year of the day `a`. -/
structure Split (a b d e : Int) : Prop where
  eq : a = 36524 * b + b / 4 + (365 * d + d / 4) + e
  year_nonneg : 0 ≤ d
  year_lt : d < 100
  day_nonneg : 0 ≤ e
  day_le : e ≤ 365
  leap : e = 365 → IsLeap (b * 100 + d + 1)

theorem split_div {a b c d e : Int} (hb : (4 * a + 3) / 146097 = b)
    (hc : a - (36524 * b + b / 4) = c) (hd : (4 * c + 3) / 1461 = d)
    (he : c - (365 * d + d / 4) = e) : Split a b d e := by
  have hc₀ : 0 ≤ c ∧ c ≤ 36524 := by omega
  have hlong : c = 36524 → b % 4 = 3 := by omega
  have hd₀ : 0 ≤ d ∧ d < 100 ∧ 0 ≤ e ∧ e ≤ 365 := by
    clear hb hc
    omega
  refine ⟨by omega, hd₀.1, hd₀.2.1, hd₀.2.2.1, hd₀.2.2.2, fun hlast => ?_⟩
  have hfourth : d % 4 = 3 := by
    clear hb hc
    omega
  have hcentury : d = 99 → b % 4 = 3 := by
    intro h
    exact hlong (by omega)
  clear hb hc hd he
  unfold IsLeap
  omega

theorem Split.div_eq {a b d e : Int} (h : Split a b d e) :
    (4 * a + 3) / 146097 = b ∧ (4 * (a - (36524 * b + b / 4)) + 3) / 1461 = d := by
  obtain ⟨heq, h₁, h₂, h₃, h₄, hleap⟩ := h
  have hc : a - (36524 * b + b / 4) = 365 * d + d / 4 + e := by omega
  have hfourth : e = 365 → d % 4 = 3 := by
    intro he
    have := (hleap he).1
    omega
  have hlong : e = 365 → d = 99 → b % 4 = 3 := by
    intro he hd
    have := (hleap he).2
    omega
  clear hleap
  constructor
  · have hlt : 365 * d + d / 4 + e ≤ 36523 ∨ 365 * d + d / 4 + e = 36524 ∧ b % 4 = 3 := by omega
    omega
  · rw [hc]
    clear hc heq
    omega

theorem month_div {e : Int} (h₁ : 0 ≤ e) (h₂ : e ≤ 365) :
    0 ≤ (5 * e + 2) / 153 ∧ (5 * e + 2) / 153 ≤ 11 ∧ daysBefore ((5 * e + 2) / 153) ≤ e := by
  unfold daysBefore
  omega

/-! ## the days are numbered by the integers -/

theorem Split.ofNumber_eq {j b d e : Int} (h : Split (j + 32044) b d e) :
    ofNumber j = ⟨b * 100 + d - 4800 + (5 * e + 2) / 153 / 10,
      (5 * e + 2) / 153 + 3 - 12 * ((5 * e + 2) / 153 / 10), e - daysBefore ((5 * e + 2) / 153) + 1⟩ := by
  obtain ⟨hb, hd⟩ := h.div_eq
  have heq := h.eq
  have he : j + 32044 - (36524 * b + b / 4) - (365 * d + d / 4) = e := by omega
  simp only [ofNumber, hb, days_of_centuries, hd, days_of_years, he, daysBefore]

theorem exists_split (a : Int) : ∃ b d e, Split a b d e := ⟨_, _, _, split_div rfl rfl rfl rfl⟩

theorem number_ofNumber (j : Int) : (ofNumber j).number = j := by
  obtain ⟨b, d, e, h⟩ := exists_split (j + 32044)
  obtain ⟨hm₀, hm₁, -⟩ := month_div h.day_nonneg h.day_le
  rw [h.ofNumber_eq, number_march hm₀ hm₁, daysBeforeYear_century h.year_nonneg h.year_lt]
  have heq := h.eq
  omega

theorem isLeap_sub (y : Int) : IsLeap (y - 4800 + 1) ↔ IsLeap (y + 1) := by
  unfold IsLeap
  omega

theorem valid_ofNumber (j : Int) : (ofNumber j).Valid := by
  obtain ⟨b, d, e, h⟩ := exists_split (j + 32044)
  obtain ⟨hm₀, hm₁, hle⟩ := month_div h.day_nonneg h.day_le
  have he₀ := h.day_nonneg
  have he := h.day_le
  have hleap := h.leap
  rw [← isLeap_sub] at hleap
  rw [h.ofNumber_eq]
  generalize hm : (5 * e + 2) / 153 = m at *
  generalize b * 100 + d = y at *
  clear h
  have hten : m / 10 = 0 ∧ m ≤ 9 ∨ m / 10 = 1 ∧ 10 ≤ m := by omega
  refine ⟨by dsimp only; omega, by dsimp only; omega, by dsimp only; omega, ?_⟩
  dsimp only
  by_cases hfeb : m = 11
  · -- the last month of the year that begins in March
    subst hfeb
    have hmonth : (11 + 3 - 12 * (11 / 10) : Int) = 2 := by decide
    have hyear : y - 4800 + 11 / 10 = y - 4800 + 1 := rfl
    rw [hmonth, monthLength, if_pos rfl, hyear]
    unfold daysBefore at *
    split_ifs with hl
    · omega
    · have hne : e ≠ 365 := fun h => hl (hleap h)
      omega
  · unfold monthLength daysBefore
    rw [if_neg (by omega)]
    have hcases : m = 0 ∨ m = 1 ∨ m = 2 ∨ m = 3 ∨ m = 4 ∨ m = 5 ∨ m = 6 ∨ m = 7 ∨ m = 8 ∨ m = 9 ∨
      m = 10 := by omega
    clear hleap hle
    obtain rfl | rfl | rfl | rfl | rfl | rfl | rfl | rfl | rfl | rfl | rfl := hcases <;> norm_num <;> omega

/-! ## the order of the days -/

/-- Days in the first `k` months of the year. -/
def daysBeforeMonth (year : Int) : Nat → Int
  | 0 => 0
  | k + 1 => daysBeforeMonth year k + monthLength year (k + 1)

/-- The day of the year, counted from 0. -/
def dayOfYear (d : Ymd) : Int := daysBeforeMonth d.year (d.month - 1).toNat + d.day - 1

theorem daysBeforeMonth_mono (year : Int) {k k' : Nat} (h : k ≤ k') :
    daysBeforeMonth year k ≤ daysBeforeMonth year k' := by
  refine monotone_nat_of_le_succ (fun k => ?_) h
  have hpos := monthLength_pos year (k + 1)
  rw [daysBeforeMonth]
  omega

/-- The leap day is the last one of the year that begins in March. -/
theorem daysBeforeYear_succ (year : Int) :
    daysBeforeYear (year + 4800) =
      daysBeforeYear (year + 4799) + if IsLeap year then 366 else 365 := by
  unfold daysBeforeYear IsLeap
  split_ifs with h
  · omega
  · omega

theorem Valid.number_eq (h : d.Valid) : d.number = number ⟨d.year, 1, 1⟩ + d.dayOfYear := by
  obtain ⟨year, month, day⟩ := d
  obtain ⟨h₁, h₂, -, -⟩ := h
  have hsucc := daysBeforeYear_succ year
  have hjan : year + 4800 - 1 = year + 4799 := by omega
  dsimp only at h₁ h₂ ⊢
  obtain rfl | rfl | rfl | rfl | rfl | rfl | rfl | rfl | rfl | rfl | rfl | rfl :=
    month_cases h₁ h₂ <;>
  simp [number, dayOfYear, daysBeforeMonth, monthLength, daysBefore, hjan] <;>
  split_ifs at * <;> omega

theorem Valid.number_next (h : d.Valid) : d.next.number = d.number + 1 := by
  have h₁ := h.month_pos
  have h₂ := h.month_le
  have hle := h.day_le
  rw [h.next.number_eq, h.number_eq]
  unfold Ymd.next
  split_ifs with hday hmonth
  · simp only [dayOfYear]
    omega
  · obtain ⟨k, hk⟩ : ∃ k : Nat, d.month = k + 1 := ⟨(d.month - 1).toNat, by omega⟩
    have hto : (d.month + 1 - 1).toNat = k + 1 := by omega
    have hto' : (d.month - 1).toNat = k := by omega
    simp only [dayOfYear, hto, hto', daysBeforeMonth, ← hk]
    omega
  · have hdec : d.month = 12 := by omega
    have hlast : d.day = 31 := by
      rw [monthLength, hdec] at hle hday
      norm_num at hle hday
      omega
    have hsucc := daysBeforeYear_succ d.year
    have hyear : d.year + 1 + 4800 - 1 = d.year + 4800 := by omega
    have hyear' : d.year + 4800 - 1 = d.year + 4799 := by omega
    simp [number, dayOfYear, daysBeforeMonth, monthLength, hdec, hlast, hyear, hyear']
    split_ifs at * <;> omega

theorem number_newYear (year : Int) :
    number ⟨year + 1, 1, 1⟩ = number ⟨year, 1, 1⟩ + daysBeforeMonth year 12 := by
  have hsucc := daysBeforeYear_succ year
  have hyear : year + 1 + 4800 - 1 = year + 4800 := by omega
  have hyear' : year + 4800 - 1 = year + 4799 := by omega
  simp [number, daysBeforeMonth, monthLength, hyear, hyear']
  split_ifs at * <;> omega

theorem number_newYear_mono {y y' : Int} (h : y ≤ y') : number ⟨y, 1, 1⟩ ≤ number ⟨y', 1, 1⟩ := by
  induction y', h using Int.leInduction with
  | base => exact Int.le_refl _
  | succ n _ ih =>
    have hnext := number_newYear n
    have hpos := daysBeforeMonth_mono n (Nat.zero_le 12)
    rw [daysBeforeMonth] at hpos
    omega

/-- A day is in its month, and the month is in its year. -/
theorem Valid.dayOfYear_lt (h : d.Valid) {k : Nat} (hk : d.month ≤ k) :
    d.dayOfYear < daysBeforeMonth d.year k := by
  obtain ⟨h₁, h₂, h₃, h₄⟩ := h
  obtain ⟨n, hn⟩ : ∃ n : Nat, d.month = n + 1 := ⟨(d.month - 1).toNat, by omega⟩
  have hmono := daysBeforeMonth_mono d.year (show n + 1 ≤ k by omega)
  have hto : (d.month - 1).toNat = n := by omega
  rw [daysBeforeMonth, ← hn] at hmono
  rw [dayOfYear, hto]
  omega

theorem Valid.dayOfYear_nonneg (h : d.Valid) : 0 ≤ d.dayOfYear := by
  have hmono := daysBeforeMonth_mono d.year (Nat.zero_le (d.month - 1).toNat)
  have hday := h.day_pos
  rw [daysBeforeMonth] at hmono
  rw [dayOfYear]
  omega

theorem Valid.number_lt {d e : Ymd} (hd : d.Valid) (he : e.Valid) (h : d.Before e) :
    d.number < e.number := by
  rw [hd.number_eq, he.number_eq]
  obtain hyear | ⟨hyear, hmonth | ⟨hmonth, hday⟩⟩ := h
  · -- the whole rest of the year lies between
    have hlast := hd.dayOfYear_lt (show d.month ≤ (12 : Nat) from hd.month_le)
    have hmono := number_newYear_mono (show d.year + 1 ≤ e.year by omega)
    have hfirst := he.dayOfYear_nonneg
    rw [number_newYear] at hmono
    omega
  · have hm := hd.month_pos
    have hlast := hd.dayOfYear_lt (k := (e.month - 1).toNat) (by omega)
    have hday := he.day_pos
    rw [hyear] at hlast ⊢
    have hrest : e.dayOfYear = daysBeforeMonth e.year (e.month - 1).toNat + e.day - 1 := rfl
    omega
  · rw [hyear, dayOfYear, dayOfYear, hyear, hmonth]
    omega

theorem before_or (d e : Ymd) : d.Before e ∨ d = e ∨ e.Before d := by
  obtain ⟨y, m, a⟩ := d
  obtain ⟨y', m', a'⟩ := e
  simp only [Before, Ymd.mk.injEq]
  omega

theorem Valid.number_lt_iff {d e : Ymd} (hd : d.Valid) (he : e.Valid) :
    d.number < e.number ↔ d.Before e := by
  refine ⟨fun h => ?_, hd.number_lt he⟩
  obtain hbefore | rfl | hafter := before_or d e
  · exact hbefore
  · omega
  · have := he.number_lt hd hafter
    omega

theorem Valid.ofNumber_number (h : d.Valid) : ofNumber d.number = d := by
  have hnumber := number_ofNumber d.number
  have hvalid := valid_ofNumber d.number
  obtain hbefore | heq | hafter := before_or (ofNumber d.number) d
  · have := hvalid.number_lt h hbefore
    omega
  · exact heq
  · have := h.number_lt hvalid hafter
    omega

end Ymd

/-- A day of the calendar. -/
structure Day extends Ymd where
  valid : toYmd.Valid

namespace Day

def next (d : Day) : Day := ⟨d.toYmd.next, d.valid.next⟩

def ofNumber (j : Int) : Day := ⟨Ymd.ofNumber j, Ymd.valid_ofNumber j⟩

end Day

end Lib.Calendar
