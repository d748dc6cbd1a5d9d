import Muduo.TimeZone

/-!
# Muduo.TimeZone.Local

`toLocalTime` and `fromLocalTime` through the changes between standard and daylight
time.

A local time in the last hour of daylight time comes twice: `fromLocalTime` finds the
standard time that follows, tries it, and goes back an hour when it gives the same hour
and minute.
-/

namespace Muduo.TimeZone

open Lib

variable {data : Data} {compareGmt : Bool} {k : Int}

/-! ## the search -/

/-- The keys are in order. -/
def Increasing (compareGmt : Bool) (data : Data) : Prop :=
  ∀ i x y, data.transitions[i]? = some x → data.transitions[i + 1]? = some y →
    x.key compareGmt < y.key compareGmt

/-- The last transition that is not later than `k` is `x`, at `i`. -/
structure IsLast (compareGmt : Bool) (data : Data) (k : Int) (i : Nat) (x : Transition) : Prop where
  get : data.transitions[i]? = some x
  le : x.key compareGmt ≤ k
  lt : ∀ y, data.transitions[i + 1]? = some y → k < y.key compareGmt

/-- All transitions are later than `k`. -/
def AllLater (compareGmt : Bool) (data : Data) (k : Int) : Prop :=
  ∀ x, data.transitions[0]? = some x → k < x.key compareGmt

theorem allLater_or_isLast (compareGmt : Bool) (data : Data) (k : Int) :
    AllLater compareGmt data k ∨ ∃ i x, IsLast compareGmt data k i x := by
  have h := between_lowerBound (fun x : Transition => x.key compareGmt ≤ k) data.transitions
  generalize lowerBound (fun x : Transition => x.key compareGmt ≤ k) data.transitions = n at h
  have hhigh : ∀ y, data.transitions[n]? = some y → k < y.key compareGmt := by
    intro y hy
    have hnot := h.high (List.getElem?_eq_some_iff.1 hy).1
    simpa [hy] using hnot
  cases n with
  | zero => exact .inl hhigh
  | succ i =>
    have hlow := h.low i rfl
    cases hx : data.transitions[i]? with
    | none => simp [hx] at hlow
    | some x => exact .inr ⟨i, x, hx, by simpa [hx] using hlow, hhigh⟩

theorem Increasing.lt (h : Increasing compareGmt data) {i j : Nat} {x y : Transition} (hij : i < j)
    (hx : data.transitions[i]? = some x) (hy : data.transitions[j]? = some y) :
    x.key compareGmt < y.key compareGmt := by
  induction j, hij using Nat.le_induction generalizing y with
  | base => exact h i x y hx hy
  | succ j hle ih =>
    obtain ⟨z, hz⟩ : ∃ z, data.transitions[j]? = some z := by
      have := (List.getElem?_eq_some_iff.1 hy).1
      exact ⟨_, List.getElem?_eq_getElem (by omega)⟩
    exact (ih hz).trans (h j z y hz hy)

theorem IsLast.index_le {i j : Nat} {x y : Transition} (h : IsLast compareGmt data k i x)
    (hsorted : Increasing compareGmt data) (h' : IsLast compareGmt data k j y) : j ≤ i := by
  by_contra hlt
  have hlen := (List.getElem?_eq_some_iff.1 h'.get).1
  obtain ⟨z, hz⟩ : ∃ z, data.transitions[i + 1]? = some z := ⟨_, List.getElem?_eq_getElem (by omega)⟩
  have hzk := h.lt z hz
  have hle := h'.le
  obtain rfl | hij : j = i + 1 ∨ i + 1 < j := by omega
  · rw [h'.get, Option.some.injEq] at hz
    subst hz
    omega
  · have := hsorted.lt hij hz h'.get
    omega

variable {sentry : Transition}

theorem findLocaltime_of_allLater (h : AllLater compareGmt data k)
    (hk : sentry.key compareGmt = k) :
    findLocaltime data sentry compareGmt = element data.localtimes 0 := by
  unfold findLocaltime
  cases ht : data.transitions with
  | nil => rfl
  | cons front rest =>
    have hlt : sentry.key compareGmt < front.key compareGmt := by
      rw [hk]
      exact h front (by rw [ht]; rfl)
    simp only [hlt, if_true]

theorem element_of_getElem? {α : Type} {v : List α} {i : Nat} {x : α} (h : v[i]? = some x) :
    element v i = .ok x := by
  unfold element
  rw [Int.toNat_natCast, h]
  simp

/-- Where the search for a key ends: at the transition with this key, or behind the last
one that is not later. -/
theorem lowerBound_key (hsorted : Increasing compareGmt data) {i : Nat} {x : Transition}
    (h : IsLast compareGmt data k i x) :
    lowerBound (fun y : Transition => decide (y.key compareGmt < k)) data.transitions =
      if x.key compareGmt = k then i else i + 1 := by
  have hi := (List.getElem?_eq_some_iff.1 h.get).1
  have hbefore : ∀ j y, j < i → data.transitions[j]? = some y → y.key compareGmt < k := by
    intro j y hj hy
    exact lt_of_lt_of_le (hsorted.lt hj hy h.get) h.le
  have hbehind : ∀ j y, i < j → data.transitions[j]? = some y → k < y.key compareGmt := by
    intro j y hj hy
    obtain ⟨z, hz⟩ : ∃ z, data.transitions[i + 1]? = some z := by
      have := (List.getElem?_eq_some_iff.1 hy).1
      exact ⟨_, List.getElem?_eq_getElem (by omega)⟩
    obtain rfl | hlt := Nat.eq_or_lt_of_le (Nat.succ_le_of_lt hj)
    · exact h.lt y hy
    · exact (h.lt z hz).trans (hsorted.lt hlt hz hy)
  refine lowerBound_eq (by split_ifs <;> omega) (fun j hj => ?_) fun j hj hlt => ?_
  · obtain ⟨y, hy⟩ : ∃ y, data.transitions[j]? = some y :=
      ⟨_, List.getElem?_eq_getElem (by split_ifs at hj <;> omega)⟩
    rw [hy, Option.any_some, decide_eq_true_eq]
    obtain hji | rfl : j < i ∨ j = i := by split_ifs at hj <;> omega
    · exact hbefore j y hji hy
    · obtain rfl : x = y := Option.some.inj (h.get.symm.trans hy)
      have hle := h.le
      split_ifs at hj <;> omega
  · obtain ⟨y, hy⟩ : ∃ y, data.transitions[j]? = some y := ⟨_, List.getElem?_eq_getElem hlt⟩
    rw [hy, Option.any_some, decide_eq_false_iff_not]
    obtain rfl | hij : i = j ∨ i < j := by split_ifs at hj <;> omega
    · obtain rfl : x = y := Option.some.inj (h.get.symm.trans hy)
      split_ifs at hj <;> omega
    · exact not_lt_of_gt (hbehind j y hij hy)

/-- **The search** ends at the last transition that is not later. -/
theorem findLocaltime_eq (hsorted : Increasing compareGmt data) {i : Nat} {x : Transition}
    (h : IsLast compareGmt data k i x) (hk : sentry.key compareGmt = k) :
    findLocaltime data sentry compareGmt = element data.localtimes x.localtimeIdx := by
  have hi := (List.getElem?_eq_some_iff.1 h.get).1
  have hbound := lowerBound_key hsorted h
  unfold findLocaltime
  cases ht : data.transitions with
  | nil => simp [ht] at hi
  | cons front rest =>
    have hfront : ¬ k < front.key compareGmt := by
      have hle := h.le
      obtain rfl | hpos := Nat.eq_zero_or_pos i
      · have hget := h.get
        rw [ht, List.getElem?_cons_zero, Option.some.injEq] at hget
        subst hget
        omega
      · have := hsorted.lt hpos (show data.transitions[0]? = some front by rw [ht]; rfl) h.get
        omega
    dsimp only
    rw [hk, if_neg hfront, ← ht, hbound]
    by_cases heq : x.key compareGmt = k
    · rw [if_pos heq, h.get]
      simp only [heq, if_true]
    · rw [if_neg heq]
      cases hy : data.transitions[i + 1]? with
      | some y =>
        have hlt := h.lt y hy
        simp only [if_neg (show ¬ k = y.key compareGmt by omega)]
        rw [check_of (Nat.succ_ne_zero i), ok_bind, Nat.add_sub_cancel, element_of_getElem? h.get, ok_bind]
      | none =>
        have hlen : data.transitions.length - 1 = i := by
          have := List.getElem?_eq_none_iff.1 hy
          omega
        simp only
        rw [hlen, element_of_getElem? h.get, ok_bind]

/-! ## zones with daylight time -/

/-- The local time of the `i`th period behind the first change: daylight time, and then
standard time. -/
structure IsPeriod (offset : Int) (i : Nat) (l : Localtime) : Prop where
  gmtOffset : l.gmtOffset = if i % 2 = 0 then offset + 3600 else offset
  isDst : l.isDst = decide (i % 2 = 0)

/-- A zone that alternates between standard time, `offset` east of UTC, and daylight
time, or that has no transitions. -/
structure DstZone extends Data where
  offset : Int
  apart : ∀ i x y, transitions[i]? = some x → transitions[i + 1]? = some y →
    x.gmttime + 7200 < y.gmttime
  alternates : ∀ i x, transitions[i]? = some x → ∃ l, element localtimes x.localtimeIdx = .ok l ∧
    IsPeriod offset i l ∧ x.localtime = x.gmttime + l.gmtOffset
  front : ∃ l, localtimes[0]? = some l ∧
    (transitions = [] ∨ l.gmtOffset = offset ∧ l.isDst = false)
  named : ∀ l ∈ localtimes, 0 ≤ l.arrbIdx ∧ l.arrbIdx ≤ abbreviation.length

namespace DstZone

variable {z : DstZone} {libc : Libc} {t : Int} {i : Nat} {x y : Transition}

def timeZone (z : DstZone) : TimeZone := ⟨some z.toData⟩

theorem increasing_gmt (z : DstZone) : Increasing true z.toData := by
  intro i x y hx hy
  have := z.apart i x y hx hy
  simp only [Transition.key, if_true]
  omega

theorem localtime_even (hx : z.transitions[i]? = some x) (hi : i % 2 = 0) :
    x.localtime = x.gmttime + z.offset + 3600 := by
  obtain ⟨l, -, hl, hlocal⟩ := z.alternates i x hx
  have := hl.gmtOffset
  simp only [hi, if_true] at this
  omega

theorem localtime_odd (hx : z.transitions[i]? = some x) (hi : i % 2 = 1) :
    x.localtime = x.gmttime + z.offset := by
  obtain ⟨l, -, hl, hlocal⟩ := z.alternates i x hx
  have := hl.gmtOffset
  simp only [hi, Nat.one_ne_zero, if_false] at this
  omega

theorem increasing_local (z : DstZone) : Increasing false z.toData := by
  intro i x y hx hy
  have hapart := z.apart i x y hx hy
  simp only [Transition.key, Bool.false_eq_true, if_false]
  obtain hi | hi := Nat.mod_two_eq_zero_or_one i
  · have := localtime_even hx hi
    have := localtime_odd hy (by omega)
    omega
  · have := localtime_odd hx hi
    have := localtime_even hy (by omega)
    omega

/-- What `toLocalTime` gives when the search finds `l`. -/
structure IsLocal (libc : Libc) (l : Localtime) (t : Int) (u : Tm) : Prop where
  broken : u.toBrokenTime = libc.gmtime_r (t + l.gmtOffset)
  isdst : u.tm_isdst = if l.isDst then 1 else 0

variable {l : Localtime}

theorem exists_toLocalTime (z : DstZone) (libc : Libc) (hl : l ∈ z.localtimes)
    (hfind : findLocaltime z.toData ⟨t, 0, 0⟩ true = .ok l) :
    ∃ u, z.timeZone.toLocalTime libc t = .ok u ∧ IsLocal libc l t u := by
  refine ⟨⟨libc.gmtime_r (t + l.gmtOffset), if l.isDst then 1 else 0, l.gmtOffset,
    (z.abbreviation.drop l.arrbIdx.toNat).takeWhile (· ≠ 0)⟩, ?_, ⟨rfl, rfl⟩⟩
  unfold toLocalTime timeZone cString
  dsimp only
  rw [hfind, ok_bind, check_of (z.named l hl)]
  rfl

theorem mem_of_element {α : Type} {v : List α} {i : Int} {x : α} (h : element v i = .ok x) :
    x ∈ v := by
  unfold element at h
  split at h
  · next y hy =>
    split_ifs at h
    rw [← Except.ok.inj h]
    exact List.mem_of_getElem? hy
  · contradiction

theorem toLocalTime_last (z : DstZone) (libc : Libc) (h : IsLast true z.toData t i x) :
    ∃ l u, element z.localtimes x.localtimeIdx = .ok l ∧ IsPeriod z.offset i l ∧
      z.timeZone.toLocalTime libc t = .ok u ∧ IsLocal libc l t u := by
  obtain ⟨l, hget, hl, -⟩ := z.alternates i x h.get
  have hfind : findLocaltime z.toData ⟨t, 0, 0⟩ true = .ok l := by
    rw [findLocaltime_eq z.increasing_gmt h rfl]
    exact hget
  obtain ⟨u, hu, hlocal⟩ := z.exists_toLocalTime libc (mem_of_element hget) hfind
  exact ⟨l, u, hget, hl, hu, hlocal⟩

theorem fromLocalTime_standard {u : Tm} (hu : u.tm_isdst = 0)
    (hfind : findLocaltime z.toData ⟨0, libc.timegm u.toBrokenTime, 0⟩ false = .ok l) :
    z.timeZone.fromLocalTime libc u = .ok (libc.timegm u.toBrokenTime - l.gmtOffset) := by
  unfold fromLocalTime timeZone
  dsimp only
  rw [hfind, ok_bind, if_neg (by simp [hu])]
  rfl

/-- In daylight time the time that was found is tried. -/
theorem fromLocalTime_daylight {u v : Tm} (hu : u.tm_isdst ≠ 0)
    (hfind : findLocaltime z.toData ⟨0, libc.timegm u.toBrokenTime, 0⟩ false = .ok l)
    (htry : z.timeZone.toLocalTime libc (libc.timegm u.toBrokenTime - l.gmtOffset) = .ok v) :
    z.timeZone.fromLocalTime libc u =
      .ok (if v.tm_isdst = 0 ∧ v.tm_hour = u.tm_hour ∧ v.tm_min = u.tm_min then
        libc.timegm u.toBrokenTime - 3600 - l.gmtOffset
      else libc.timegm u.toBrokenTime - l.gmtOffset) := by
  unfold timeZone at htry
  unfold fromLocalTime timeZone
  dsimp only
  rw [hfind, ok_bind, if_pos hu, htry, ok_bind]
  split_ifs <;> rfl

/-- It is daylight time at `t`: the last transition at or before `t` is a change to it.
In a zone without transitions there is only one local time. -/
def Daylight (z : DstZone) (t : Int) : Prop :=
  if z.transitions = [] then ∃ l, z.localtimes[0]? = some l ∧ l.isDst
  else ∃ i x l, IsLast true z.toData t i x ∧ element z.localtimes x.localtimeIdx = .ok l ∧ l.isDst

/-- Local time and back. -/
def RoundTrip (z : DstZone) (libc : Libc) (t : Int) : Prop :=
  ∃ u, z.timeZone.toLocalTime libc t = .ok u ∧ z.timeZone.fromLocalTime libc u = .ok t ∧
    (u.tm_isdst ≠ 0 ↔ z.Daylight t)

theorem roundTrip_front (h : AllLater true z.toData t) : RoundTrip z libc t := by
  obtain ⟨l, hget, hfront⟩ := z.front
  have helement : element z.localtimes 0 = .ok l := element_of_getElem? hget
  have hfind : findLocaltime z.toData ⟨t, 0, 0⟩ true = .ok l :=
    (findLocaltime_of_allLater h rfl).trans helement
  obtain ⟨u, hu, hlocal⟩ := z.exists_toLocalTime libc (mem_of_element helement) hfind
  have hseconds : libc.timegm u.toBrokenTime = t + l.gmtOffset := by
    rw [hlocal.broken, libc.timegm_gmtime_r]
  obtain hnone | ⟨hoffset, hstd⟩ := hfront
  · -- there is only one local time
    have hlater : AllLater false z.toData (t + l.gmtOffset) := by
      intro x hx
      rw [hnone] at hx
      contradiction
    have hfind' : findLocaltime z.toData ⟨0, libc.timegm u.toBrokenTime, 0⟩ false = .ok l := by
      rw [hseconds]
      exact (findLocaltime_of_allLater hlater rfl).trans helement
    have hback : t + l.gmtOffset - l.gmtOffset = t := by omega
    have hday : u.tm_isdst ≠ 0 ↔ z.Daylight t := by
      rw [Daylight, if_pos hnone, hlocal.isdst]
      simp [hget]
    refine ⟨u, hu, ?_, hday⟩
    by_cases hdst : u.tm_isdst = 0
    · rw [fromLocalTime_standard hdst hfind', hseconds, hback]
    · have htry : z.timeZone.toLocalTime libc (libc.timegm u.toBrokenTime - l.gmtOffset) = .ok u := by
        rw [hseconds, hback, hu]
      rw [fromLocalTime_daylight hdst hfind' htry, if_neg (fun h => hdst h.1), hseconds, hback]
  · have hlater : AllLater false z.toData (t + l.gmtOffset) := by
      intro x hx
      have hlt := h x hx
      have := localtime_even hx rfl
      simp only [Transition.key, if_true, Bool.false_eq_true, if_false] at hlt ⊢
      omega
    have hfind' : findLocaltime z.toData ⟨0, libc.timegm u.toBrokenTime, 0⟩ false = .ok l := by
      rw [hseconds]
      exact (findLocaltime_of_allLater hlater rfl).trans helement
    have hdst : u.tm_isdst = 0 := by rw [hlocal.isdst, hstd]; rfl
    refine ⟨u, hu, ?_, ?_⟩
    · rw [fromLocalTime_standard hdst hfind', hseconds]
      congr 1
      omega
    · refine iff_of_false (fun hne => hne hdst) ?_
      unfold Daylight
      split_ifs with hnone
      · rintro ⟨l', hget', hdst'⟩
        rw [hget, Option.some.injEq] at hget'
        rw [← hget', hstd] at hdst'
        contradiction
      · rintro ⟨i, x, l', hlast, -, -⟩
        obtain ⟨front, hx⟩ : ∃ front, z.transitions[0]? = some front := by
          cases ht : z.transitions with
          | nil => exact absurd ht hnone
          | cons front rest => exact ⟨front, rfl⟩
        have hlt := h front hx
        have hle := hlast.le
        obtain rfl | hpos := Nat.eq_zero_or_pos i
        · rw [hlast.get, Option.some.injEq] at hx
          subst hx
          omega
        · have := z.increasing_gmt.lt hpos hx hlast.get
          omega

/-- Which local time it is behind a transition. -/
theorem daylight_iff_even (h : IsLast true z.toData t i x) : z.Daylight t ↔ i % 2 = 0 := by
  have hne : z.transitions ≠ [] := by
    intro hnil
    have hget := h.get
    rw [hnil] at hget
    contradiction
  obtain ⟨l, hget, hl, -⟩ := z.alternates i x h.get
  rw [Daylight, if_neg hne]
  constructor
  · rintro ⟨j, y, l', hlast, hget', hdst⟩
    have hij : i = j := Nat.le_antisymm (hlast.index_le z.increasing_gmt h) (h.index_le z.increasing_gmt hlast)
    subst hij
    rw [h.get.symm.trans hlast.get |> Option.some.inj] at hget
    rw [hget, Except.ok.injEq] at hget'
    subst hget'
    simpa [hl.isDst] using hdst
  · intro hi
    exact ⟨i, x, l, h, hget, by simp [hl.isDst, hi]⟩

theorem roundTrip_standard (h : IsLast true z.toData t i x) (hi : i % 2 = 1) : RoundTrip z libc t := by
  obtain ⟨l, u, hget, hl, hu, hlocal⟩ := z.toLocalTime_last libc h
  have hoffset : l.gmtOffset = z.offset := by rw [hl.gmtOffset, if_neg (by omega)]
  have hdst : u.tm_isdst = 0 := by
    rw [hlocal.isdst, hl.isDst]
    simp [hi]
  have hseconds : libc.timegm u.toBrokenTime = t + z.offset := by
    rw [hlocal.broken, libc.timegm_gmtime_r, hoffset]
  have hlast : IsLast false z.toData (t + z.offset) i x := by
    have hx := localtime_odd h.get hi
    have hle := h.le
    refine ⟨h.get, ?_, fun y hy => ?_⟩
    · simp only [Transition.key, if_true, Bool.false_eq_true, if_false] at hle ⊢
      omega
    · have hlt := h.lt y hy
      have hy' := localtime_even hy (by omega)
      simp only [Transition.key, if_true, Bool.false_eq_true, if_false] at hlt ⊢
      omega
  refine ⟨u, hu, ?_, ?_⟩
  · rw [fromLocalTime_standard hdst (l := l) (by rw [hseconds, findLocaltime_eq z.increasing_local hlast rfl, hget]),
      hseconds, hoffset]
    congr 1
    omega
  · rw [daylight_iff_even h]
    exact iff_of_false (fun hne => hne hdst) (by omega)

/-- In daylight time: in the hour before the change to standard time, the local time
comes again. -/
theorem roundTrip_daylight (h : IsLast true z.toData t i x) (hi : i % 2 = 0) : RoundTrip z libc t := by
  obtain ⟨l, u, hget, hl, hu, hlocal⟩ := z.toLocalTime_last libc h
  have hoffset : l.gmtOffset = z.offset + 3600 := by rw [hl.gmtOffset, if_pos hi]
  have hdst : u.tm_isdst = 1 := by
    rw [hlocal.isdst, hl.isDst]
    simp [hi]
  have hne : u.tm_isdst ≠ 0 := by omega
  have hseconds : libc.timegm u.toBrokenTime = t + (z.offset + 3600) := by
    rw [hlocal.broken, libc.timegm_gmtime_r, hoffset]
  refine ⟨u, hu, ?_, by rw [daylight_iff_even h]; exact iff_of_true hne hi⟩
  have hle := h.le
  have hx := localtime_even h.get hi
  by_cases hagain : ∃ y, z.transitions[i + 1]? = some y ∧ y.gmttime ≤ t + 3600
  · obtain ⟨y, hy, hyt⟩ := hagain
    have hlt := h.lt y hy
    have hy' := localtime_odd hy (by omega)
    simp only [Transition.key, if_true] at hle hlt
    -- the standard time behind the change is found, and it is an hour later
    have hlast : IsLast false z.toData (t + (z.offset + 3600)) (i + 1) y := by
      refine ⟨hy, ?_, fun w hw => ?_⟩
      · simp only [Transition.key, Bool.false_eq_true, if_false]
        omega
      · have hapart := z.apart (i + 1) y w hy hw
        have hw' := localtime_even hw (by omega)
        simp only [Transition.key, Bool.false_eq_true, if_false]
        omega
    have hlast' : IsLast true z.toData (t + 3600) (i + 1) y := by
      refine ⟨hy, hyt, fun w hw => ?_⟩
      have hapart := z.apart (i + 1) y w hy hw
      simp only [Transition.key, if_true]
      omega
    obtain ⟨l', v, hget', hl', hv, hlocal'⟩ := z.toLocalTime_last libc hlast'
    have hoffset' : l'.gmtOffset = z.offset := by rw [hl'.gmtOffset, if_neg (by omega)]
    have htry : z.timeZone.toLocalTime libc (libc.timegm u.toBrokenTime - l'.gmtOffset) = .ok v := by
      rw [hseconds, hoffset', show t + (z.offset + 3600) - z.offset = t + 3600 by omega, hv]
    have hsame : v.toBrokenTime = u.toBrokenTime := by
      rw [hlocal'.broken, hlocal.broken, hoffset', hoffset]
      congr 1
      omega
    have hstd : v.tm_isdst = 0 := by
      rw [hlocal'.isdst, hl'.isDst]
      simp [show (i + 1) % 2 = 1 by omega]
    have hfind : findLocaltime z.toData ⟨0, libc.timegm u.toBrokenTime, 0⟩ false = .ok l' := by
      rw [hseconds, findLocaltime_eq z.increasing_local hlast rfl, hget']
    rw [fromLocalTime_daylight hne hfind htry, if_pos ⟨hstd, by rw [hsame], by rw [hsame]⟩, hseconds,
      hoffset']
    congr 1
    omega
  · have hlast : IsLast false z.toData (t + (z.offset + 3600)) i x := by
      refine ⟨h.get, ?_, fun y hy => ?_⟩
      · simp only [Transition.key, if_true, Bool.false_eq_true, if_false] at hle ⊢
        omega
      · have hlater : ¬ y.gmttime ≤ t + 3600 := fun hyt => hagain ⟨y, hy, hyt⟩
        have hy' := localtime_odd hy (by omega)
        simp only [Transition.key, Bool.false_eq_true, if_false]
        omega
    have hback : t + (z.offset + 3600) - (z.offset + 3600) = t := by omega
    have htry : z.timeZone.toLocalTime libc (libc.timegm u.toBrokenTime - l.gmtOffset) = .ok u := by
      rw [hseconds, hoffset, hback, hu]
    have hfind : findLocaltime z.toData ⟨0, libc.timegm u.toBrokenTime, 0⟩ false = .ok l := by
      rw [hseconds, findLocaltime_eq z.increasing_local hlast rfl, hget]
    rw [fromLocalTime_daylight hne hfind htry, if_neg (fun h => hne h.1), hseconds, hoffset, hback]

end DstZone

/-- The C library, by the calendar. -/
def civil : Libc where
  gmtime_r s :=
    let j := s / 86400 + 2440588
    let d := Calendar.Ymd.ofNumber j
    ⟨s % 60, s / 60 % 60, s % 86400 / 3600, d.day, d.month - 1, d.year - 1900, (j + 1) % 7, d.dayOfYear⟩
  timegm u :=
    (Calendar.Ymd.number ⟨u.tm_year + 1900, u.tm_mon + 1, u.tm_mday⟩ - 2440588) * 86400 +
      (u.tm_hour * 3600 + u.tm_min * 60 + u.tm_sec)
  timegm_gmtime_r s := by
    have hnumber := Calendar.Ymd.number_ofNumber (s / 86400 + 2440588)
    simp only [sub_add_cancel, hnumber]
    omega

/-- New York in 2007. -/
def newYork : DstZone where
  transitions := [⟨1173596400, 1173582000, 1⟩, ⟨1194156000, 1194138000, 0⟩]
  localtimes := [⟨-18000, false, 4⟩, ⟨-14400, true, 0⟩]
  abbreviation := [69, 68, 84, 0, 69, 83, 84, 0]
  offset := -18000
  apart i x y hx hy := by
    rcases i with _ | i
    · obtain rfl := Option.some.inj hx
      obtain rfl := Option.some.inj hy
      decide
    · simp at hy
  alternates i x hx := by
    rcases i with _ | _ | i
    · obtain rfl := Option.some.inj hx
      exact ⟨_, rfl, ⟨rfl, rfl⟩, rfl⟩
    · obtain rfl := Option.some.inj hx
      exact ⟨_, rfl, ⟨rfl, rfl⟩, rfl⟩
    · simp at hx
  front := ⟨_, rfl, .inr ⟨rfl, rfl⟩⟩
  named := by decide

-- 01:59:59 comes twice
example : (newYork.timeZone.toLocalTime civil 1194155999).map (fun u => (u.tm_hour, u.tm_min, u.tm_isdst)) =
    .ok (1, 59, 1) := by decide +kernel

example : (newYork.timeZone.toLocalTime civil 1194159599).map (fun u => (u.tm_hour, u.tm_min, u.tm_isdst)) =
    .ok (1, 59, 0) := by decide +kernel

/-- A zone whose only local time is a daylight time. -/
def onlyDaylight : DstZone where
  transitions := []
  localtimes := [⟨3600, true, 0⟩]
  abbreviation := [68, 83, 84]
  offset := 0
  apart i x y hx hy := by simp at hx
  alternates i x hx := by simp at hx
  front := ⟨_, rfl, .inl rfl⟩
  named := by decide

end Muduo.TimeZone
