import Muduo.TimeZone

/-!
# Muduo.TimeZone.File

Which files make a zone that can be used.

`readTimeZoneFile` keeps what it has read when it throws, and returns `true` in any
case, so that the zone of a file that is missing, cut off or wrong is valid and has
nothing in it, or not enough.
-/

namespace Muduo.TimeZone

open Lib List

/-! ## reading -/

/-- The function reads `size` bytes, and throws when there are fewer. -/
structure Reads {α : Type} (read : List UInt8 → Except LogicError (α × List UInt8)) (size : Nat)
    (value : List UInt8 → α) : Prop where
  ok : ∀ file, size ≤ file.length → read file = .ok (value file, file.drop size)
  short : ∀ file, file.length < size → ∃ e, read file = .error e

variable {α β γ : Type} {read : List UInt8 → Except LogicError (α × List UInt8)} {n m : Nat}
  {value : List UInt8 → α}

theorem reads_takeBytes (n : Nat) : Reads (takeBytes n) n fun file => file.take n where
  ok _ h := if_pos h
  short _ h := ⟨_, if_neg (Nat.not_le_of_lt h)⟩

theorem reads_readInt32 : Reads readInt32 4 fun file => intOfSize (beValue (file.take 4)) where
  ok _ h := if_pos h
  short _ h := ⟨_, if_neg (Nat.not_le_of_lt h)⟩

theorem reads_readUInt8 : Reads readUInt8 1 fun file => file.headD 0 where
  ok file h := by
    cases file with
    | nil => simp at h
    | cons x file => rfl
  short file h := by
    cases file with
    | nil => exact ⟨_, rfl⟩
    | cons x file => simp at h

theorem Reads.bind {next : α → List UInt8 → Except LogicError (β × List UInt8)}
    {value' : α → List UInt8 → β} (h : Reads read n value)
    (hnext : ∀ x, Reads (next x) m (value' x)) :
    Reads (fun file => read file >>= fun p => next p.1 p.2) (n + m)
      fun file => value' (value file) (file.drop n) where
  ok file hlen := by
    have hrest : m ≤ (file.drop n).length := by rw [length_drop]; omega
    rw [h.ok file (by omega), ok_bind, (hnext _).ok _ hrest, drop_drop]
  short file hlen := by
    by_cases hfirst : n ≤ file.length
    · have hrest : (file.drop n).length < m := by rw [length_drop]; omega
      obtain ⟨e, he⟩ := (hnext (value file)).short _ hrest
      exact ⟨e, by rw [h.ok file hfirst, ok_bind, he]⟩
    · obtain ⟨e, he⟩ := h.short file (by omega)
      exact ⟨e, by rw [he]; rfl⟩

theorem reads_pure (x : α) : Reads (fun file => .ok (x, file)) 0 fun _ => x where
  ok _ _ := rfl
  short _ h := by omega

theorem Reads.readAll (h : Reads read n value) (k : Nat) :
    Reads (readAll read k) (k * n) fun file => (List.range k).map fun i => value (file.drop (i * n)) := by
  induction k with
  | zero =>
    rw [Nat.zero_mul]
    exact reads_pure []
  | succ k ih =>
    have hstep := h.bind (m := k * n + 0) fun x => ih.bind fun xs => reads_pure (x :: xs)
    have hsize : n + (k * n + 0) = (k + 1) * n := by rw [Nat.succ_mul]; omega
    rw [hsize] at hstep
    refine ⟨fun file hlen => (hstep.ok file hlen).trans ?_, hstep.short⟩
    congr 2
    rw [range_succ_eq_map, map_cons, map_map]
    simp only [Nat.zero_mul, drop_zero, drop_drop, List.cons.injEq, true_and]
    refine map_congr_left fun i _ => ?_
    rw [Function.comp_apply, Nat.succ_mul, Nat.add_comm]

theorem reads_readLocaltime : Reads readLocaltime 6 fun file =>
    ⟨intOfSize (beValue (file.take 4)), (file.drop 4).headD 0 ≠ 0, ((file.drop 5).headD 0).toNat⟩ := by
  have h := reads_readInt32.bind fun gmtoff => reads_readUInt8.bind fun isdst =>
    reads_readUInt8.bind fun abbrind =>
      reads_pure (⟨gmtoff, isdst ≠ 0, abbrind.toNat⟩ : Localtime)
  refine ⟨fun file hlen => (h.ok file hlen).trans ?_, h.short⟩
  simp only [drop_drop]

-- no proof here looks at the value of an integer of the file
attribute [local irreducible] intOfSize

/-- The four bytes at `k`, as an `int32_t`. -/
def int32At (file : List UInt8) (k : Nat) : Int := intOfSize (beValue ((file.drop k).take 4))

/-- The byte at `k`. -/
def uint8At (file : List UInt8) (k : Nat) : UInt8 := (file.drop k).headD 0

theorem reads_readCounts :
    Reads readCounts 40 fun file => ⟨int32At file 28, int32At file 32, int32At file 36⟩ := by
  have h := (reads_takeBytes 1).bind fun _ => (reads_takeBytes 15).bind fun _ =>
    reads_readInt32.bind fun _ => reads_readInt32.bind fun _ => reads_readInt32.bind fun _ =>
    reads_readInt32.bind fun timecnt => reads_readInt32.bind fun typecnt =>
    reads_readInt32.bind fun charcnt => reads_pure (⟨timecnt, typecnt, charcnt⟩ : Counts)
  refine ⟨fun file hlen => (h.ok file hlen).trans ?_, h.short⟩
  simp only [drop_drop, int32At]

/-! ## the parts of a file -/

def timecnt (file : List UInt8) : Int := int32At file 32

def typecnt (file : List UInt8) : Int := int32At file 36

def charcnt (file : List UInt8) : Int := int32At file 40

/-- The times of the transitions. -/
def transOf (file : List UInt8) : List Int :=
  (List.range (timecnt file).toNat).map fun i => int32At file (44 + 4 * i)

/-- The types of the transitions. -/
def localtimeIndices (file : List UInt8) : List UInt8 :=
  (List.range (timecnt file).toNat).map fun i => uint8At file (44 + 4 * (timecnt file).toNat + i)

/-- The type at `k`. -/
def localtimeAt (file : List UInt8) (k : Nat) : Localtime :=
  ⟨int32At file k, uint8At file (k + 4) ≠ 0, (uint8At file (k + 5)).toNat⟩

def localtimesOf (file : List UInt8) : List Localtime :=
  (List.range (typecnt file).toNat).map fun i =>
    localtimeAt file (44 + 5 * (timecnt file).toNat + 6 * i)

def headOf (file : List UInt8) : Head :=
  ⟨⟨timecnt file, typecnt file, charcnt file⟩, transOf file, localtimeIndices file⟩

@[simp] theorem headOf_trans (file : List UInt8) : (headOf file).trans = transOf file := rfl
@[simp] theorem headOf_localtimes (file : List UInt8) :
    (headOf file).localtimes = localtimeIndices file := rfl
@[simp] theorem headOf_typecnt (file : List UInt8) : (headOf file).typecnt = typecnt file := rfl
@[simp] theorem headOf_charcnt (file : List UInt8) : (headOf file).charcnt = charcnt file := rfl

/-- What is behind the head. -/
def typesOf (file : List UInt8) : List UInt8 := file.drop (44 + 5 * (timecnt file).toNat)

/-- What is behind the types. -/
def namesOf (file : List UInt8) : List UInt8 :=
  file.drop (44 + 5 * (timecnt file).toNat + 6 * (typecnt file).toNat)

/-- The header and the lists of the transitions are there. -/
structure HasHead (file : List UInt8) : Prop where
  head : file.take 4 = tzif
  length : 44 ≤ file.length
  timecnt_nonneg : 0 ≤ timecnt file
  transitions : 44 + 5 * (timecnt file).toNat ≤ file.length

theorem int32At_drop (file : List UInt8) (n k : Nat) :
    int32At (file.drop n) k = int32At file (n + k) := by
  rw [int32At, drop_drop, int32At]

variable {file : List UInt8} {x : Int × UInt8} {data : Data} {e : Option LogicError}

theorem readHead_ok (h : HasHead file) : readHead file = .ok (headOf file, typesOf file) := by
  have hlen := h.length
  have htrans := h.transitions
  have hcounts : 40 ≤ (file.drop 4).length := by rw [length_drop]; omega
  have htimes : (timecnt file).toNat * 4 ≤ (file.drop 44).length := by rw [length_drop]; omega
  have hindices : (timecnt file).toNat * 1 ≤
      (file.drop (44 + (timecnt file).toNat * 4)).length := by rw [length_drop]; omega
  unfold readHead
  rw [(reads_takeBytes 4).ok file (by omega), ok_bind]
  dsimp only
  rw [check_of h.head, ok_bind, reads_readCounts.ok _ hcounts, ok_bind]
  simp only [int32At_drop, drop_drop, Nat.reduceAdd]
  rw [show int32At file 32 = timecnt file from rfl, check_of h.timecnt_nonneg, ok_bind,
    (reads_readInt32.readAll _).ok _ htimes, ok_bind]
  simp only [drop_drop]
  rw [(reads_readUInt8.readAll _).ok _ hindices, ok_bind]
  have hend : 44 + (timecnt file).toNat * 4 + (timecnt file).toNat * 1 =
      44 + 5 * (timecnt file).toNat := by omega
  have htransOf : transOf file =
      (List.range (timecnt file).toNat).map fun i => intOfSize (beValue ((file.drop (44 + i * 4)).take 4)) := by
    simp only [transOf, int32At, Nat.mul_comm 4]
  have hindicesOf : localtimeIndices file = (List.range (timecnt file).toNat).map fun i =>
      (file.drop (44 + (timecnt file).toNat * 4 + i * 1)).headD 0 := by
    simp only [localtimeIndices, uint8At, Nat.mul_comm 4, Nat.mul_one]
  simp only [drop_drop, headOf, typesOf, htransOf, hindicesOf, hend]
  rfl

/-- Without them something is thrown. -/
theorem readHead_error (h : ¬ HasHead file) : ∃ e, readHead file = .error e := by
  unfold readHead
  by_cases h₄ : 4 ≤ file.length
  · rw [(reads_takeBytes 4).ok file h₄, ok_bind]
    dsimp only
    by_cases hhead : file.take 4 = tzif
    · rw [check_of hhead, ok_bind]
      by_cases hcounts : 40 ≤ (file.drop 4).length
      · rw [reads_readCounts.ok _ hcounts, ok_bind]
        simp only [int32At_drop, drop_drop, Nat.reduceAdd]
        rw [length_drop] at hcounts
        rw [show int32At file 32 = timecnt file from rfl]
        by_cases htime : 0 ≤ timecnt file
        · rw [check_of htime, ok_bind]
          by_cases htimes : (timecnt file).toNat * 4 ≤ (file.drop 44).length
          · rw [(reads_readInt32.readAll _).ok _ htimes, ok_bind]
            simp only [drop_drop]
            rw [length_drop] at htimes
            have hshort : (file.drop (44 + (timecnt file).toNat * 4)).length < (timecnt file).toNat * 1 := by
              rw [length_drop]
              by_contra hlong
              exact h ⟨hhead, by omega, htime, by omega⟩
            obtain ⟨e, he⟩ := (reads_readUInt8.readAll _).short _ hshort
            exact ⟨e, by rw [he]; rfl⟩
          · obtain ⟨e, he⟩ := (reads_readInt32.readAll _).short _ (Nat.lt_of_not_le htimes)
            exact ⟨e, by rw [he]; rfl⟩
        · exact ⟨_, by rw [check_of_not htime]; rfl⟩
      · obtain ⟨e, he⟩ := reads_readCounts.short _ (Nat.lt_of_not_le hcounts)
        exact ⟨e, by rw [he]; rfl⟩
    · exact ⟨_, by rw [check_of_not hhead]; rfl⟩
  · obtain ⟨e, he⟩ := (reads_takeBytes 4).short _ (Nat.lt_of_not_le h₄)
    exact ⟨e, by rw [he]; rfl⟩

/-! ## the types -/

theorem readLocaltimes_ok {n k : Nat} (h : k + 6 * n ≤ file.length) :
    readLocaltimes n (file.drop k) =
      ((List.range n).map fun i => localtimeAt file (k + 6 * i), .ok (file.drop (k + 6 * n))) := by
  induction n generalizing k with
  | zero => simp [readLocaltimes]
  | succ n ih =>
    have hlen : 6 ≤ (file.drop k).length := by rw [length_drop]; omega
    rw [readLocaltimes, reads_readLocaltime.ok _ hlen]
    simp only [drop_drop]
    rw [ih (show k + 6 + 6 * n ≤ file.length by omega), range_succ_eq_map, map_cons,
      map_map]
    simp only [Prod.mk.injEq, List.cons.injEq]
    refine ⟨⟨?_, ?_⟩, by congr 2; omega⟩
    · simp [localtimeAt, int32At, uint8At]
    · refine map_congr_left fun i _ => ?_
      rw [Function.comp_apply]
      congr 1
      omega

theorem readLocaltimes_error {n : Nat} (h : file.length < 6 * n) :
    ∃ e, (readLocaltimes n file).2 = .error e := by
  induction n generalizing file with
  | zero => omega
  | succ n ih =>
    rw [readLocaltimes]
    by_cases hlen : 6 ≤ file.length
    · rw [reads_readLocaltime.ok _ hlen]
      exact ih (by rw [length_drop]; omega)
    · obtain ⟨e, he⟩ := reads_readLocaltime.short _ (Nat.lt_of_not_le hlen)
      exact ⟨e, by rw [he]⟩

theorem makeTransition_ok {localtimes : List Localtime} (h : x.2.toNat < localtimes.length) :
    ∃ t, makeTransition localtimes x = .ok t ∧ t.localtimeIdx = x.2.toNat := by
  have hget : localtimes[((x.2.toNat : Nat) : Int).toNat]? = some (localtimes.get ⟨x.2.toNat, h⟩) := by
    rw [Int.toNat_natCast]
    exact List.getElem?_eq_getElem h
  refine ⟨⟨x.1, x.1 + (localtimes.get ⟨x.2.toNat, h⟩).gmtOffset, x.2.toNat⟩, ?_, rfl⟩
  rw [makeTransition, element, hget]
  rfl

theorem makeTransition_error {localtimes : List Localtime}
    (h : localtimes.length ≤ x.2.toNat) : makeTransition localtimes x = .error .access := by
  have hget : localtimes[((x.2.toNat : Nat) : Int).toNat]? = none := by
    rw [Int.toNat_natCast]
    exact List.getElem?_eq_none h
  rw [makeTransition, element, hget]
  rfl

variable {xs : List (Int × UInt8)}

theorem mapM_makeTransition_ok {localtimes : List Localtime}
    (h : ∀ x ∈ xs, x.2.toNat < localtimes.length) :
    ∃ ts, xs.mapM (makeTransition localtimes) = .ok ts ∧
      ∀ t ∈ ts, 0 ≤ t.localtimeIdx ∧ t.localtimeIdx < localtimes.length := by
  induction xs with
  | nil => exact ⟨[], rfl, by simp⟩
  | cons x xs ih =>
    obtain ⟨ts, hts, hall⟩ := ih fun y hy => h y (mem_cons_of_mem _ hy)
    have hx := h x mem_cons_self
    obtain ⟨t, ht, hidx⟩ := makeTransition_ok hx
    refine ⟨t :: ts, ?_, forall_mem_cons.2 ⟨by omega, hall⟩⟩
    rw [mapM_cons, ht, ok_bind, hts, ok_bind]
    rfl

theorem mapM_makeTransition_error {localtimes : List Localtime}
    (hx : x ∈ xs) (h : localtimes.length ≤ x.2.toNat) :
    xs.mapM (makeTransition localtimes) = .error .access := by
  induction xs with
  | nil => simp at hx
  | cons y xs ih =>
    rw [mapM_cons]
    by_cases hy : y.2.toNat < localtimes.length
    · have hne : x ≠ y := by rintro rfl; omega
      obtain ⟨t, ht, -⟩ := makeTransition_ok hy
      rw [ht, ok_bind, ih ((mem_cons.1 hx).resolve_left hne)]
      rfl
    · rw [makeTransition_error (by omega)]
      rfl

/-! ## usable zones -/

/-- The indices are in range. -/
structure Usable (data : Data) : Prop where
  localtimes : data.localtimes ≠ []
  localtimeIdx : ∀ x ∈ data.transitions, 0 ≤ x.localtimeIdx ∧ x.localtimeIdx < data.localtimes.length
  arrbIdx : ∀ l ∈ data.localtimes, 0 ≤ l.arrbIdx ∧ l.arrbIdx < data.abbreviation.length

/-- No time makes the code access anything outside of its data. -/
structure Safe (tz : TimeZone) : Prop where
  toLocalTime : ∀ libc t, ∃ u, tz.toLocalTime libc t = .ok u
  fromLocalTime : ∀ libc u, ∃ t, tz.fromLocalTime libc u = .ok t

theorem exists_element {v : List α} {i : Int} (h₁ : 0 ≤ i) (h₂ : i < v.length) :
    ∃ x ∈ v, element v i = .ok x := by
  have hget : v[i.toNat]? = some (v.get ⟨i.toNat, by omega⟩) := List.getElem?_eq_getElem (by omega)
  refine ⟨_, mem_of_getElem? hget, ?_⟩
  rw [element, hget]
  exact if_pos h₁

/-- The search finds a local time, in whatever order the transitions are. -/
theorem Usable.findLocaltime (h : Usable data) (sentry : Transition)
    (compareGmt : Bool) : ∃ l ∈ data.localtimes, findLocaltime data sentry compareGmt = .ok l := by
  have hfirst : ∃ l ∈ data.localtimes, element data.localtimes 0 = .ok l :=
    exists_element (Int.le_refl 0) (by have := length_pos_of_ne_nil h.localtimes; omega)
  have hfound : ∀ x ∈ data.transitions, ∃ l ∈ data.localtimes,
      element data.localtimes x.localtimeIdx = .ok l := fun x hx =>
    exists_element (h.localtimeIdx x hx).1 (h.localtimeIdx x hx).2
  have hbetween := between_lowerBound
    (fun x : Transition => decide (x.key compareGmt < sentry.key compareGmt)) data.transitions
  unfold TimeZone.findLocaltime
  dsimp only
  split
  · exact hfirst
  · next front rest ht =>
    split_ifs with hlt
    · exact hfirst
    · generalize lowerBound (fun x : Transition => decide (x.key compareGmt < sentry.key compareGmt))
        data.transitions = n at hbetween ⊢
      cases hx : data.transitions[n]? with
      | some x =>
        dsimp only
        split_ifs with heq
        · exact hfound x (mem_of_getElem? hx)
        · -- the front is neither later than the sentry, nor earlier
          have hne : n ≠ 0 := by
            rintro rfl
            have hhigh := hbetween.high (by rw [ht]; simp)
            rw [hx, Option.any_some, decide_eq_false_iff_not] at hhigh
            rw [ht, List.getElem?_cons_zero, Option.some.injEq] at hx
            subst hx
            omega
          have hlen := (List.getElem?_eq_some_iff.1 hx).1
          obtain ⟨y, hy, hget⟩ := exists_element (v := data.transitions) (i := (n - 1 : Nat))
            (by omega) (by omega)
          rw [check_of hne, ok_bind, hget, ok_bind]
          exact hfound y hy
      | none =>
        have hpos : 0 < data.transitions.length := by rw [ht]; simp
        obtain ⟨y, hy, hget⟩ := exists_element (v := data.transitions)
          (i := (data.transitions.length - 1 : Nat)) (by omega) (by omega)
        dsimp only
        rw [hget, ok_bind]
        exact hfound y hy

theorem Usable.toLocalTime (h : Usable data) (libc : Libc) (t : Int) :
    ∃ u, TimeZone.toLocalTime libc ⟨some data⟩ t = .ok u := by
  obtain ⟨l, hl, hfind⟩ := h.findLocaltime ⟨t, 0, 0⟩ true
  obtain ⟨h₁, h₂⟩ := h.arrbIdx l hl
  unfold TimeZone.toLocalTime cString
  dsimp only
  rw [hfind, ok_bind, check_of ⟨h₁, by omega⟩]
  exact ⟨_, rfl⟩

theorem Usable.safe (h : Usable data) : Safe ⟨some data⟩ where
  toLocalTime := h.toLocalTime
  fromLocalTime libc u := by
    obtain ⟨l, -, hfind⟩ := h.findLocaltime ⟨0, libc.timegm u.toBrokenTime, 0⟩ false
    obtain ⟨v, hv⟩ := h.toLocalTime libc (libc.timegm u.toBrokenTime - l.gmtOffset)
    unfold TimeZone.fromLocalTime
    dsimp only
    rw [hfind, ok_bind]
    split_ifs
    · rw [hv, ok_bind]
      split_ifs
      · exact ⟨_, rfl⟩
      · exact ⟨_, rfl⟩
    · exact ⟨_, rfl⟩

/-! ## files -/

/-- The file is there and complete, it has a type, and its indices are in range. -/
structure WellFormed (file : List UInt8) : Prop where
  head : file.take 4 = tzif
  timecnt_nonneg : 0 ≤ timecnt file
  typecnt_pos : 0 < typecnt file
  charcnt_nonneg : 0 ≤ charcnt file
  complete : 44 + 5 * timecnt file + 6 * typecnt file + charcnt file ≤ file.length
  localtimeIdx : ∀ x ∈ localtimeIndices file, (x.toNat : Int) < typecnt file
  arrbIdx : ∀ l ∈ localtimesOf file, l.arrbIdx < charcnt file

theorem WellFormed.hasHead (h : WellFormed file) : HasHead file := by
  have htime := h.timecnt_nonneg
  have htype := h.typecnt_pos
  have hchar := h.charcnt_nonneg
  have hcomplete := h.complete
  exact ⟨h.head, by omega, htime, by omega⟩

theorem length_localtimesOf (file : List UInt8) : (localtimesOf file).length = (typecnt file).toNat := by
  rw [localtimesOf, length_map, length_range]

theorem arrbIdx_nonneg {l : Localtime} (hl : l ∈ localtimesOf file) : 0 ≤ l.arrbIdx := by
  obtain ⟨i, -, rfl⟩ := mem_map.1 hl
  exact Int.natCast_nonneg _

theorem mem_zip_indices
    (hx : x ∈ (transOf file).zip (localtimeIndices file)) : x.2 ∈ localtimeIndices file :=
  (of_mem_zip hx).2

theorem exists_mem_zip {x : UInt8} (hx : x ∈ localtimeIndices file) :
    ∃ t, (t, x) ∈ (transOf file).zip (localtimeIndices file) := by
  have hlen : (localtimeIndices file).length ≤ (transOf file).length := by
    simp [localtimeIndices, transOf]
  rw [← map_snd_zip hlen] at hx
  obtain ⟨⟨t, y⟩, hmem, rfl⟩ := mem_map.1 hx
  exact ⟨t, hmem⟩

theorem readTimeZoneFile_eq {file rest names : List UInt8} {head : Head} {localtimes : List Localtime}
    (hhead : readHead file = .ok (head, rest))
    (htypes : readLocaltimes head.typecnt.toNat rest = (localtimes, .ok names)) :
    readTimeZoneFile (some file) = readNames head localtimes names := by
  unfold readTimeZoneFile
  simp only [hhead, htypes]

theorem readTimeZoneFile_of_types (h : HasHead file)
    (htypes : 44 + 5 * (timecnt file).toNat + 6 * (typecnt file).toNat ≤ file.length) :
    readTimeZoneFile (some file) = readNames (headOf file) (localtimesOf file) (namesOf file) := by
  apply readTimeZoneFile_eq (readHead_ok h)
  rw [headOf_typecnt, typesOf, localtimesOf, namesOf]
  exact readLocaltimes_ok htypes

/-- Without its types no name is read. -/
theorem abbreviation_of_types {file rest : List UInt8} {head : Head} {e' : LogicError}
    (hread : readTimeZoneFile (some file) = .ok (data, e))
    (hhead : readHead file = .ok (head, rest))
    (htypes : (readLocaltimes head.typecnt.toNat rest).2 = .error e') : data.abbreviation = [] := by
  unfold readTimeZoneFile at hread
  rcases hlocal : readLocaltimes head.typecnt.toNat rest with ⟨localtimes, names⟩
  rw [hlocal] at htypes
  subst htypes
  simp only [hhead, hlocal] at hread
  obtain rfl : _ = data := congrArg Prod.fst (Except.ok.inj hread)
  rfl

section
variable {head : Head} {localtimes : List Localtime} {names : List UInt8}

theorem readNames_ok (hidx : ∀ x ∈ head.trans.zip head.localtimes, x.2.toNat < localtimes.length)
    (hchar : 0 ≤ head.charcnt) (hnames : head.charcnt.toNat ≤ names.length) :
    ∃ ts, readNames head localtimes names = .ok (⟨ts, localtimes, names.take head.charcnt.toNat⟩, none) ∧
      ∀ t ∈ ts, 0 ≤ t.localtimeIdx ∧ t.localtimeIdx < localtimes.length := by
  obtain ⟨ts, hts, hall⟩ := mapM_makeTransition_ok hidx
  refine ⟨ts, ?_, hall⟩
  rw [readNames, hts, ok_bind, check_of hchar, ok_bind, (reads_takeBytes _).ok _ hnames]
  rfl

/-- A zone without names is not usable. -/
theorem not_usable_of_abbreviation (h : data.abbreviation = []) : ¬ Usable data := by
  intro husable
  obtain ⟨l, hl⟩ := exists_mem_of_ne_nil _ husable.localtimes
  have := husable.arrbIdx l hl
  rw [h, length_nil] at this
  omega

theorem readNames_inv (hread : readNames head localtimes names = .ok (data, e))
    (husable : Usable data) :
    (∀ x ∈ head.trans.zip head.localtimes, x.2.toNat < localtimes.length) ∧ 0 ≤ head.charcnt ∧
      head.charcnt.toNat ≤ names.length ∧ data.localtimes = localtimes ∧
      data.abbreviation = names.take head.charcnt.toNat := by
  have hidx : ∀ x ∈ head.trans.zip head.localtimes, x.2.toNat < localtimes.length := by
    intro x hx
    by_contra hlt
    rw [readNames, mapM_makeTransition_error hx (by omega)] at hread
    contradiction
  obtain ⟨ts, hts, -⟩ := mapM_makeTransition_ok hidx
  rw [readNames, hts, ok_bind] at hread
  by_cases hchar : 0 ≤ head.charcnt
  · rw [check_of hchar, ok_bind] at hread
    by_cases hnames : head.charcnt.toNat ≤ names.length
    · rw [(reads_takeBytes _).ok _ hnames] at hread
      obtain rfl : _ = data := congrArg Prod.fst (Except.ok.inj hread)
      exact ⟨hidx, hchar, hnames, rfl, rfl⟩
    · obtain ⟨e', he'⟩ := (reads_takeBytes _).short _ (Nat.lt_of_not_le hnames)
      rw [he'] at hread
      obtain rfl : _ = data := congrArg Prod.fst (Except.ok.inj hread)
      exact absurd husable (not_usable_of_abbreviation rfl)
  · rw [check_of_not hchar] at hread
    contradiction

end

/-- **A complete file** makes a zone that can be used. -/
theorem WellFormed.usable (h : WellFormed file) :
    ∃ data, readTimeZoneFile (some file) = .ok (data, none) ∧ Usable data := by
  have htime := h.timecnt_nonneg
  have htype := h.typecnt_pos
  have hchar := h.charcnt_nonneg
  have hcomplete := h.complete
  have hlen := length_localtimesOf file
  have hnames : (charcnt file).toNat ≤ (namesOf file).length := by
    rw [namesOf, length_drop]
    omega
  have hindices : ∀ x ∈ (headOf file).trans.zip (headOf file).localtimes,
      x.2.toNat < (localtimesOf file).length := by
    intro x hx
    rw [headOf_trans, headOf_localtimes] at hx
    have := h.localtimeIdx x.2 (mem_zip_indices hx)
    omega
  have htypes : 44 + 5 * (timecnt file).toNat + 6 * (typecnt file).toNat ≤ file.length := by omega
  obtain ⟨ts, hread, hidx⟩ := readNames_ok hindices hchar hnames
  rw [← readTimeZoneFile_of_types h.hasHead htypes] at hread
  have hne : localtimesOf file ≠ [] := ne_nil_of_length_pos (by omega)
  refine ⟨_, hread, hne, hidx, fun l hl => ⟨arrbIdx_nonneg hl, ?_⟩⟩
  rw [length_take, headOf_charcnt, Nat.min_eq_left hnames, Int.toNat_of_nonneg hchar]
  exact h.arrbIdx l hl

/-- A zone that can be used is the one of a complete file. -/
theorem wellFormed_of_usable (hread : readTimeZoneFile (some file) = .ok (data, e))
    (husable : Usable data) : WellFormed file := by
  by_cases hhead : HasHead file
  · by_cases htypes : 44 + 5 * (timecnt file).toNat + 6 * (typecnt file).toNat ≤ file.length
    · rw [readTimeZoneFile_of_types hhead htypes] at hread
      obtain ⟨hidx, hchar, hnames, hlocaltimes, habbreviation⟩ := readNames_inv hread husable
      rw [headOf_charcnt] at hchar hnames habbreviation
      rw [headOf_trans, headOf_localtimes] at hidx
      have hlen := length_localtimesOf file
      have hpos := length_pos_of_ne_nil husable.localtimes
      have htime := hhead.timecnt_nonneg
      have hcomplete := hnames
      rw [namesOf, length_drop] at hcomplete
      rw [hlocaltimes] at hpos
      refine ⟨hhead.head, htime, by omega, hchar, by omega, fun x hx => ?_, fun l hl => ?_⟩
      · obtain ⟨t, ht⟩ := exists_mem_zip hx
        have hlt : x.toNat < (localtimesOf file).length := hidx _ ht
        rw [hlen] at hlt
        exact Int.lt_toNat.1 hlt
      · have hlt := (husable.arrbIdx l (hlocaltimes ▸ hl)).2
        rw [habbreviation, length_take, Nat.min_eq_left hnames, Int.toNat_of_nonneg hchar] at hlt
        exact hlt
    · have hshort : (typesOf file).length < 6 * (typecnt file).toNat := by
        rw [typesOf, length_drop]
        have := hhead.transitions
        omega
      obtain ⟨e', he'⟩ := readLocaltimes_error hshort
      exact absurd husable (not_usable_of_abbreviation (abbreviation_of_types hread (readHead_ok hhead) he'))
  · obtain ⟨e', he'⟩ := readHead_error hhead
    rw [readTimeZoneFile, he'] at hread
    obtain rfl : _ = data := congrArg Prod.fst (Except.ok.inj hread)
    exact absurd husable (not_usable_of_abbreviation rfl)

/-- A zone of a file is invalid, or nothing is accessed outside of its data. -/
def LoadsUsable (file : Option (List UInt8)) : Prop :=
  ∃ tz, ofFile file = .ok tz ∧
    (tz.valid = false ∨ ∃ data, tz.data = some data ∧ Usable data ∧ Safe tz)

/-- **The zone of a file** is usable exactly if the file is there and complete, and its indices
are in range.  The zone is valid in any case. -/
theorem usable_iff_wellFormed (file : Option (List UInt8)) :
    LoadsUsable file ↔ ∃ bytes, file = some bytes ∧ WellFormed bytes := by
  constructor
  · rintro ⟨tz, hload, hvalid⟩
    rw [ofFile] at hload
    cases hread : readTimeZoneFile file with
    | error f => rw [hread] at hload; contradiction
    | ok r =>
      rw [hread, ok_bind] at hload
      obtain rfl : _ = tz := Except.ok.inj hload
      obtain hinvalid | ⟨data, hdata, husable, -⟩ := hvalid
      · contradiction
      · obtain rfl : r.1 = data := Option.some.inj hdata
        cases file with
        | none =>
          obtain rfl : _ = r := Except.ok.inj hread
          exact absurd husable (not_usable_of_abbreviation rfl)
        | some bytes => exact ⟨bytes, rfl, wellFormed_of_usable hread husable⟩
  · rintro ⟨bytes, rfl, hfile⟩
    obtain ⟨data, hread, husable⟩ := hfile.usable
    refine ⟨⟨some data⟩, ?_, .inr ⟨data, rfl, husable, husable.safe⟩⟩
    rw [ofFile, hread, ok_bind]
    rfl

/-- The zone of a missing file is valid, and every conversion is an access outside of its
vectors. -/
theorem missing_file_valid : ∃ tz, ofFile none = .ok tz ∧ tz.valid = true ∧
    (∀ data, tz.data = some data → ¬ Usable data) ∧
    (∀ libc t, tz.toLocalTime libc t = .error .access) ∧
    ∀ libc u, tz.fromLocalTime libc u = .error .access :=
  ⟨⟨some .empty⟩, rfl, rfl, fun _ hdata => Option.some.inj hdata ▸ not_usable_of_abbreviation rfl,
    fun _ _ => rfl, fun _ _ => rfl⟩

end Muduo.TimeZone
