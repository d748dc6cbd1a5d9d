import Muduo.Topk.SegmentInput

/-!
# Muduo.Topk.TextInput

The reader of a count file: `TextInput` of `recipes/topk/merge.h`.

A refill finds all lines that are complete in the buffer, and the count of each; `next()`
returns them one by one.  `strtol` is given the beginning of the line and not its end: on a
line of white space it goes on to the next line.
-/

namespace Muduo.Topk

open Lib List

structure Record where
  count : Int
  offset : Nat
  len : Nat
deriving DecidableEq, Repr

structure TextInput where
  file : List UInt8
  pos : Nat
  index : Nat
  data : List UInt8
  records : List Record
  line : List UInt8
deriving DecidableEq, Repr

namespace TextInput

/-- The loop of `refill()`: the records that it finds from `start` on, and where it stops. -/
def refillLoop (data : List UInt8) : Nat → Nat → Nat → Except Fault (List Record × Nat)
  | 0, _, _ => .error .diverges
  | fuel + 1, start, len =>
    match memchr (slice data start (start + len)) newline with
    | some nl => do
      let count ← strtolAt (data.drop start)
      let (records, stop) ← refillLoop data fuel (start + (nl + 1)) (len - (nl + 1))
      return (⟨count, start, nl + 1⟩ :: records, stop)
    | none => .ok ([], start)

def refill (s : TextInput) : Except Fault TextInput :=
  let bytes := (s.file.drop s.pos).take s.data.length
  let data := overwrite s.data 0 bytes
  if 0 < bytes.length then do
    let (records, stop) ← refillLoop data (bytes.length + 1) 0 bytes.length
    return { s with data, records, pos := s.pos + stop }
  else .ok { s with data, records := [] }

/-- The reader of a file, with the buffer `data`. -/
def create (file data : List UInt8) : Except Fault TextInput :=
  refill { file, pos := 0, index := 0, data, records := [], line := [] }

/-- `next()`, with at most `depth` calls of itself.  It returns the count. -/
def nextLoop : Nat → TextInput → Except Fault (Option Int × TextInput)
  | 0, _ => .error .diverges
  | depth + 1, s =>
    if s.records = [] then .ok (none, s)
    else match s.records[s.index]? with
      | some rec =>
        let line := slice s.data rec.offset (rec.offset + rec.len)
        .ok (some rec.count, { s with line, index := s.index + 1 })
      | none => do
        let s ← s.refill
        nextLoop depth { s with index := 0 }

/-- `next()`.  It calls itself after a refill only. -/
def next (s : TextInput) : Except Fault (Option Int × TextInput) := nextLoop 2 s

/-- The results of `n` calls: the count and the line, or nothing when `next()` returns false. -/
def calls : Nat → TextInput → Except Fault (List (Option (Int × List UInt8)))
  | 0, _ => .ok []
  | n + 1, s => do
    let (count, s) ← s.next
    let rest ← calls n s
    return count.map (·, s.line) :: rest

end TextInput

/-- A line of a count file. -/
structure TextLine where
  body : List UInt8
  body_newline : newline ∉ body

namespace TextLine

variable (l : TextLine)

def encode : List UInt8 := l.body ++ [newline]

/-- The line has more than white space. -/
def Nonblank : Prop := ∃ c ∈ l.body, Lib.isSpace c = false

instance (l : TextLine) : Decidable l.Nonblank :=
  inferInstanceAs (Decidable (∃ c ∈ l.body, Lib.isSpace c = false))

/-- The number at the beginning of the line. -/
def count : Int := (strtol l.encode).getD 0

theorem strtol_encode (h : l.Nonblank) : strtol l.encode = some l.count := by
  obtain ⟨c, hc, hspace⟩ := h
  have hsome : (strtol l.encode).isSome := strtol_isSome hc hspace rfl
  rw [count, ← Option.some_get hsome, Option.getD_some]

theorem length_encode : l.encode.length = l.body.length + 1 := by
  rw [encode, length_append, length_singleton]

theorem length_encode_pos : 0 < l.encode.length := by
  simp [encode]

end TextLine

/-! ## `refill()` -/

namespace TextInput

/-- The records of lines that are at `start` in the buffer. -/
def recordsOf : Nat → List TextLine → List Record
  | _, [] => []
  | start, l :: lines =>
    ⟨l.count, start, l.encode.length⟩ :: recordsOf (start + l.encode.length) lines

/-- The lines that are complete in the buffer, and those that are not. -/
structure Splits (bytes : List UInt8) (lines ready later : List TextLine) : Prop where
  eq : lines = ready ++ later
  complete : ready.flatMap TextLine.encode <+: bytes
  incomplete : ∀ l, later.head? = some l →
    bytes.length < (ready.flatMap TextLine.encode).length + l.encode.length

section
variable {lines ready later : List TextLine} {l : TextLine} {data bytes : List UInt8}

theorem Splits.of_lt (h : bytes.length < l.encode.length) :
    Splits bytes (l :: lines) [] (l :: lines) := by
  refine ⟨rfl, nil_prefix, fun l' hl' => ?_⟩
  obtain rfl := Option.some.inj hl'
  simpa using h

theorem Splits.cons (h : Splits bytes lines ready later) (l : TextLine) :
    Splits (l.encode ++ bytes) (l :: lines) (l :: ready) later where
  eq := by rw [h.eq, cons_append]
  complete := by
    rw [flatMap_cons, prefix_append_right_inj]
    exact h.complete
  incomplete l' hl' := by
    have hlt := h.incomplete l' hl'
    rw [flatMap_cons, length_append, length_append]
    omega

/-- **The loop of `refill()`** finds the lines that are complete. -/
theorem refillLoop_spec {fuel start len : Nat} (hfuel : len < fuel)
    (hbytes : slice data start (start + len) = bytes) (hbound : start + len ≤ data.length)
    (hbegins : bytes <+: lines.flatMap TextLine.encode) (hnonblank : ∀ l ∈ lines, l.Nonblank) :
    ∃ ready later, refillLoop data fuel start len =
        .ok (recordsOf start ready, start + (ready.flatMap TextLine.encode).length) ∧
      Splits bytes lines ready later := by
  induction fuel generalizing start len bytes lines with
  | zero => omega
  | succ fuel ih =>
    have hlen : bytes.length = len := by
      rw [← hbytes, length_slice hbound, Nat.add_sub_cancel_left]
    rw [refillLoop, hbytes]
    cases lines with
    | nil =>
      obtain rfl := prefix_nil.mp hbegins
      exact ⟨[], [], rfl, rfl, nil_prefix, nofun⟩
    | cons l lines =>
      obtain ⟨hnl, hlt⟩ | ⟨rest, rfl, hrest, hnl⟩ := memchr_line l.encode l.body_newline rfl hbegins
      · rw [hnl]
        exact ⟨[], l :: lines, rfl, .of_lt hlt⟩
      · have hcount : strtolAt (data.drop start) = .ok l.count := by
          rw [drop_eq_slice_append _ _ len, hbytes, append_assoc,
            strtolAt_eq (l.strtol_encode (hnonblank l mem_cons_self))]
        rw [length_append] at hlen
        have hslice : slice data (start + l.encode.length)
            (start + l.encode.length + (len - l.encode.length)) = rest := by
          have hend : start + l.encode.length + (len - l.encode.length) = start + len := by
            omega
          rw [hend, slice_drop, hbytes, drop_left]
        have hpos := l.length_encode_pos
        obtain ⟨ready, later, hloop, hsplits⟩ := ih (by omega) hslice (by omega) hrest
          fun l' hl' => hnonblank l' (mem_cons_of_mem l hl')
        refine ⟨l :: ready, later, ?_, hsplits.cons l⟩
        rw [hnl]
        simp only [hcount, ok_bind, ← l.length_encode, hloop, flatMap_cons, length_append,
          recordsOf, Nat.add_assoc]
        rfl

end

@[simp] theorem length_recordsOf (start : Nat) (lines : List TextLine) :
    (recordsOf start lines).length = lines.length := by
  induction lines generalizing start with
  | nil => rfl
  | cons l lines ih => rw [recordsOf, length_cons, ih, length_cons]

theorem recordsOf_append (start : Nat) (ls ls' : List TextLine) :
    recordsOf start (ls ++ ls') = recordsOf start ls ++
      recordsOf (start + (ls.flatMap TextLine.encode).length) ls' := by
  induction ls generalizing start with
  | nil => simp [recordsOf]
  | cons l ls ih =>
    rw [cons_append, recordsOf, recordsOf, ih, cons_append, flatMap_cons,
      length_append, Nat.add_assoc]

/-- Of the lines in the buffer `done` have been returned and `ready` have not; `later` is the
rest of the file. -/
structure Holds (s : TextInput) (done ready later : List TextLine) : Prop where
  file : s.file.drop s.pos = later.flatMap TextLine.encode
  records : s.records = recordsOf 0 (done ++ ready)
  index : s.index = done.length
  data : (done ++ ready).flatMap TextLine.encode <+: s.data
  fits : ∀ l ∈ later, l.encode.length ≤ s.data.length
  nonblank : ∀ l ∈ later, l.Nonblank
  filled : later ≠ [] → done ++ ready ≠ []

/-- `lines` are still to be returned. -/
def Pending (s : TextInput) (lines : List TextLine) : Prop :=
  ∃ done ready later, lines = ready ++ later ∧ s.Holds done ready later

section
variable {s : TextInput} {l : TextLine} {lines done ready later : List TextLine}

/-- The reader after a refill that has read `bytes` and found `ready`. -/
def filled (s : TextInput) (bytes : List UInt8) (ready : List TextLine) : TextInput :=
  { s with
    data := overwrite s.data 0 bytes
    records := recordsOf 0 ready
    pos := s.pos + (ready.flatMap TextLine.encode).length }

theorem refill_eq {bytes : List UInt8} (hbytes : (s.file.drop s.pos).take s.data.length = bytes)
    (hbegins : bytes <+: lines.flatMap TextLine.encode) (hnonblank : ∀ l ∈ lines, l.Nonblank) :
    ∃ ready later, s.refill = .ok (s.filled bytes ready) ∧ Splits bytes lines ready later := by
  have hlen : bytes.length ≤ s.data.length := by
    rw [← hbytes, length_take]
    omega
  rw [refill, hbytes]
  by_cases hpos : 0 < bytes.length
  · obtain ⟨ready, later, hloop, hsplits⟩ :=
      refillLoop_spec (Nat.lt_succ_self _) (slice_overwrite_self (Nat.zero_le s.data.length))
        (by rw [length_overwrite (by omega)]; omega) hbegins hnonblank
    refine ⟨ready, later, ?_, hsplits⟩
    simp only [if_pos hpos, hloop, ok_bind, Nat.zero_add]
    rfl
  · obtain rfl := length_eq_zero_iff.mp (Nat.eq_zero_of_not_pos hpos)
    refine ⟨[], lines, rfl, rfl, nil_prefix, fun l _ => ?_⟩
    simpa using l.length_encode_pos

/-- **`refill()`** brings the next lines into the buffer. -/
theorem refill_spec (hfile : s.file.drop s.pos = lines.flatMap TextLine.encode)
    (hfits : ∀ l ∈ lines, l.encode.length ≤ s.data.length) (hnonblank : ∀ l ∈ lines, l.Nonblank) :
    ∃ s' ready later, s.refill = .ok s' ∧ s'.index = s.index ∧ lines = ready ++ later ∧
      Holds { s' with index := 0 } [] ready later := by
  have hbegins : (s.file.drop s.pos).take s.data.length <+: lines.flatMap TextLine.encode := by
    rw [hfile]
    exact take_prefix _ _
  obtain ⟨ready, later, hrefill, hsplits⟩ := refill_eq rfl hbegins hnonblank
  have hlen := length_take (i := s.data.length) (l := s.file.drop s.pos)
  have hmem (l) (hl : l ∈ later) : l ∈ lines := by
    rw [hsplits.eq]
    exact mem_append_right _ hl
  refine ⟨_, ready, later, hrefill, rfl, hsplits.eq, ?_, rfl, rfl, ?_, fun l hl => ?_,
    fun l hl => hnonblank l (hmem l hl), fun hlater hnil => ?_⟩
  · change s.file.drop (s.pos + (ready.flatMap TextLine.encode).length) = _
    rw [← drop_drop, hfile, hsplits.eq, flatMap_append, drop_left]
  · change ready.flatMap TextLine.encode <+: overwrite s.data 0 _
    refine hsplits.complete.trans ?_
    rw [overwrite, take_zero, nil_append]
    exact prefix_append _ _
  · change l.encode.length ≤ (overwrite s.data 0 _).length
    rw [length_overwrite (by omega)]
    exact hfits l (hmem l hl)
  · -- the first line fits
    obtain ⟨l, rest, rfl⟩ := exists_cons_of_ne_nil hlater
    have hlt := hsplits.incomplete l rfl
    have hle := hfits l (hmem l mem_cons_self)
    obtain rfl : ready = [] := hnil
    rw [hlen, hfile, hsplits.eq, nil_append, flatMap_cons, length_append] at hlt
    simp only [flatMap_nil, length_nil] at hlt
    omega

/-! ## `next()` -/

theorem Holds.nextLoop_ready (h : s.Holds done (l :: ready) later) (depth : Nat) :
    ∃ s', nextLoop (depth + 1) s = .ok (some l.count, s') ∧ s'.Holds (done ++ [l]) ready later ∧
      s'.line = l.encode := by
  have hrecord : s.records[s.index]? =
      some ⟨l.count, (done.flatMap TextLine.encode).length, l.encode.length⟩ := by
    rw [h.records, h.index, recordsOf_append, List.getElem?_append_right (by simp), recordsOf]
    simp
  have hne : s.records ≠ [] := by
    intro hnil
    rw [hnil] at hrecord
    cases hrecord
  have hline : slice s.data (done.flatMap TextLine.encode).length
      ((done.flatMap TextLine.encode).length + l.encode.length) = l.encode := by
    obtain ⟨rest, hrest⟩ := h.data
    rw [← hrest, slice, Nat.add_sub_cancel_left, flatMap_append, flatMap_cons]
    simp
  have hnext : nextLoop (depth + 1) s =
      .ok (some l.count, { s with line := l.encode, index := s.index + 1 }) := by
    rw [nextLoop, if_neg hne, hrecord]
    dsimp only
    rw [hline]
  refine ⟨_, hnext, ⟨h.file, ?_, ?_, ?_, h.fits, h.nonblank, ?_⟩, rfl⟩
  · rw [append_assoc]
    exact h.records
  · change s.index + 1 = _
    rw [h.index, length_append, length_singleton]
  · rw [append_assoc]
    exact h.data
  · simp

theorem Holds.refill_next (h : s.Holds done [] later) (hne : done ≠ []) :
    ∃ s' ready later', nextLoop 2 s = nextLoop 1 s' ∧ later = ready ++ later' ∧
      s'.Holds [] ready later' := by
  obtain ⟨s', ready, later', hrefill, -, heq, hholds⟩ := refill_spec h.file h.fits h.nonblank
  refine ⟨_, ready, later', ?_, heq, hholds⟩
  have hrecords := h.records
  rw [append_nil] at hrecords
  have hindex : s.records[s.index]? = none := by
    rw [hrecords, h.index]
    simp
  have hnil : s.records ≠ [] := by
    intro hnil
    rw [hrecords] at hnil
    have hlen := length_recordsOf 0 done
    rw [hnil] at hlen
    exact hne (length_eq_zero_iff.mp hlen.symm)
  rw [nextLoop, if_neg hnil, hindex]
  dsimp only
  rw [hrefill, ok_bind]

theorem Pending.next_cons (h : s.Pending (l :: lines)) :
    ∃ s', s.next = .ok (some l.count, s') ∧ s'.Pending lines ∧ s'.line = l.encode := by
  obtain ⟨done, ready, later, heq, hholds⟩ := h
  cases ready with
  | cons l' ready =>
    obtain ⟨rfl, rfl⟩ := List.cons.inj heq
    obtain ⟨s', hnext, hholds', hline⟩ := hholds.nextLoop_ready 1
    exact ⟨s', hnext, ⟨_, _, _, rfl, hholds'⟩, hline⟩
  | nil =>
    rw [nil_append] at heq
    subst heq
    have hdone : done ≠ [] := by
      have hfilled := hholds.filled (cons_ne_nil l lines)
      rwa [append_nil] at hfilled
    obtain ⟨s₁, ready, later, hrefill, heq, hholds₁⟩ := hholds.refill_next hdone
    cases ready with
    | nil =>
      rw [nil_append] at heq
      exact absurd rfl (hholds₁.filled (heq ▸ cons_ne_nil l lines))
    | cons l' ready =>
      obtain ⟨rfl, rfl⟩ := List.cons.inj heq
      obtain ⟨s', hnext, hholds', hline⟩ := hholds₁.nextLoop_ready 0
      exact ⟨s', hrefill.trans hnext, ⟨_, _, _, rfl, hholds'⟩, hline⟩

theorem Holds.nextLoop_empty (h : s.Holds [] [] later) (depth : Nat) :
    nextLoop (depth + 1) s = .ok (none, s) := by
  have hnil : s.records = [] := h.records
  rw [nextLoop, if_pos hnil]

/-- **`next()` returns false** behind the last line. -/
theorem Pending.next_nil (h : s.Pending []) : ∃ s', s.next = .ok (none, s') ∧ s'.Pending [] := by
  obtain ⟨done, ready, later, heq, hholds⟩ := h
  obtain ⟨rfl, rfl⟩ := append_eq_nil_iff.mp heq.symm
  by_cases hdone : done = []
  · subst hdone
    exact ⟨s, hholds.nextLoop_empty 1, [], [], [], rfl, hholds⟩
  · obtain ⟨s₁, ready, later, hrefill, heq, hholds₁⟩ := hholds.refill_next hdone
    obtain ⟨rfl, rfl⟩ := append_eq_nil_iff.mp heq.symm
    exact ⟨s₁, hrefill.trans (hholds₁.nextLoop_empty 0), [], [], [], rfl, hholds₁⟩

/-- What `n` calls return. -/
def expected (lines : List TextLine) (n : Nat) : List (Option (Int × List UInt8)) :=
  (List.range n).map fun i => lines[i]?.map fun l => (l.count, l.encode)

theorem expected_cons (l : TextLine) (lines : List TextLine) (n : Nat) :
    expected (l :: lines) (n + 1) = some (l.count, l.encode) :: expected lines n := by
  simp [expected, range_succ_eq_map]

theorem expected_nil (n : Nat) : expected [] (n + 1) = none :: expected [] n := by
  simp [expected, range_succ_eq_map, Function.comp_def]

/-- **The lines one by one.** -/
theorem Pending.calls_eq (h : s.Pending lines) (n : Nat) : s.calls n = .ok (expected lines n) := by
  induction n generalizing s lines with
  | zero => rfl
  | succ n ih =>
    rw [calls]
    cases lines with
    | nil =>
      obtain ⟨s', hnext, hpending⟩ := h.next_nil
      rw [hnext, ok_bind]
      dsimp only
      rw [ih hpending, expected_nil]
      rfl
    | cons l lines =>
      obtain ⟨s', hnext, hpending, hline⟩ := h.next_cons
      rw [hnext, ok_bind]
      dsimp only
      rw [ih hpending, expected_cons, ← hline]
      rfl

theorem create_spec (lines : List TextLine) (data : List UInt8)
    (hfits : ∀ l ∈ lines, l.encode.length ≤ data.length) (hnonblank : ∀ l ∈ lines, l.Nonblank) :
    ∃ s, create (lines.flatMap TextLine.encode) data = .ok s ∧ s.Pending lines := by
  obtain ⟨s, ready, later, hrefill, hindex, heq, hholds⟩ := refill_spec
    (s := ⟨lines.flatMap TextLine.encode, 0, 0, data, [], []⟩) rfl hfits hnonblank
  have hzero : s.index = 0 := hindex
  refine ⟨s, hrefill, [], ready, later, heq, ?_⟩
  rwa [← hzero] at hholds

end

end TextInput

/-! ## both readers -/

theorem SegmentLine.count_decimalText {l : SegmentLine} {k : Nat} (hk : k < 2 ^ 63)
    (hl : l.text = decimalText k) : l.count = k := by
  rw [SegmentLine.count, hl, strtol_decimalText hk rfl, Option.getD_some]

theorem TextLine.count_decimalText {l : TextLine} {k : Nat} {rest : List UInt8} (hk : k < 2 ^ 63)
    (hl : l.body = decimalText k ++ tab :: rest) : l.count = k := by
  rw [TextLine.count, TextLine.encode, hl, append_assoc, cons_append,
    strtol_decimalText hk rfl, Option.getD_some]

/-- The lines `a TAB 12` and `b TAB 3`. -/
def twoWords : List SegmentLine :=
  [⟨[97], [49, 50], by decide, by decide, by decide, by decide⟩,
    ⟨[98], [51], by decide, by decide, by decide, by decide⟩]

/-- The lines `12 TAB a` and `3 TAB b`. -/
def twoCounts : List TextLine := [⟨[49, 50, 9, 97], by decide⟩, ⟨[51, 9, 98], by decide⟩]

/-- The lines of a file that begins with an empty one. -/
def blankFirst : List TextLine := [⟨[], by decide⟩, ⟨[55], by decide⟩]

end Muduo.Topk
