import Muduo.Lib.FlatArray
import Muduo.Lib.Outcome
import Muduo.Lib.Strtol

/-!
# Muduo.Topk.SegmentInput

The reader of a segment file: `recipes/topk/input.h`.

`data` is the memory that `data_` points to, of `buffer_size_` bytes; a refill leaves what was
in it behind the bytes that it reads.  `pread` returns all the bytes that there are.
-/

namespace Muduo.Topk

open Lib List

def newline : UInt8 := 10

def tab : UInt8 := 9

/-- An assertion that fails, a byte outside of the buffer, a number that `int64_t` does not
hold, `abort()`, or a call that does not return. -/
inductive Fault
  | assertion
  | outOfBounds
  | overflow
  | abort
  | diverges
deriving DecidableEq, Repr

/-- `memchr(p, c, n)`, where the bytes are those at `p`, as an index. -/
def memchr (bytes : List UInt8) (c : UInt8) : Option Nat := bytes.idxOf? c

/-- `strtol(p, NULL, 10)`, where `memory` begins at `p` and ends with the buffer. -/
def strtolAt (memory : List UInt8) : Except Fault Int :=
  match strtol memory with
  | some count => .ok count
  | none => .error .outOfBounds

structure SegmentInput where
  file : List UInt8
  offset : Nat
  start : Nat
  avail : Nat
  data : List UInt8
  word : List UInt8
  count : Int
deriving DecidableEq, Repr

namespace SegmentInput

def refill (s : SegmentInput) : SegmentInput :=
  let bytes := (s.file.drop s.offset).take s.data.length
  { s with start := 0, avail := bytes.length, data := overwrite s.data 0 bytes }

/-- The reader of a file, with the buffer `data`. -/
def create (file data : List UInt8) : SegmentInput :=
  refill { file, offset := 0, start := 0, avail := 0, data, word := [], count := 0 }

def tell (s : SegmentInput) : Nat := s.offset

/-- `next()`, with at most `depth` calls of itself. -/
def nextLoop : Nat → SegmentInput → Except Fault (Bool × SegmentInput)
  | 0, _ => .error .diverges
  | depth + 1, s =>
    if s.avail = 0 then .ok (false, s)
    else
      let bytes := slice s.data s.start (s.start + s.avail)
      match memchr bytes newline with
      | some nl =>
        match memchr (bytes.take nl) tab with
        | some t => do
          let count ← strtolAt (s.data.drop (s.start + t + 1))
          let len := nl + 1
          check .assertion (len ≤ s.avail)
          let s := { s with
            count, word := bytes.take t, avail := s.avail - len, offset := s.offset + len }
          if s.avail = 0 then return (true, s.refill)
          else return (true, { s with start := s.start + len })
        | none => .error .assertion
      | none => nextLoop depth s.refill

/-- `next()`.  It calls itself after a refill only, and a second refill reads the same bytes as
the first. -/
def next (s : SegmentInput) : Except Fault (Bool × SegmentInput) := nextLoop 2 s

/-- The results of `n` calls: the word and the count, or nothing when `next()` returns false,
and the position in the file. -/
def calls : Nat → SegmentInput → Except Fault (List (Option (List UInt8 × Int) × Nat))
  | 0, _ => .ok []
  | n + 1, s => do
    let (more, s) ← s.next
    let rest ← calls n s
    return (if more then some (s.word, s.count) else none, s.tell) :: rest

end SegmentInput

/-! ## lines -/

section
variable {bs rest : List UInt8} {c : UInt8}

theorem memchr_append (h : c ∉ bs) : memchr (bs ++ c :: rest) c = some bs.length := by
  induction bs with
  | nil => simp [memchr, List.idxOf?_cons]
  | cons b bs ih =>
    obtain ⟨hb, hbs⟩ := not_or.mp (mem_cons.not.mp h)
    have hmem := ih hbs
    unfold memchr at hmem ⊢
    rw [cons_append, List.idxOf?_cons, if_neg (by simpa using Ne.symm hb), hmem,
      Option.map_some, length_cons]

theorem memchr_eq_none (h : c ∉ bs) : memchr bs c = none := List.idxOf?_eq_none_iff.mpr h

/-- **The first newline** of a piece that begins with a line, or with a part of it. -/
theorem memchr_line (line : List UInt8) {piece more : List UInt8} (h : newline ∉ bs)
    (hline : line = bs ++ [newline]) (hpiece : piece <+: line ++ more) :
    (memchr piece newline = none ∧ piece.length < line.length) ∨
      ∃ rest, piece = line ++ rest ∧ rest <+: more ∧ memchr piece newline = some bs.length := by
  obtain ⟨hproper, hne⟩ | ⟨rest, rfl, hrest⟩ := prefix_append_cases hpiece
  · refine .inl ⟨memchr_eq_none fun hmem => ?_,
      Nat.lt_of_le_of_ne hproper.length_le fun hlen => hne (hproper.eq_of_length hlen)⟩
    obtain heq | hproper := prefix_concat_iff.mp (hline ▸ hproper)
    · exact hne (heq.trans hline.symm)
    · exact h (hproper.subset hmem)
  · refine .inr ⟨rest, rfl, hrest, ?_⟩
    rw [hline, append_assoc, singleton_append, memchr_append h]

theorem strtolAt_eq {cs : List UInt8} {z : Int} (h : strtol cs = some z) (more : List UInt8) :
    strtolAt (cs ++ more) = .ok z := by
  rw [strtolAt, strtol_append h]

end

/-- A line of a segment file: a word, a tab and the text of a count. -/
structure SegmentLine where
  word : List UInt8
  text : List UInt8
  word_tab : tab ∉ word
  word_newline : newline ∉ word
  text_newline : newline ∉ text
  text_nonblank : ∃ c ∈ text, Lib.isSpace c = false

namespace SegmentLine

variable (l : SegmentLine)

/-- The line without its newline. -/
def body : List UInt8 := l.word ++ tab :: l.text

def encode : List UInt8 := l.body ++ [newline]

/-- The number at the beginning of the text. -/
def count : Int := (strtol (l.text ++ [newline])).getD 0

theorem strtol_text : strtol (l.text ++ [newline]) = some l.count := by
  obtain ⟨c, hc, hspace⟩ := l.text_nonblank
  have hsome := strtol_isSome hc hspace (e := newline) rfl
  rw [count, ← Option.some_get hsome, Option.getD_some]

theorem newline_notMem_body : newline ∉ l.body := by
  have hne : newline ≠ tab := by decide
  simp [body, l.word_newline, l.text_newline, hne]

theorem length_encode_pos : 0 < l.encode.length := by
  simp [encode]

end SegmentLine

/-! ## `next()` -/

namespace SegmentInput

/-- The bytes in the buffer that have not been used. -/
def bytes (s : SegmentInput) : List UInt8 := slice s.data s.start (s.start + s.avail)

/-- `lines` are still to be returned. -/
structure Pending (s : SegmentInput) (lines : List SegmentLine) : Prop where
  file : s.file.drop s.offset = lines.flatMap SegmentLine.encode
  bound : s.start + s.avail ≤ s.data.length
  window : s.bytes <+: lines.flatMap SegmentLine.encode
  empty : s.avail = 0 → lines = []
  fits : ∀ l ∈ lines, l.encode.length ≤ s.data.length

section
variable {s : SegmentInput} {l : SegmentLine} {lines : List SegmentLine}

theorem length_refill (s : SegmentInput) : s.refill.data.length = s.data.length := by
  rw [refill, length_overwrite (by rw [length_take]; omega)]

theorem bytes_refill (s : SegmentInput) :
    s.refill.bytes = (s.file.drop s.offset).take s.data.length := by
  unfold bytes refill
  exact slice_overwrite_self (Nat.zero_le s.data.length)

theorem pending_refill (hfile : s.file.drop s.offset = lines.flatMap SegmentLine.encode)
    (hfits : ∀ l ∈ lines, l.encode.length ≤ s.data.length) : s.refill.Pending lines where
  file := hfile
  bound := by
    rw [length_refill, refill]
    dsimp only
    rw [length_take]
    omega
  window := by
    rw [bytes_refill, hfile]
    exact take_prefix _ _
  empty h := by
    have hlen : ((s.file.drop s.offset).take s.data.length).length = 0 := h
    cases lines with
    | nil => rfl
    | cons l lines =>
      have hpos := l.length_encode_pos
      have hle := hfits l mem_cons_self
      rw [hfile, length_take, flatMap_cons, length_append] at hlen
      omega
  fits l hl := by
    rw [length_refill]
    exact hfits l hl

theorem length_bytes (h : s.start + s.avail ≤ s.data.length) : s.bytes.length = s.avail := by
  rw [bytes, length_slice h, Nat.add_sub_cancel_left]

/-- The reader behind a line that is in the buffer. -/
def advance (s : SegmentInput) (l : SegmentLine) : SegmentInput :=
  { s with
    count := l.count
    word := l.word
    avail := s.avail - l.encode.length
    offset := s.offset + l.encode.length }

theorem nextLoop_of_prefix (hl : l.encode <+: s.bytes) (hbound : s.start + s.avail ≤ s.data.length)
    (depth : Nat) :
    nextLoop (depth + 1) s = .ok (true, if s.avail - l.encode.length = 0 then (s.advance l).refill
      else { s.advance l with start := s.start + l.encode.length }) := by
  obtain ⟨rest, hrest⟩ := hl
  have hbytes : s.bytes = l.body ++ newline :: rest := by
    rw [← hrest, SegmentLine.encode, append_assoc, singleton_append]
  have hlen := length_bytes hbound
  have hle : l.encode.length ≤ s.avail := by
    rw [← hlen, ← hrest, length_append]
    omega
  have hpos := l.length_encode_pos
  have hbody : l.body.length + 1 = l.encode.length := by
    rw [SegmentLine.encode, length_append, length_singleton]
  have hword : s.bytes.take l.word.length = l.word := by
    rw [hbytes, SegmentLine.body, append_assoc, take_left]
  have hcount : strtolAt (s.data.drop (s.start + l.word.length + 1)) = .ok l.count := by
    have hmemory : s.data.drop (s.start + l.word.length + 1) =
        (l.text ++ [newline]) ++ (rest ++ s.data.drop (s.start + s.avail)) := by
      have hdata : s.data.drop s.start = s.bytes ++ s.data.drop (s.start + s.avail) :=
        drop_eq_slice_append _ _ _
      rw [Nat.add_assoc, ← drop_drop, hdata, hbytes, SegmentLine.body]
      simp
    rw [hmemory, strtolAt_eq l.strtol_text]
  rw [nextLoop, if_neg (by omega)]
  have hnl : memchr s.bytes newline = some l.body.length := by
    rw [hbytes, memchr_append l.newline_notMem_body]
  have htab : memchr (s.bytes.take l.body.length) tab = some l.word.length := by
    rw [hbytes, take_left, SegmentLine.body, memchr_append l.word_tab]
  unfold bytes at hnl htab hword
  simp only [hnl, htab, hcount, ok_bind, hbody, check_of hle, hword, advance]
  split_ifs <;> rfl

/-- What a call of `next()` that returns a line leaves. -/
structure Returns (s : SegmentInput) (l : SegmentLine) (lines : List SegmentLine)
    (s' : SegmentInput) : Prop where
  pending : s'.Pending lines
  word : s'.word = l.word
  count : s'.count = l.count
  tell : s'.tell = s.tell + l.encode.length

theorem Pending.nextLoop_of_prefix (h : s.Pending (l :: lines)) (hl : l.encode <+: s.bytes)
    (depth : Nat) : ∃ s', nextLoop (depth + 1) s = .ok (true, s') ∧ s.Returns l lines s' := by
  refine ⟨_, SegmentInput.nextLoop_of_prefix hl h.bound depth, ?_⟩
  have hfile : (s.advance l).file.drop (s.advance l).offset = lines.flatMap SegmentLine.encode := by
    change s.file.drop (s.offset + l.encode.length) = _
    rw [← drop_drop, h.file, flatMap_cons, drop_left]
  have hfits : ∀ l' ∈ lines, l'.encode.length ≤ (s.advance l).data.length :=
    fun l' hl' => h.fits l' (mem_cons_of_mem l hl')
  split_ifs with hempty
  · exact ⟨pending_refill hfile hfits, rfl, rfl, rfl⟩
  · obtain ⟨rest, hrest⟩ := hl
    have hbound := h.bound
    have hslice : slice s.data (s.start + l.encode.length)
        (s.start + l.encode.length + (s.avail - l.encode.length)) = rest := by
      have hend : s.start + l.encode.length + (s.avail - l.encode.length) = s.start + s.avail := by
        omega
      rw [hend, slice_drop]
      change s.bytes.drop l.encode.length = rest
      rw [← hrest, drop_left]
    refine ⟨⟨hfile, ?_, ?_, fun hzero => absurd hzero hempty, hfits⟩, rfl, rfl, rfl⟩
    · change s.start + l.encode.length + (s.avail - l.encode.length) ≤ s.data.length
      omega
    · change slice s.data (s.start + l.encode.length)
        (s.start + l.encode.length + (s.avail - l.encode.length)) <+: _
      have hbegins := h.window
      rw [← hrest, flatMap_cons, prefix_append_right_inj] at hbegins
      rwa [hslice]

theorem Pending.next_cons (h : s.Pending (l :: lines)) :
    ∃ s', s.next = .ok (true, s') ∧ s.Returns l lines s' := by
  obtain ⟨hnl, -⟩ | ⟨rest, hrest, -⟩ := memchr_line l.encode l.newline_notMem_body rfl h.window
  · -- a part of the line only: it is read again, from its beginning
    have hpending := pending_refill h.file h.fits
    have havail : s.avail ≠ 0 := fun hzero => nomatch h.empty hzero
    have hline : l.encode <+: s.refill.bytes := by
      rw [bytes_refill, h.file, flatMap_cons, prefix_take_iff]
      exact ⟨prefix_append _ _, h.fits l mem_cons_self⟩
    obtain ⟨s', hnext, hreturns⟩ := hpending.nextLoop_of_prefix hline 0
    refine ⟨s', ?_, hreturns.pending, hreturns.word, hreturns.count, hreturns.tell⟩
    unfold SegmentInput.bytes at hnl
    rw [next, nextLoop, if_neg havail]
    simp only [hnl, hnext]
  · exact h.nextLoop_of_prefix ⟨rest, hrest.symm⟩ 1

/-- **`next()` returns false** behind the last line. -/
theorem Pending.next_nil (h : s.Pending []) : s.next = .ok (false, s) := by
  have hbytes : s.bytes = [] := prefix_nil.mp h.window
  have hlen := length_bytes h.bound
  rw [hbytes, length_nil] at hlen
  rw [next, nextLoop, if_pos hlen.symm]

theorem pending_create (lines : List SegmentLine) (data : List UInt8)
    (hfits : ∀ l ∈ lines, l.encode.length ≤ data.length) :
    (create (lines.flatMap SegmentLine.encode) data).Pending lines :=
  pending_refill rfl hfits

/-- What `n` calls return, when the position is `offset` at the beginning. -/
def expected (lines : List SegmentLine) (offset n : Nat) :
    List (Option (List UInt8 × Int) × Nat) :=
  (List.range n).map fun i => (lines[i]?.map fun l => (l.word, l.count),
    offset + ((lines.take (i + 1)).flatMap SegmentLine.encode).length)

theorem expected_cons (l : SegmentLine) (lines : List SegmentLine) (offset n : Nat) :
    expected (l :: lines) offset (n + 1) =
      (some (l.word, l.count), offset + l.encode.length) ::
        expected lines (offset + l.encode.length) n := by
  simp [expected, range_succ_eq_map, Nat.add_assoc]

theorem expected_nil (offset n : Nat) :
    expected [] offset (n + 1) = (none, offset) :: expected [] offset n := by
  simp [expected, range_succ_eq_map, Function.comp_def]

/-- **The lines one by one**, and the position behind each of them. -/
theorem Pending.calls_eq (h : s.Pending lines) (n : Nat) :
    s.calls n = .ok (expected lines s.tell n) := by
  induction n generalizing s lines with
  | zero => rfl
  | succ n ih =>
    rw [calls]
    cases lines with
    | nil =>
      rw [h.next_nil, ok_bind]
      dsimp only
      rw [ih h, expected_nil]
      rfl
    | cons l lines =>
      obtain ⟨s', hnext, hreturns⟩ := h.next_cons
      rw [hnext, ok_bind]
      dsimp only
      rw [ih hreturns.pending, expected_cons, ← hreturns.tell, ← hreturns.word,
        ← hreturns.count]
      rfl

end

end SegmentInput

end Muduo.Topk
