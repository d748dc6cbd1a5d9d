import Muduo.LogStream

/-!
# Muduo.LogStream.Pieces

Any mixture of insertions into a `muduo::LogStream`.
-/

namespace Muduo.LogStream

open Lib List

/-! ## insertions -/

/-- `Fmt`: the text that `snprintf` has made, for which `assert(length_ < sizeof buf_)`
has passed. -/
structure Fmt where
  data : List UInt8
  length_lt : data.length < 32

/-- The operands of `operator<<`.  A `const char*` is what it points to, up to the end of
the memory, or null. -/
inductive Piece
  | bool (v : Bool)
  | char (c : UInt8)
  | cstring (str : Option (List UInt8))
  | string (v : List UInt8)
  | fmt (f : Fmt)
  | integer (T : IntType) (v : Int) (has : T.Has v)
  | pointer (v : Int) (has : IntType.uint64.Has v)

/-- The characters before the first NUL, `strlen(str)` of them. -/
def cstringData (str : List UInt8) : List UInt8 := str.takeWhile (· ≠ 0)

def nullText : List UInt8 := "(null)".toList.map Char.toUInt8

def insert (b : Buffer) : (Nat → UInt8) × Piece → Except Fault Buffer
  | (_, .bool v) => .ok (b.append [if v then '1'.toUInt8 else '0'.toUInt8])
  | (_, .char c) => .ok (b.append [c])
  | (_, .cstring (some str)) => .ok (b.append (cstringData str))
  | (_, .cstring none) => .ok (b.append nullText)
  | (_, .string v) => .ok (b.append v)
  | (_, .fmt f) => .ok (b.append f.data)
  | (garbage, .integer T v _) => writeInteger T garbage b v
  | (garbage, .pointer v _) => writePointer garbage b v

/-! ## what an insertion does -/

namespace Piece

/-- The characters of a piece that is no number. -/
def characters : Piece → Option (List UInt8)
  | bool v => some [if v then '1'.toUInt8 else '0'.toUInt8]
  | char c => some [c]
  | cstring (some str) => some (cstringData str)
  | cstring none => some nullText
  | string v => some v
  | fmt f => some f.data
  | integer .. | pointer .. => none

/-- The textual form of a piece. -/
def Form : Piece → List UInt8 → Prop
  | integer _ v _, text => IsText 10 decimalDigit v text
  | pointer v _, text => ∃ digits, IsText 16 hexDigit v digits ∧
      text = '0'.toUInt8 :: 'x'.toUInt8 :: digits
  | p, text => p.characters = some text

/-- Whether there is room for a piece, by its textual form. -/
def Kept (b : Buffer) (p : Piece) (text : List UInt8) : Prop :=
  if p.characters.isSome then text.length < b.avail else kMaxNumericSize ≤ b.avail

instance (b : Buffer) (p : Piece) (text : List UInt8) : Decidable (p.Kept b text) :=
  inferInstanceAs
    (Decidable (if p.characters.isSome then text.length < b.avail else kMaxNumericSize ≤ b.avail))

end Piece

/-- The piece `l.2` is written as a whole, or it is left out. -/
def Inserts (b : Buffer) (l : (Nat → UInt8) × Piece) (b' : Buffer) : Prop :=
  b'.length < kSmallBuffer ∧ ∃ text, l.2.Form text ∧
    b'.data = b.data ++ if l.2.Kept b text then text else []

variable {text : List UInt8} {b : Buffer}

theorem IsText.length_le {base k : Nat} {digit : Nat → UInt8} {v : Int}
    (h : IsText base digit v text) (hbase : 1 < base) (hk : 0 < k) (hv : v.natAbs < base ^ k) :
    text.length ≤ k + 1 := by
  obtain ⟨ms, hms, rfl⟩ := h
  have hlen := hms.length_le hbase hk hv
  rw [length_append, length_map]
  split <;> simp only [length_singleton, length_nil] <;> omega

variable {garbage : Nat → UInt8} {ps : List Piece}

theorem inserts_number {p : Piece} (hp : p.characters = none) (hform : p.Form text)
    (hlen : text.length < kMaxNumericSize) (hb : b.length < kSmallBuffer) {r : Except Fault Buffer}
    (h : Appends b text r) : ∃ b', r = .ok b' ∧ Inserts b (garbage, p) b' := by
  obtain ⟨b', rfl, hdata⟩ := h
  have hkept : p.Kept b text ↔ kMaxNumericSize ≤ b.avail := by
    rw [Piece.Kept, hp]
    simp
  refine ⟨b', rfl, ?_, text, hform, ?_⟩
  · unfold FixedBuffer.avail FixedBuffer.length at *
    rw [hdata, length_append]
    split
    · omega
    · simpa using hb
  · simp only [hdata, hkept]

theorem inserts_characters {p : Piece} (hp : p.characters = some text)
    (hb : b.length < kSmallBuffer) : Inserts b (garbage, p) (b.append text) := by
  have hkept : p.Kept b text ↔ text.length < b.avail := by
    rw [Piece.Kept, hp]
    simp
  have hform : p.Form text := by
    cases p with
    | integer | pointer => cases hp
    | _ => exact hp
  refine ⟨?_, text, hform, ?_⟩
  · unfold FixedBuffer.append
    split
    · next hlt =>
      unfold FixedBuffer.avail FixedBuffer.length at *
      rw [length_append]
      omega
    · exact hb
  · simp only [hkept]
    unfold FixedBuffer.append
    split
    · rfl
    · rw [append_nil]

theorem insert_spec (hb : b.length < kSmallBuffer) (l : (Nat → UInt8) × Piece) :
    ∃ b', insert b l = .ok b' ∧ Inserts b l b' := by
  obtain ⟨garbage, p⟩ := l
  cases p with
  | integer T v hv =>
    obtain ⟨text, htext, happends⟩ := writeInteger_appends hv garbage b
    obtain ⟨k, hk, -, hle, hlt⟩ := exists_digits hv
    have hlen := htext.length_le (by decide) hk hlt
    exact inserts_number (p := .integer T v hv) rfl htext (by rw [kMaxNumericSize]; omega) hb happends
  | pointer v hv =>
    obtain ⟨text, htext, happends⟩ := writePointer_appends hv garbage b
    have hlen := htext.length_le (by decide) (by decide) (natAbs_lt_of_uint64 hv)
    refine inserts_number (p := .pointer v hv) rfl ⟨text, htext, rfl⟩ ?_ hb happends
    rw [kMaxNumericSize, length_cons, length_cons]
    omega
  | cstring str => cases str <;> exact ⟨_, rfl, inserts_characters rfl hb⟩
  | bool | char | string | fmt => exact ⟨_, rfl, inserts_characters rfl hb⟩

/-! ## streams -/

/-- The pieces that were written, with their textual forms. -/
structure Content (ps : List Piece) (data : List UInt8) : Prop where
  kept : ∃ written, written.Sublist ps ∧ ∃ texts, List.Forall₂ Piece.Form written texts ∧
    data = texts.flatten

theorem Content.inserts {b b' : Buffer} {l : (Nat → UInt8) × Piece}
    (h : Content ps b.data) (hl : Inserts b l b') : Content (ps ++ [l.2]) b'.data := by
  obtain ⟨written, hsub, texts, hforms, hdata⟩ := h
  obtain ⟨-, text, hform, hdata'⟩ := hl
  by_cases hkept : l.2.Kept b text
  · refine ⟨written ++ [l.2], hsub.append (List.Sublist.refl _), texts ++ [text], ?_, ?_⟩
    · exact rel_append hforms (.cons hform .nil)
    · rw [hdata', if_pos hkept, hdata, flatten_append, flatten_singleton]
  · refine ⟨written, hsub.trans (sublist_append_left _ _), texts, hforms, ?_⟩
    rw [hdata', if_neg hkept, hdata, append_nil]

theorem Content.run (h : Content ps b.data) (hb : b.length < kSmallBuffer)
    (ls : List ((Nat → UInt8) × Piece)) :
    ∃ b', Lib.run insert b ls = .ok b' ∧ b'.length < kSmallBuffer ∧
      Content (ps ++ ls.map Prod.snd) b'.data := by
  induction ls generalizing b ps with
  | nil => exact ⟨b, rfl, hb, by rwa [map_nil, append_nil]⟩
  | cons l ls ih =>
    obtain ⟨b₁, hinsert, hl⟩ := insert_spec hb l
    obtain ⟨b', hrun, hlt, hcontent⟩ := ih (h.inserts hl) hl.1
    refine ⟨b', by rw [run_cons, hinsert, ok_bind, hrun], hlt, ?_⟩
    rwa [append_assoc, singleton_append, ← map_cons (f := Prod.snd)] at hcontent

/-- **A stream is made of whole pieces.** Every insertion stays inside of `data_`, also
with the NUL behind a number, and writes its piece or leaves it out; the length stays
below the size of the buffer. -/
theorem stream_whole (ls : List ((Nat → UInt8) × Piece)) :
    Takes insert Inserts FixedBuffer.create ls ∧
      ∃ b, run insert FixedBuffer.create ls = .ok b ∧ b.length < kSmallBuffer ∧
        Content (ls.map Prod.snd) b.data := by
  have hcreate : (FixedBuffer.create : Buffer).length < kSmallBuffer := by decide
  refine ⟨(takes_iff_meets (I := fun b => b.length < kSmallBuffer) (fun b l hb _ => ?_)
    (fun _ _ _ _ hnot => absurd trivial hnot) hcreate ls).2 (meets_true _ ls), ?_⟩
  · obtain ⟨b', hinsert, hl⟩ := insert_spec hb l
    exact ⟨b', hinsert, hl, hl.1⟩
  · exact Content.run ⟨[], List.Sublist.refl _, [], .nil, rfl⟩ hcreate ls

end Muduo.LogStream
