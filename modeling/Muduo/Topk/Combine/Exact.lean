import Mathlib.Data.List.Sort
import Muduo.Topk.Combine

/-!
# Muduo.Topk.Combine.Exact

`combine` on segment files as `sort_segments` writes them.

The readers of the files deliver the entries of the files, so that the loop meets all entries,
in the order of their words.  Without assertions the result is right.  With assertions it is
right when there are no two different words, and otherwise the assertion in the loop fails.
-/

namespace Muduo.Topk

open Lib Combine

/-! ## the readers -/

/-- What a line says. -/
def SegmentLine.entry (l : SegmentLine) : List UInt8 × Int := (l.word, l.count)

/-- The reader is at the first entry, and the others follow. -/
def Segment.Reads (r : Segment) (c : (List UInt8 × Int) × List (List UInt8 × Int)) : Prop :=
  (r.word, r.count) = c.1 ∧
    ∃ lines : List SegmentLine, r.input.Pending lines ∧ lines.map SegmentLine.entry = c.2

theorem Segment.next_nil {r : Segment} (h : r.input.Pending []) : r.next = .ok none := by
  rw [Segment.next, h.next_nil]
  rfl

theorem Segment.next_cons {r : Segment} {l : SegmentLine} {lines : List SegmentLine}
    (h : r.input.Pending (l :: lines)) :
    ∃ r', r.next = .ok (some r') ∧ r'.Reads (l.entry, lines.map SegmentLine.entry) := by
  obtain ⟨input, hnext, hreturns⟩ := h.next_cons
  refine ⟨⟨input.word, input⟩, ?_, ?_, lines, hreturns.pending, rfl⟩
  · rw [Segment.next, hnext]
    rfl
  · rw [Segment.count, hreturns.word, hreturns.count]
    rfl

theorem reader (ndebug : Bool) (kSize : Nat) (sorter : Sorter) :
    Heap.Reader Segment.Reads Segment.word (·.1) Segment.next
      (fun s key => step ndebug kSize sorter s (key.word, key.count))
      (step ndebug kSize sorter) where
  key_eq h := congrArg Prod.fst h.1
  body_eq s h := congrArg (step ndebug kSize sorter s) h.1
  next_nil := by
    rintro r a ⟨-, lines, hpending, hlines⟩
    obtain rfl := List.map_eq_nil_iff.mp hlines
    exact Segment.next_nil hpending
  next_cons := by
    rintro r a b rest ⟨-, lines, hpending, hlines⟩
    obtain ⟨l, lines, rfl, rfl, rfl⟩ := List.map_eq_cons_iff.mp hlines
    exact Segment.next_cons hpending

/-! ## the files -/

/-- The lines of a file, with the buffer of its reader. -/
def inputFile (f : List SegmentLine × List UInt8) : InputFile :=
  ⟨f.1.flatMap SegmentLine.encode, f.2⟩

/-- The entries of the files. -/
def entriesOf (segments : List (List SegmentLine × List UInt8)) : List (List (List UInt8 × Int)) :=
  segments.map fun f => f.1.map SegmentLine.entry

def allEntries (segments : List (List SegmentLine × List UInt8)) : List (List UInt8 × Int) :=
  (entriesOf segments).flatten

/-- What `combine` is given: segment files as `sort_segments` writes them, with lines that fit
into the buffers of the readers and counts whose sum is an `int64_t`. -/
structure Suitable (kSize : Nat) (segments : List (List SegmentLine × List UInt8)) : Prop where
  ordered : ∀ f ∈ segments, f.1.Pairwise fun l l' => l.word < l'.word
  positive : ∀ f ∈ segments, ∀ l ∈ f.1, 1 ≤ l.count
  size : ∀ f ∈ segments, ∀ l ∈ f.1, l.word.length ≤ kSize
  fits : ∀ f ∈ segments, ∀ l ∈ f.1, l.encode.length ≤ f.2.length
  sum : ((allEntries segments).map (·.2)).sum < 2 ^ 63

section
variable {kSize : Nat} {segments : List (List SegmentLine × List UInt8)}

/-- **The readers** at the beginning of the loop. -/
theorem openSegments_spec (hfits : ∀ f ∈ segments, ∀ l ∈ f.1, l.encode.length ≤ f.2.length) :
    ∃ keys, openSegments (segments.map inputFile) = .ok keys ∧
      List.Forall₂ Segment.Reads keys (Heap.heads (entriesOf segments)) := by
  induction segments with
  | nil => exact ⟨[], rfl, .nil⟩
  | cons f segments ih =>
    obtain ⟨lines, data⟩ := f
    obtain ⟨keys, hopen, hkeys⟩ := ih fun f hf => hfits f (List.mem_cons_of_mem _ hf)
    have hpending := SegmentInput.pending_create lines data (hfits _ List.mem_cons_self)
    rw [List.map_cons, openSegments, hopen]
    cases lines with
    | nil =>
      refine ⟨keys, ?_, hkeys⟩
      rw [Segment.next_nil hpending]
      rfl
    | cons l lines =>
      obtain ⟨r, hnext, hr⟩ :=
        Segment.next_cons (r := ⟨[], .create (inputFile (l :: lines, data)).file data⟩) hpending
      refine ⟨r :: keys, ?_, .cons hr hkeys⟩
      dsimp only [inputFile] at hnext ⊢
      rw [hnext]
      rfl

theorem length_allEntries_le (segments : List (List SegmentLine × List UInt8)) :
    (allEntries segments).length ≤ ((segments.map inputFile).map fun f => f.file.length).sum := by
  have hlines : ∀ lines : List SegmentLine,
      lines.length ≤ (lines.flatMap SegmentLine.encode).length := by
    intro lines
    induction lines with
    | nil => exact Nat.le_refl 0
    | cons l lines ih =>
      have hpos := l.length_encode_pos
      rw [List.length_cons, List.flatMap_cons, List.length_append]
      omega
  induction segments with
  | nil => exact Nat.le_refl 0
  | cons f segments ih =>
    have hf := hlines f.1
    simp only [allEntries, entriesOf, List.map_cons, List.flatten_cons, List.length_append,
      List.length_map, List.sum_cons, inputFile] at ih ⊢
    omega

theorem Suitable.ordered_entries (h : Suitable kSize segments) :
    Heap.Ordered (fun a b : List UInt8 => a ≤ b) (·.1) (Heap.heads (entriesOf segments)) := by
  refine Heap.ordered_heads _ fun l hl => ?_
  obtain ⟨f, hf, rfl⟩ := List.mem_map.mp hl
  exact List.pairwise_map.mpr ((h.ordered f hf).imp fun hlt => List.le_of_lt hlt)

theorem Suitable.stream (h : Suitable kSize segments) : Stream kSize (allEntries segments) := by
  have hline {e} (he : e ∈ allEntries segments) : ∃ f ∈ segments, ∃ l ∈ f.1, l.entry = e := by
    simpa [allEntries, entriesOf] using he
  constructor
  · intro e he
    obtain ⟨f, hf, l, hl, rfl⟩ := hline he
    exact h.positive f hf l hl
  · intro e he
    obtain ⟨f, hf, l, hl, rfl⟩ := hline he
    exact h.size f hf l hl

theorem Stream.perm {es es' : List (List UInt8 × Int)} (h : Stream kSize es) (hperm : es'.Perm es) :
    Stream kSize es' :=
  ⟨fun e he => h.positive e (hperm.subset he), fun e he => h.size e (hperm.subset he)⟩

theorem Combined.perm {es es' : List (List UInt8 × Int)} {r : Combine} (h : Combined es r)
    (hperm : es.Perm es') : Combined es' r where
  ordered := h.ordered
  adds w c := by rw [h.adds, (hperm.map _).mem_iff, totalOf_perm w hperm]
  files := h.files
  once w hw := h.once w ((hperm.map _).mem_iff.mpr hw)
  descending := h.descending

/-- **`combine`** passes each word to `CountOutput` once, in order and with the sum of its
counts, when the assertions are compiled out or there are no two different words; otherwise the
assertion in the loop fails. -/
theorem combine_exact (ndebug : Bool) (heap : Heap fun a b : List UInt8 => a ≤ b) (sorter : Sorter)
    (h : Suitable kSize segments) :
    (ndebug = true ∨ Single (allEntries segments) →
      ∃ r, combine ndebug heap sorter kSize (segments.map inputFile) = .ok r ∧
        Combined (allEntries segments) r) ∧
    (¬(ndebug = true ∨ Single (allEntries segments)) →
      combine ndebug heap sorter kSize (segments.map inputFile) = .error .assertion) := by
  obtain ⟨keys, hopen, hkeys⟩ := openSegments_spec h.fits
  have hfuel := Nat.lt_succ_of_le (length_allEntries_le segments)
  rw [allEntries, ← Heap.entries_heads] at hfuel
  have hloop := heap.loop_eq (·.1) (reader ndebug kSize sorter) Fault.diverges hfuel hkeys
    Combine.create (n := 0)
  generalize hes : heap.merge (·.1) _ 0 (Heap.heads (entriesOf segments)) = es at hloop
  have hperm : es.Perm (allEntries segments) := by
    rw [← hes, allEntries, ← Heap.entries_heads]
    exact Heap.merge_perm (Nat.le_of_lt hfuel)
  have hsorted : es.Pairwise fun e e' => e.1 ≤ e'.1 := by
    have htrans (a b c : List UInt8) (hab : a ≤ b) (hbc : b ≤ c) : a ≤ c := List.le_trans hab hbc
    rw [← hes]
    exact Heap.merge_pairwise htrans (Nat.le_of_lt hfuel) h.ordered_entries
  have hsum : (es.map (·.2)).sum < 2 ^ 63 := (hperm.map (·.2)).sum_eq ▸ h.sum
  have hsingle : Single es ↔ Single (allEntries segments) := by
    simp only [Single, hperm.mem_iff]
  obtain ⟨hok, hfails⟩ := stream_spec ndebug sorter (h.stream.perm hperm) hsorted hsum
  rw [← hsingle, combine, hopen, ok_bind, hloop]
  refine ⟨fun hcond => ?_, hfails⟩
  obtain ⟨r, hr, hcombined⟩ := hok hcond
  exact ⟨r, hr, hcombined.perm hperm⟩

end

/-- The largest count first, and of equal counts the one that comes first. -/
def firstSorter : Sorter where
  sort _ cs := cs.insertionSort fun c c' => c'.count ≤ c.count
  perm _ cs := List.perm_insertionSort _ cs
  sorted _ cs := List.pairwise_insertionSort _ cs

def firstHeap : Heap fun a b : List UInt8 => a ≤ b :=
  Heap.first (fun _ _ _ hab hbc => List.le_trans hab hbc) List.le_total

/-- The lines `c TAB 1` and `d TAB 1`. -/
def twoLines : List SegmentLine :=
  [⟨[99], [49], by decide, by decide, by decide, by decide⟩,
    ⟨[100], [49], by decide, by decide, by decide, by decide⟩]

theorem combine_exact_twoLines :
    Suitable 1 [(twoLines, List.replicate 8 0)] ∧
    ∃ r, combine true firstHeap firstSorter 1 ([(twoLines, List.replicate 8 0)].map inputFile) = .ok r ∧
      Combined (allEntries [(twoLines, List.replicate 8 0)]) r := by
  have h : Suitable 1 [(twoLines, List.replicate 8 0)] :=
    ⟨by simp only [List.forall_mem_singleton]; decide, by decide, by decide, by decide, by decide⟩
  exact ⟨h, (combine_exact true firstHeap firstSorter h).1 (.inl rfl)⟩

/-- A segment with two words makes the assertion fail. -/
theorem two_words_fail :
    combine false firstHeap firstSorter 1 [⟨twoLines.flatMap SegmentLine.encode, List.replicate 8 0⟩] =
      .error .assertion := by
  decide

end Muduo.Topk
