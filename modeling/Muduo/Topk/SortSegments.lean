import Mathlib.Data.List.Sort
import Muduo.Topk.TextInput

/-!
# Muduo.Topk.SortSegments

`sort_segments` of `recipes/topk/word_freq_sort_basic.cc`.

The file is read in pieces of at most a gigabyte.  The lines that are complete in a piece are
sorted and counted and make a segment, and the next piece begins behind them.  `pread` returns
all the bytes that are asked for.
-/

namespace Muduo.Topk

open Lib List

/-- `1024 * 1000 * 1000L` -/
def kPieceSize : Nat := 1024 * 1000 * 1000

/-- The lines that the inner loop finds in the bytes from `p` to `end`, and how far `p` goes.
The loop ends after at most `fuel` rounds, one for each byte. -/
def itemsLoop : Nat → List UInt8 → List (List UInt8) × Nat
  | 0, _ => ([], 0)
  | fuel + 1, bytes =>
    if bytes = [] then ([], 0)
    else match memchr bytes newline with
      | some nl =>
        let (items, used) := itemsLoop fuel (bytes.drop (nl + 1))
        (bytes.take nl :: items, nl + 1 + used)
      | none => ([], 0)

/-- `out << curr << '\t' << cnt << '\n'`, if `cnt` is not zero. -/
def flush (curr : List UInt8) (cnt : Nat) : List (List UInt8 × Nat) :=
  if cnt ≠ 0 then [(curr, cnt)] else []

/-- What the loop over the sorted items writes. -/
def countLoop : List (List UInt8) → List UInt8 → Nat → List (List UInt8 × Nat)
  | [], curr, cnt => flush curr cnt
  | it :: items, curr, cnt =>
    if it ≠ curr then flush curr cnt ++ countLoop items it 1
    else countLoop items curr (cnt + 1)

/-- A segment file: its words and their counts. -/
abbrev SegmentFile := List (List UInt8 × Nat)

def writeSegment (items : List (List UInt8)) : SegmentFile :=
  countLoop (items.insertionSort (· ≤ ·)) [] 0

/-- An iteration of the loop of `sort_segments`: the segment, and the new offset. -/
def iteration (file : List UInt8) (offset : Nat) : SegmentFile × Nat :=
  let len := min (file.length - offset) kPieceSize
  let bytes := (file.drop offset).take len
  let (items, used) := itemsLoop bytes.length bytes
  (writeSegment items, offset + used)

/-- The loop, for at most `fuel` iterations. -/
def sortSegmentsLoop (file : List UInt8) : Nat → Nat → Except Fault (List SegmentFile)
  | 0, _ => .error .diverges
  | fuel + 1, offset =>
    if offset < file.length then do
      let (segment, offset) := iteration file offset
      let segments ← sortSegmentsLoop file fuel offset
      return segment :: segments
    else .ok []

/-- `sort_segments`, for at most `fuel` iterations. -/
def sortSegments (file : List UInt8) (fuel : Nat) : Except Fault (List SegmentFile) :=
  sortSegmentsLoop file fuel 0

/-! ## counting -/

/-- The counts of a word in a segment. -/
def countOf (word : List UInt8) (segment : SegmentFile) : Nat :=
  ((segment.filter (·.1 = word)).map (·.2)).sum

theorem countOf_append (word : List UInt8) (s s' : SegmentFile) :
    countOf word (s ++ s') = countOf word s + countOf word s' := by
  simp [countOf]

theorem countOf_flush (word curr : List UInt8) (cnt : Nat) :
    countOf word (flush curr cnt) = if curr = word then cnt else 0 := by
  unfold flush countOf
  split_ifs <;> simp_all

theorem countOf_countLoop (word : List UInt8) (items : List (List UInt8)) (curr : List UInt8)
    (cnt : Nat) : countOf word (countLoop items curr cnt) =
      (if curr = word then cnt else 0) + items.count word := by
  induction items generalizing curr cnt with
  | nil => rw [countLoop, countOf_flush, count_nil, Nat.add_zero]
  | cons it items ih =>
    rw [countLoop, count_cons]
    by_cases heq : it = curr
    · rw [if_neg (not_not.mpr heq), ih, heq]
      simp only [beq_iff_eq]
      split_ifs <;> omega
    · rw [if_pos heq, countOf_append, countOf_flush, ih]
      simp only [beq_iff_eq]
      omega

/-- **A segment counts its items.** -/
theorem countOf_writeSegment (word : List UInt8) (items : List (List UInt8)) :
    countOf word (writeSegment items) = items.count word := by
  rw [writeSegment, countOf_countLoop, (perm_insertionSort _ items).count_eq, ite_self,
    Nat.zero_add]

variable {curr : List UInt8} {items : List (List UInt8)}

variable {cnt : Nat} {e : List UInt8 × Nat}

theorem mem_flush (h : e ∈ flush curr cnt) : e = (curr, cnt) ∧ 0 < cnt := by
  unfold flush at h
  split_ifs at h with hcnt
  · exact ⟨mem_singleton.mp h, Nat.pos_of_ne_zero hcnt⟩
  · cases h

theorem mem_countLoop (h : e ∈ countLoop items curr cnt) :
    0 < e.2 ∧ e.2 ≤ cnt + items.length ∧ (e.1 = curr ∨ e.1 ∈ items) := by
  induction items generalizing curr cnt with
  | nil =>
    obtain ⟨rfl, hpos⟩ := mem_flush h
    exact ⟨hpos, by simp, .inl rfl⟩
  | cons it items ih =>
    rw [countLoop] at h
    split_ifs at h with hne
    · obtain h | h := mem_append.mp h
      · obtain ⟨rfl, hpos⟩ := mem_flush h
        exact ⟨hpos, by simp, .inl rfl⟩
      · obtain ⟨hpos, hle, hword⟩ := ih h
        refine ⟨hpos, by rw [length_cons]; omega, .inr ?_⟩
        exact mem_cons.mpr hword
    · obtain ⟨hpos, hle, hword⟩ := ih h
      exact ⟨hpos, by rw [length_cons]; omega, hword.imp id (mem_cons_of_mem it)⟩

/-- The words of sorted items come in order, each of them once. -/
theorem pairwise_countLoop (hsorted : items.Pairwise (· ≤ ·)) (hcurr : ∀ it ∈ items, curr ≤ it) :
    (countLoop items curr cnt).Pairwise fun e e' => e.1 < e'.1 := by
  induction items generalizing curr cnt with
  | nil =>
    unfold countLoop flush
    split_ifs <;> simp
  | cons it items ih =>
    obtain ⟨hit, hsorted⟩ := pairwise_cons.mp hsorted
    have hle := hcurr it mem_cons_self
    rw [countLoop]
    split_ifs with hne
    · refine pairwise_append.mpr ⟨?_, ih hsorted hit, fun e he e' he' => ?_⟩
      · unfold flush
        split_ifs <;> simp
      · obtain ⟨rfl, -⟩ := mem_flush he
        have hlt : curr < it := Std.lt_of_le_of_ne hle (Ne.symm hne)
        obtain heq | hmem := (mem_countLoop he').2.2
        · exact heq ▸ hlt
        · exact Std.lt_of_lt_of_le hlt (hit _ hmem)
    · exact ih hsorted fun it' hit' => hcurr it' (mem_cons_of_mem it hit')

/-- What a segment file has to be: words in order, with counts that an `int` can hold. -/
structure IsSegment (segment : SegmentFile) : Prop where
  words : segment.Pairwise fun e e' => e.1 < e'.1
  counts : ∀ e ∈ segment, 0 < e.2 ∧ e.2 < 2 ^ 31

theorem isSegment_writeSegment (hlen : items.length < 2 ^ 31) : IsSegment (writeSegment items) where
  words := pairwise_countLoop (pairwise_insertionSort _ items) fun it _ => nil_le it
  counts e he := by
    obtain ⟨hpos, hle, -⟩ := mem_countLoop he
    rw [length_insertionSort] at hle
    exact ⟨hpos, by omega⟩

/-! ## the lines of a file -/

/-- Every file is a list of lines, and something behind the last newline. -/
theorem exists_lines (file : List UInt8) : ∃ (lines : List TextLine) (tail : List UInt8),
    newline ∉ tail ∧ file = lines.flatMap TextLine.encode ++ tail := by
  induction file with
  | nil => exact ⟨[], [], by simp, rfl⟩
  | cons c file ih =>
    obtain ⟨lines, tail, htail, rfl⟩ := ih
    by_cases hc : c = newline
    · exact ⟨⟨[], by simp⟩ :: lines, tail, htail, by simp [TextLine.encode, hc]⟩
    · cases lines with
      | nil => exact ⟨[], c :: tail, by simp [htail, Ne.symm hc], rfl⟩
      | cons l lines =>
        refine ⟨⟨c :: l.body, ?_⟩ :: lines, tail, htail, by simp [TextLine.encode]⟩
        simp [l.body_newline, Ne.symm hc]

open TextInput (Splits)

section
variable {lines ready later : List TextLine} {l : TextLine} {tail bytes file : List UInt8}
  {offset : Nat}

variable {fuel : Nat}

/-- **The inner loop** finds the lines that are complete. -/
theorem itemsLoop_spec (hfuel : bytes.length ≤ fuel) (htail : newline ∉ tail)
    (hbegins : bytes <+: lines.flatMap TextLine.encode ++ tail) :
    ∃ ready later, itemsLoop fuel bytes =
        (ready.map TextLine.body, (ready.flatMap TextLine.encode).length) ∧
      Splits bytes lines ready later := by
  induction fuel generalizing bytes lines with
  | zero =>
    obtain rfl := length_eq_zero_iff.mp (Nat.le_zero.mp hfuel)
    refine ⟨[], lines, rfl, rfl, nil_prefix, fun l _ => ?_⟩
    simpa using l.length_encode_pos
  | succ fuel ih =>
    rw [itemsLoop]
    split_ifs with hnil
    · refine ⟨[], lines, rfl, rfl, nil_prefix, fun l _ => ?_⟩
      simpa [hnil] using l.length_encode_pos
    · cases lines with
      | nil =>
        have hmem : newline ∉ bytes := fun h => htail (hbegins.subset h)
        rw [memchr_eq_none hmem]
        exact ⟨[], [], rfl, rfl, nil_prefix, nofun⟩
      | cons l lines =>
        rw [flatMap_cons, append_assoc] at hbegins
        obtain ⟨hnl, hlt⟩ | ⟨rest, rfl, hrest, hnl⟩ := memchr_line l.encode l.body_newline rfl hbegins
        · rw [hnl]
          exact ⟨[], l :: lines, rfl, .of_lt hlt⟩
        · have hpos := l.length_encode_pos
          rw [length_append] at hfuel
          obtain ⟨ready, later, hloop, hsplits⟩ := ih (by omega) hrest
          refine ⟨l :: ready, later, ?_, hsplits.cons l⟩
          rw [hnl]
          dsimp only
          rw [← l.length_encode, drop_left, hloop, TextLine.encode, append_assoc,
            take_left]
          simp [l.length_encode]

/-- What an iteration makes of the lines that are left. -/
structure Iterates (file : List UInt8) (offset : Nat) (lines ready later : List TextLine) :
    Prop where
  eq : lines = ready ++ later
  iteration : iteration file offset =
    (writeSegment (ready.map TextLine.body), offset + (ready.flatMap TextLine.encode).length)
  ready_le : (ready.flatMap TextLine.encode).length ≤ kPieceSize
  progress : ∀ l, lines.head? = some l → l.encode.length ≤ kPieceSize → ready ≠ []

/-- **An iteration** takes the lines that are complete in the next piece. -/
theorem iteration_eq (htail : newline ∉ tail)
    (hfile : file.drop offset = lines.flatMap TextLine.encode ++ tail) :
    ∃ ready later, Iterates file offset lines ready later ∧
      file.drop (iteration file offset).2 = later.flatMap TextLine.encode ++ tail := by
  have hbegins := take_prefix (min (file.length - offset) kPieceSize) (file.drop offset)
  have hlen := length_take (i := min (file.length - offset) kPieceSize) (l := file.drop offset)
  rw [length_drop] at hlen
  rw [hfile] at hbegins
  obtain ⟨ready, later, hitems, hsplits⟩ := itemsLoop_spec (Nat.le_refl _) htail hbegins
  have hiteration : iteration file offset =
      (writeSegment (ready.map TextLine.body), offset + (ready.flatMap TextLine.encode).length) := by
    unfold iteration
    simp only [hfile, hitems]
  rw [← hfile] at hsplits
  refine ⟨ready, later, ⟨hsplits.eq, hiteration, ?_, fun l hl hle hnil => ?_⟩, ?_⟩
  · have hle := hsplits.complete.length_le
    omega
  · subst hnil
    have hlater : later.head? = some l := by
      rw [← hl, hsplits.eq, nil_append]
    have hlt := hsplits.incomplete l hlater
    have htotal := congrArg List.length hfile
    obtain ⟨rest, hrest⟩ : ∃ rest, lines = l :: rest := by
      cases lines with
      | nil => cases hl
      | cons l' rest => exact ⟨rest, by rw [Option.some.inj hl]⟩
    rw [hrest, length_drop, flatMap_cons, length_append, length_append] at htotal
    simp only [flatMap_nil, length_nil] at hlt
    omega
  · rw [hiteration, ← drop_drop, hfile, hsplits.eq, flatMap_append, append_assoc,
      drop_left]

/-- The file ends with a newline, and every line fits in a piece. -/
def Regular (lines : List TextLine) (tail : List UInt8) : Prop :=
  tail = [] ∧ ∀ l ∈ lines, l.encode.length ≤ kPieceSize

instance (lines : List TextLine) (tail : List UInt8) : Decidable (Regular lines tail) :=
  inferInstanceAs (Decidable (_ ∧ _))

/-- An iteration goes on, as long as there are lines. -/
theorem Iterates.ready_ne_nil (h : Iterates file offset lines ready later)
    (hregular : Regular lines []) (hne : lines ≠ []) : ready ≠ [] := by
  obtain ⟨l, rest, rfl⟩ := exists_cons_of_ne_nil hne
  exact h.progress l rfl (hregular.2 l mem_cons_self)

theorem length_ready_le (ready : List TextLine) :
    ready.length ≤ (ready.flatMap TextLine.encode).length := by
  induction ready with
  | nil => simp
  | cons l ready ih =>
    have hpos := l.length_encode_pos
    rw [flatMap_cons, length_append, length_cons]
    omega

theorem Iterates.isSegment (h : Iterates file offset lines ready later) :
    IsSegment (writeSegment (ready.map TextLine.body)) := by
  have hle := h.ready_le
  have hlen := length_ready_le ready
  refine isSegment_writeSegment ?_
  rw [length_map]
  unfold kPieceSize at hle
  omega

theorem Regular.of_append (h : Regular lines tail) (heq : lines = ready ++ later) :
    Regular later tail := by
  refine ⟨h.1, fun l hl => h.2 l ?_⟩
  rw [heq]
  exact mem_append_right _ hl

/-- **The loop ends**: every iteration takes a line. -/
theorem sortSegmentsLoop_of_regular (hfuel : lines.length < fuel)
    (hregular : Regular lines []) (hfile : file.drop offset = lines.flatMap TextLine.encode ++ []) :
    ∃ segments, sortSegmentsLoop file fuel offset = .ok segments := by
  induction fuel generalizing offset lines with
  | zero => omega
  | succ fuel ih =>
    rw [sortSegmentsLoop]
    split_ifs with hmore
    · have hne : lines ≠ [] := by
        rintro rfl
        have hlen := congrArg List.length hfile
        rw [length_drop, flatMap_nil, append_nil, length_nil] at hlen
        omega
      obtain ⟨ready, later, hiterates, hrest⟩ := iteration_eq (by simp) hfile
      have hlater : later.length < fuel := by
        have hsum := congrArg List.length hiterates.eq
        have hone := length_pos_iff.mpr (hiterates.ready_ne_nil hregular hne)
        rw [length_append] at hsum
        omega
      obtain ⟨segments, hloop⟩ := ih hlater (hregular.of_append hiterates.eq) hrest
      refine ⟨(iteration file offset).1 :: segments, ?_⟩
      dsimp only
      rw [hloop]
      rfl
    · exact ⟨[], rfl⟩

/-- **The segments count the lines.** -/
theorem sortSegmentsLoop_counts {segments : List SegmentFile} (htail : newline ∉ tail)
    (hfile : file.drop offset = lines.flatMap TextLine.encode ++ tail)
    (hloop : sortSegmentsLoop file fuel offset = .ok segments) :
    (∀ segment ∈ segments, IsSegment segment) ∧
      ∀ word, countOf word segments.flatten = (lines.map TextLine.body).count word := by
  induction fuel generalizing offset lines segments with
  | zero => cases hloop
  | succ fuel ih =>
    rw [sortSegmentsLoop] at hloop
    split_ifs at hloop with hmore
    · obtain ⟨ready, later, hiterates, hrest⟩ := iteration_eq htail hfile
      dsimp only at hloop
      cases hlater : sortSegmentsLoop file fuel (iteration file offset).2 with
      | error e =>
        rw [hlater] at hloop
        cases hloop
      | ok rest =>
        obtain ⟨hsegments, hcount⟩ := ih hrest hlater
        rw [hlater, hiterates.iteration] at hloop
        obtain rfl := Except.ok.inj hloop
        refine ⟨forall_mem_cons.mpr ⟨hiterates.isSegment, hsegments⟩, fun word => ?_⟩
        rw [flatten_cons, countOf_append, countOf_writeSegment, hcount, hiterates.eq,
          map_append, count_append]
    · obtain rfl := Except.ok.inj hloop
      rw [drop_of_length_le (Nat.not_lt.mp hmore)] at hfile
      have hnil := flatMap_eq_nil_iff.mp (append_eq_nil_iff.mp hfile.symm).1
      obtain rfl : lines = [] := by
        cases lines with
        | nil => rfl
        | cons l lines =>
          have hpos := l.length_encode_pos
          rw [hnil l mem_cons_self] at hpos
          exact absurd hpos (by decide)
      exact ⟨by simp, fun word => rfl⟩

theorem lt_length_of_irregular (hirregular : ¬ Regular lines tail)
    (hfile : file.drop offset = lines.flatMap TextLine.encode ++ tail) : offset < file.length := by
  by_contra hend
  rw [drop_of_length_le (Nat.not_lt.mp hend)] at hfile
  obtain ⟨hlines, rfl⟩ := append_eq_nil_iff.mp hfile.symm
  refine hirregular ⟨rfl, fun l hl => ?_⟩
  have hnil := flatMap_eq_nil_iff.mp hlines l hl
  rw [hnil]
  exact Nat.zero_le _

/-- What is too long, and what is behind the last newline, is never taken. -/
theorem Iterates.irregular (h : Iterates file offset lines ready later)
    (hirregular : ¬ Regular lines tail) : ¬ Regular later tail := by
  rintro ⟨rfl, hlater⟩
  refine hirregular ⟨rfl, fun l hl => ?_⟩
  rw [h.eq] at hl
  obtain hl | hl := mem_append.mp hl
  · have hle : l.encode.length ≤ (ready.flatMap TextLine.encode).length :=
      List.Sublist.length_le (sublist_flatten_of_mem (mem_map_of_mem hl))
    exact Nat.le_trans hle h.ready_le
  · exact hlater l hl

theorem sortSegmentsLoop_diverges (htail : newline ∉ tail) (hirregular : ¬ Regular lines tail)
    (hfile : file.drop offset = lines.flatMap TextLine.encode ++ tail) (fuel : Nat) :
    sortSegmentsLoop file fuel offset = .error .diverges := by
  induction fuel generalizing offset lines with
  | zero => rfl
  | succ fuel ih =>
    obtain ⟨ready, later, hiterates, hrest⟩ := iteration_eq htail hfile
    have hloop := ih (hiterates.irregular hirregular) hrest
    rw [sortSegmentsLoop, if_pos (lt_length_of_irregular hirregular hfile)]
    dsimp only
    rw [hloop]
    rfl

/-- The offset after `k` iterations. -/
def offsetAt (file : List UInt8) : Nat → Nat
  | 0 => 0
  | k + 1 => (iteration file (offsetAt file k)).2

/-- Behind any number of iterations there are the last lines, and the tail. -/
theorem offsetAt_spec (htail : newline ∉ tail)
    (hfile : file = lines.flatMap TextLine.encode ++ tail) (k : Nat) :
    ∃ later, file.drop (offsetAt file k) = later.flatMap TextLine.encode ++ tail ∧
      (Regular later tail ↔ Regular lines tail) := by
  induction k with
  | zero => exact ⟨lines, hfile, Iff.rfl⟩
  | succ k ih =>
    obtain ⟨later, hdrop, hiff⟩ := ih
    obtain ⟨ready, later', hiterates, hrest⟩ := iteration_eq htail hdrop
    refine ⟨later', hrest, ?_, fun h => (hiff.mpr h).of_append hiterates.eq⟩
    exact fun h => hiff.mp (not_imp_not.mp hiterates.irregular h)

/-- **Every iteration advances**, exactly if the file is regular. -/
theorem advances_iff (htail : newline ∉ tail)
    (hfile : file = lines.flatMap TextLine.encode ++ tail) :
    (∀ k, offsetAt file k < file.length → offsetAt file k < offsetAt file (k + 1)) ↔
      Regular lines tail := by
  constructor
  · intro hadvance
    by_contra hirregular
    have hlt (k : Nat) : offsetAt file k < file.length := by
      obtain ⟨later, hdrop, hiff⟩ := offsetAt_spec htail hfile k
      exact lt_length_of_irregular (hiff.not.mpr hirregular) hdrop
    have hge (k : Nat) : k ≤ offsetAt file k := by
      induction k with
      | zero => exact Nat.zero_le _
      | succ k ih => exact Nat.lt_of_le_of_lt ih (hadvance k (hlt k))
    exact absurd (hlt file.length) (Nat.not_lt.mpr (hge file.length))
  · intro hregular k hmore
    obtain ⟨later, hdrop, hiff⟩ := offsetAt_spec htail hfile k
    obtain rfl := hregular.1
    obtain ⟨ready, later', hiterates, -⟩ := iteration_eq htail hdrop
    have hne : later ≠ [] := by
      rintro rfl
      have hlen := congrArg List.length hdrop
      rw [length_drop, flatMap_nil, append_nil, length_nil] at hlen
      omega
    have hpos := length_pos_iff.mpr (hiterates.ready_ne_nil (hiff.mpr hregular) hne)
    have hle := length_ready_le ready
    rw [offsetAt, hiterates.iteration]
    dsimp only
    omega

end

/-- **`sort_segments`.**  The loop ends exactly if the file ends with a newline, if it is not
empty, and no line is longer than a piece.  Then every iteration advances, and the segments
together count every line of the file. -/
theorem sort_segments_exact (file : List UInt8) : ∃ (lines : List TextLine) (tail : List UInt8),
    newline ∉ tail ∧ file = lines.flatMap TextLine.encode ++ tail ∧
    ((∃ fuel segments, sortSegments file fuel = .ok segments) ↔ Regular lines tail) ∧
    ((∀ k, offsetAt file k < file.length → offsetAt file k < offsetAt file (k + 1)) ↔
      Regular lines tail) ∧
    ∀ fuel segments, sortSegments file fuel = .ok segments →
      (∀ segment ∈ segments, IsSegment segment) ∧
      ∀ word, countOf word segments.flatten = (lines.map TextLine.body).count word := by
  obtain ⟨lines, tail, htail, hfile⟩ := exists_lines file
  have hdrop : file.drop 0 = lines.flatMap TextLine.encode ++ tail := hfile
  refine ⟨lines, tail, htail, hfile, ⟨?_, fun hregular => ?_⟩, advances_iff htail hfile,
    fun fuel segments hloop => sortSegmentsLoop_counts htail hdrop hloop⟩
  · rintro ⟨fuel, segments, hloop⟩
    by_contra hirregular
    rw [sortSegments, sortSegmentsLoop_diverges htail hirregular hdrop] at hloop
    cases hloop
  · obtain rfl := hregular.1
    exact ⟨lines.length + 1, sortSegmentsLoop_of_regular (Nat.lt_succ_self _) hregular hdrop⟩

/-- **A last line without a newline** is never taken: the loop stays at offset 0. -/
theorem unterminated_diverges :
    (∀ fuel, sortSegments [97] fuel = .error .diverges) ∧ offsetAt [97] 1 = 0 :=
  ⟨sortSegmentsLoop_diverges (by decide : newline ∉ [97]) (by decide : ¬ Regular [] [97]) rfl,
    by decide⟩

end Muduo.Topk
