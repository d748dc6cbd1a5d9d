import Mathlib.Algebra.Order.BigOperators.Group.List
import Mathlib.Data.List.Induction
import Mathlib.Data.List.Nodup
import Muduo.Lib.KWayMerge
import Muduo.Topk.SegmentInput

/-!
# Muduo.Topk.Combine

`combine` of `recipes/topk/word_freq_sort_basic.cc`, which merges the segment files and writes
the count files.

The files are given with the buffers of their readers.  `ndebug` tells whether the assertions
are compiled out.  `adds` lists the calls of `CountOutput::add`.

`combine` meets the words in increasing order, and asserts that they are decreasing.
-/

namespace Muduo.Topk

open Lib

/-! ## `CountOutput` -/

structure Count where
  count : Int
  offset : Nat
  len : Nat
deriving DecidableEq, Repr

/-- The words are in front of `start`, which is the length of `data`. -/
structure Block where
  data : List UInt8
  counts : List Count
deriving DecidableEq, Repr

namespace Block

def empty : Block := ⟨[], []⟩

/-- Nothing when the word does not fit. -/
def add (kSize : Nat) (b : Block) (word : List UInt8) (count : Int) : Option Block :=
  if word.length ≤ kSize - b.data.length then
    some ⟨b.data ++ word, b.counts ++ [⟨count, b.data.length, word.length⟩]⟩
  else none

/-- The word and the count of an element of `counts`. -/
def entry (b : Block) (c : Count) : List UInt8 × Int :=
  (slice b.data c.offset (c.offset + c.len), c.count)

end Block

/-- What `std::sort` makes of the counts of the block `n`, in descending order. -/
structure Sorter where
  sort : Nat → List Count → List Count
  perm : ∀ n cs, (sort n cs).Perm cs
  sorted : ∀ n cs, (sort n cs).Pairwise fun c c' => c'.count ≤ c.count

/-- The lines of the count file `n`. -/
def Block.output (sorter : Sorter) (b : Block) (n : Nat) : List (List UInt8 × Int) :=
  (sorter.sort n b.counts).map b.entry

structure CountOutput where
  block : Block
  files : List (List (List UInt8 × Int))
  mergeCount : Nat
deriving DecidableEq, Repr

namespace CountOutput

def create : CountOutput := ⟨.empty, [], 0⟩

/-- `block_->output(merge_count_); ++merge_count_` -/
def write (sorter : Sorter) (out : CountOutput) : CountOutput :=
  { out with
    files := out.files ++ [out.block.output sorter out.mergeCount]
    mergeCount := out.mergeCount + 1 }

def add (kSize : Nat) (sorter : Sorter) (out : CountOutput) (word : List UInt8) (count : Int) :
    Except Fault CountOutput :=
  match out.block.add kSize word count with
  | some block => .ok { out with block }
  | none =>
    match Block.empty.add kSize word count with
    | some block => .ok { out.write sorter with block }
    | none => .error .abort

def finish (sorter : Sorter) (out : CountOutput) : CountOutput := out.write sorter

end CountOutput

/-! ## `combine` -/

structure Segment where
  word : List UInt8
  input : SegmentInput
deriving DecidableEq, Repr

namespace Segment

def next (s : Segment) : Except Fault (Option Segment) := do
  let (more, input) ← s.input.next
  return if more then some ⟨input.word, input⟩ else none

def count (s : Segment) : Int := s.input.count

end Segment

/-- The sum of two `int64_t` -/
def addInt64 (a b : Int) : Except Fault Int := do
  check .overflow (-2 ^ 63 ≤ a + b ∧ a + b < 2 ^ 63)
  return a + b

structure Combine where
  last : List UInt8
  lastCount : Int
  totalCount : Int
  out : CountOutput
  adds : List (List UInt8 × Int)
deriving DecidableEq, Repr

namespace Combine

/-- `last` is `"Chen Shuo"` at first, with the count 0. -/
def create : Combine where
  last := [67, 104, 101, 110, 32, 83, 104, 117, 111]
  lastCount := 0
  totalCount := 0
  out := .create
  adds := []

section
variable (ndebug : Bool) (kSize : Nat) (sorter : Sorter)

/-- `out.add(last, last_count)` -/
def addLast (s : Combine) : Except Fault Combine := do
  let out ← s.out.add kSize sorter s.last s.lastCount
  return { s with out, adds := s.adds ++ [(s.last, s.lastCount)] }

/-- What is done with `last` when another word comes. -/
def change (s : Combine) (word : List UInt8) : Except Fault Combine :=
  if 0 < s.lastCount then do
    check .assertion (ndebug = true ∨ word < s.last)
    s.addLast kSize sorter
  else .ok s

/-- The body of the loop. -/
def step (s : Combine) (e : List UInt8 × Int) : Except Fault Combine := do
  let totalCount ← addInt64 s.totalCount e.2
  if e.1 ≠ s.last then
    let s ← s.change ndebug kSize sorter e.1
    return { s with last := e.1, lastCount := e.2, totalCount }
  else
    let lastCount ← addInt64 s.lastCount e.2
    return { s with lastCount, totalCount }

/-- The last word, after the loop. -/
def flush (s : Combine) : Except Fault Combine :=
  if 0 < s.lastCount then s.addLast kSize sorter else .ok s

/-- What is done after the loop. -/
def finish (s : Combine) : Except Fault Combine := do
  let s ← s.flush kSize sorter
  return { s with out := s.out.finish sorter }

end

end Combine

/-- A file, and what is in the buffer that its reader allocates. -/
structure InputFile where
  file : List UInt8
  data : List UInt8

/-- The readers of the files that have a line. -/
def openSegments : List InputFile → Except Fault (List Segment)
  | [] => .ok []
  | f :: files => do
    let rec? ← Segment.next ⟨[], .create f.file f.data⟩
    let keys ← openSegments files
    return rec?.toList ++ keys

/-- `combine`.  The loop has at most one iteration for each byte of the files. -/
def combine (ndebug : Bool) (heap : Heap fun a b : List UInt8 => a ≤ b) (sorter : Sorter)
    (kSize : Nat) (files : List InputFile) : Except Fault Combine := do
  let keys ← openSegments files
  let s ← heap.loop Segment.word Segment.next
    (fun s key => s.step ndebug kSize sorter (key.word, key.count)) Fault.diverges
    ((files.map fun f => f.file.length).sum + 1) 0 keys Combine.create
  s.finish kSize sorter

/-! ## count files -/

namespace Block

/-- The counts refer to words in front of `start`. -/
def WF (b : Block) : Prop := ∀ c ∈ b.counts, c.offset + c.len ≤ b.data.length

def entries (b : Block) : List (List UInt8 × Int) := b.counts.map b.entry

theorem entry_append {b : Block} {c : Count} (hc : c.offset + c.len ≤ b.data.length)
    (word : List UInt8) (counts : List Count) : entry ⟨b.data ++ word, counts⟩ c = b.entry c := by
  unfold entry
  dsimp only
  rw [slice_append_right _ _ hc]

theorem add_spec {kSize : Nat} {b b' : Block} (h : b.WF) {word : List UInt8} {count : Int}
    (hadd : b.add kSize word count = some b') :
    b'.WF ∧ b'.entries = b.entries ++ [(word, count)] := by
  unfold add at hadd
  split_ifs at hadd
  obtain rfl := Option.some.inj hadd
  constructor
  · intro c hc
    simp only [List.mem_append, List.mem_singleton, List.length_append] at hc ⊢
    obtain hc | rfl := hc
    · exact Nat.le_trans (h c hc) (Nat.le_add_right _ _)
    · exact Nat.le_refl _
  · have hword : entry ⟨b.data ++ word, b.counts ++ [⟨count, b.data.length, word.length⟩]⟩
        ⟨count, b.data.length, word.length⟩ = (word, count) := by
      simp [entry, slice]
    rw [entries, entries, List.map_append, List.map_singleton, hword]
    congr 1
    exact List.map_congr_left fun c hc => entry_append (h c hc) _ _

theorem wf_empty : empty.WF := by simp [WF, empty]

theorem add_empty {kSize : Nat} {word : List UInt8} (h : word.length ≤ kSize) (count : Int) :
    ∃ b, empty.add kSize word count = some b ∧ b.WF ∧ b.entries = [(word, count)] := by
  obtain ⟨b, hadd⟩ : ∃ b, empty.add kSize word count = some b := ⟨_, if_pos h⟩
  exact ⟨b, hadd, add_spec wf_empty hadd⟩

end Block

/-- The lines of a count file are in order. -/
def Descending (file : List (List UInt8 × Int)) : Prop := file.Pairwise fun e e' => e'.2 ≤ e.2

theorem descending_output (sorter : Sorter) (b : Block) (n : Nat) :
    Descending (b.output sorter n) :=
  List.pairwise_map.mpr (sorter.sorted n b.counts)

theorem output_perm (sorter : Sorter) (b : Block) (n : Nat) : (b.output sorter n).Perm b.entries :=
  (sorter.perm n b.counts).map b.entry

/-- What has been added is in the files or in the block. -/
structure Filed (adds : List (List UInt8 × Int)) (out : CountOutput) : Prop where
  wf : out.block.WF
  perm : (out.files.flatten ++ out.block.entries).Perm adds
  descending : ∀ file ∈ out.files, Descending file

section
variable {adds : List (List UInt8 × Int)} {out : CountOutput} {kSize : Nat} {word : List UInt8}

theorem filed_create : Filed [] .create where
  wf := Block.wf_empty
  perm := List.Perm.refl _
  descending := by simp [CountOutput.create]

theorem Filed.write (h : Filed adds out) (sorter : Sorter) :
    (out.write sorter).files.flatten.Perm adds ∧
      ∀ file ∈ (out.write sorter).files, Descending file := by
  constructor
  · rw [CountOutput.write, List.flatten_append, List.flatten_singleton]
    exact ((output_perm sorter out.block out.mergeCount).append_left _).trans h.perm
  · intro file hfile
    rw [CountOutput.write, List.mem_append, List.mem_singleton] at hfile
    obtain hfile | rfl := hfile
    · exact h.descending file hfile
    · exact descending_output sorter out.block out.mergeCount

/-- **`add`** keeps the word, and begins another file when the block is full. -/
theorem Filed.add (h : Filed adds out) (sorter : Sorter) (hword : word.length ≤ kSize)
    (count : Int) :
    ∃ out', out.add kSize sorter word count = .ok out' ∧ Filed (adds ++ [(word, count)]) out' := by
  unfold CountOutput.add
  cases hadd : out.block.add kSize word count with
  | some b =>
    obtain ⟨hwf, hentries⟩ := Block.add_spec h.wf hadd
    refine ⟨_, rfl, hwf, ?_, h.descending⟩
    rw [hentries, ← List.append_assoc]
    exact h.perm.append_right _
  | none =>
    obtain ⟨b, hempty, hwf, hentries⟩ := Block.add_empty hword count
    obtain ⟨hperm, hdescending⟩ := h.write sorter
    dsimp only
    rw [hempty]
    refine ⟨_, rfl, hwf, ?_, hdescending⟩
    rw [hentries]
    exact hperm.append_right _

end

/-! ## groups of equal words -/

/-- The counts of a word, all together. -/
def totalOf (word : List UInt8) (es : List (List UInt8 × Int)) : Int :=
  ((es.filter (·.1 = word)).map (·.2)).sum

/-- One entry for each run of entries with the same word. -/
def group (word : List UInt8) (count : Int) :
    List (List UInt8 × Int) → List (List UInt8 × Int)
  | [] => [(word, count)]
  | e :: es => if e.1 = word then group word (count + e.2) es else (word, count) :: group e.1 e.2 es

section
variable {w word : List UInt8} {count : Int} {e : List UInt8 × Int}
  {es es' : List (List UInt8 × Int)}

theorem totalOf_cons (w : List UInt8) (e : List UInt8 × Int) (es : List (List UInt8 × Int)) :
    totalOf w (e :: es) = (if e.1 = w then e.2 else 0) + totalOf w es := by
  by_cases h : e.1 = w <;> simp [totalOf, h]

theorem totalOf_perm (w : List UInt8) (h : es.Perm es') : totalOf w es = totalOf w es' :=
  ((h.filter _).map _).sum_eq

theorem totalOf_group (w : List UInt8) :
    totalOf w (group word count es) = totalOf w ((word, count) :: es) := by
  induction es generalizing word count with
  | nil => rfl
  | cons e es ih =>
    rw [group]
    split_ifs with h
    · simp only [ih, totalOf_cons, h]
      split_ifs <;> omega
    · rw [totalOf_cons, ih, ← totalOf_cons]

theorem mem_words_group :
    w ∈ (group word count es).map (·.1) ↔ w ∈ ((word, count) :: es).map (·.1) := by
  induction es generalizing word count with
  | nil => rfl
  | cons e es ih =>
    rw [group]
    split_ifs with h
    · simp [ih, h]
    · simp only [List.map_cons, List.mem_cons, ih]

/-- The groups of sorted entries are strictly increasing. -/
theorem pairwise_group (h : ((word, count) :: es).Pairwise fun e e' => e.1 ≤ e'.1) :
    (group word count es).Pairwise fun e e' => e.1 < e'.1 := by
  induction es generalizing word count with
  | nil => exact List.pairwise_singleton _ _
  | cons e es ih =>
    obtain ⟨hword, hes⟩ := List.pairwise_cons.mp h
    rw [group]
    split_ifs with heq
    · exact ih (List.pairwise_cons.mpr ⟨fun x hx => hword x (List.mem_cons_of_mem e hx), hes.of_cons⟩)
    · refine List.pairwise_cons.mpr ⟨fun x hx => ?_, ih hes⟩
      have hlt : word < e.1 := Std.lt_of_le_of_ne (hword e List.mem_cons_self) (Ne.symm heq)
      obtain ⟨y, hy, hxy⟩ := List.mem_map.mp (mem_words_group.mp (List.mem_map_of_mem hx))
      obtain rfl | hy := List.mem_cons.mp hy
      · exact hxy ▸ hlt
      · exact hxy ▸ Std.lt_of_lt_of_le hlt ((List.pairwise_cons.mp hes).1 y hy)

theorem totalOf_of_mem (h : es.Pairwise fun e e' => e.1 < e'.1) (he : e ∈ es) :
    totalOf e.1 es = e.2 := by
  have hzero {l : List (List UInt8 × Int)} (hl : ∀ x ∈ l, x.1 ≠ e.1) : totalOf e.1 l = 0 := by
    rw [totalOf, List.filter_eq_nil_iff.mpr fun x hx => by simpa using hl x hx]
    rfl
  induction es with
  | nil => cases he
  | cons x es ih =>
    obtain ⟨hx, hes⟩ := List.pairwise_cons.mp h
    rw [totalOf_cons]
    obtain rfl | he := List.mem_cons.mp he
    · rw [if_pos rfl, hzero fun y hy heq => List.lt_irrefl _ (heq ▸ hx y hy), Int.add_zero]
    · rw [if_neg fun heq => List.lt_irrefl _ (heq ▸ hx e he), ih hes he, Int.zero_add]

/-- `m` has each word of `es` once, with the sum of its counts. -/
structure Tally (es m : List (List UInt8 × Int)) : Prop where
  ordered : m.Pairwise fun e e' => e.1 < e'.1
  words : ∀ w, w ∈ m.map (·.1) ↔ w ∈ es.map (·.1)
  total : ∀ w, totalOf w m = totalOf w es

theorem tally_group (h : ((word, count) :: es).Pairwise fun e e' => e.1 ≤ e'.1) :
    Tally ((word, count) :: es) (group word count es) :=
  ⟨pairwise_group h, fun _ => mem_words_group, totalOf_group⟩

theorem Tally.mem_iff {m : List (List UInt8 × Int)} (h : Tally es m) :
    (w, count) ∈ m ↔ w ∈ es.map (·.1) ∧ count = totalOf w es := by
  rw [← h.words, ← h.total]
  constructor
  · intro hmem
    exact ⟨List.mem_map_of_mem hmem, (totalOf_of_mem h.ordered hmem).symm⟩
  · rintro ⟨hmem, rfl⟩
    obtain ⟨e, he, rfl⟩ := List.mem_map.mp hmem
    rwa [totalOf_of_mem h.ordered he]

theorem Tally.count_eq_one {m m' : List (List UInt8 × Int)} (h : Tally es m) (hperm : m'.Perm m)
    (hw : w ∈ es.map (·.1)) : (m'.map (·.1)).count w = 1 := by
  refine ((hperm.map _).count_eq w).trans (List.count_eq_one_of_mem ?_ ((h.words w).mpr hw))
  refine List.pairwise_map.mpr (h.ordered.imp ?_)
  exact fun {e e'} hlt heq => List.lt_irrefl e'.1 (heq ▸ hlt)

end

/-- What `combine` makes of the entries `es`. -/
structure Combined (es : List (List UInt8 × Int)) (r : Combine) : Prop where
  ordered : r.adds.Pairwise fun e e' => e.1 < e'.1
  adds : ∀ w c, (w, c) ∈ r.adds ↔ w ∈ es.map (·.1) ∧ c = totalOf w es
  files : r.out.files.flatten.Perm r.adds
  once : ∀ w ∈ es.map (·.1), (r.out.files.flatten.map (·.1)).count w = 1
  descending : ∀ file ∈ r.out.files, Descending file

/-- What `combine` needs of the entries that it meets. -/
structure Stream (kSize : Nat) (es : List (List UInt8 × Int)) : Prop where
  positive : ∀ e ∈ es, 1 ≤ e.2
  size : ∀ e ∈ es, e.1.length ≤ kSize

theorem Stream.of_cons {kSize : Nat} {e : List UInt8 × Int} {es : List (List UInt8 × Int)}
    (h : Stream kSize (e :: es)) : Stream kSize es :=
  ⟨fun x hx => h.positive x (List.mem_cons_of_mem e hx),
    fun x hx => h.size x (List.mem_cons_of_mem e hx)⟩

theorem Stream.sum_nonneg {kSize : Nat} {es : List (List UInt8 × Int)} (h : Stream kSize es) :
    0 ≤ (es.map (·.2)).sum := by
  refine List.sum_nonneg fun c hc => ?_
  obtain ⟨e, he, rfl⟩ := List.mem_map.mp hc
  exact Int.le_of_lt (h.positive e he)

/-- The loop is in the middle of the group of `last`. -/
structure Grouping (kSize : Nat) (s : Combine) : Prop where
  positive : 0 < s.lastCount
  size : s.last.length ≤ kSize
  count_le : s.lastCount ≤ s.totalCount
  filed : Filed s.adds s.out

namespace Combine

section
variable {kSize : Nat} {ndebug : Bool} {sorter : Sorter} {s : Combine} {e : List UInt8 × Int}
  {es : List (List UInt8 × Int)}

theorem addInt64_of_lt {a b : Int} (ha : 0 ≤ a) (hb : 0 ≤ b) (h : a + b < 2 ^ 63) :
    addInt64 a b = .ok (a + b) := by
  rw [addInt64, check_of (by omega)]
  rfl

/-- `last` is added. -/
theorem addLast_spec (h : Grouping kSize s) (sorter : Sorter) :
    ∃ out, s.addLast kSize sorter = .ok { s with out, adds := s.adds ++ [(s.last, s.lastCount)] } ∧
      Filed (s.adds ++ [(s.last, s.lastCount)]) out := by
  obtain ⟨out, hadd, hfiled⟩ := h.filed.add sorter h.size s.lastCount
  rw [addLast, hadd]
  exact ⟨out, rfl, hfiled⟩

/-- **An iteration** goes on with the group, or begins another one. -/
theorem step_spec (h : Grouping kSize s) (sorter : Sorter) (he : 1 ≤ e.2)
    (hsize : e.1.length ≤ kSize) (hsum : s.totalCount + e.2 < 2 ^ 63)
    (hok : e.1 = s.last ∨ ndebug = true) :
    ∃ s', s.step ndebug kSize sorter e = .ok s' ∧ Grouping kSize s' ∧
      s'.totalCount = s.totalCount + e.2 ∧ s'.last = e.1 ∧
      ∀ es, s'.adds ++ group s'.last s'.lastCount es = s.adds ++ group s.last s.lastCount (e :: es) := by
  obtain ⟨hpos, hlast, hle, hfiled⟩ := h
  rw [step, addInt64_of_lt (by omega) (by omega) hsum, ok_bind]
  by_cases hword : e.1 = s.last
  · rw [if_neg (not_not.mpr hword), addInt64_of_lt (by omega) (by omega) (by omega)]
    refine ⟨_, rfl, ⟨?_, hlast, ?_, hfiled⟩, rfl, hword.symm, fun es => ?_⟩
    · exact Int.add_pos hpos he
    · exact Int.add_le_add_right hle e.2
    · rw [group, if_pos hword]
  · obtain ⟨out, hadd, hfiled⟩ := addLast_spec ⟨hpos, hlast, hle, hfiled⟩ sorter
    rw [if_pos hword, change, if_pos hpos, check_of (.inl (hok.resolve_left hword)), ok_bind, hadd]
    refine ⟨_, rfl, ⟨he, hsize, ?_, hfiled⟩, rfl, rfl, fun es => ?_⟩
    · exact Int.le_add_of_nonneg_left (by omega)
    · rw [group, if_neg hword, List.append_assoc]
      rfl

/-- The loop, and what is done behind it. -/
theorem run_spec (h : Grouping kSize s) (sorter : Sorter) (hes : Stream kSize es)
    (hsum : s.totalCount + (es.map (·.2)).sum < 2 ^ 63)
    (hok : ndebug = true ∨ ∀ e ∈ es, e.1 = s.last) :
    ∃ r, es.foldlM (step ndebug kSize sorter) s >>= finish kSize sorter = .ok r ∧
      r.adds = s.adds ++ group s.last s.lastCount es ∧ r.out.files.flatten.Perm r.adds ∧
      ∀ file ∈ r.out.files, Descending file := by
  induction es generalizing s with
  | nil =>
    obtain ⟨out, hadd, hfiled⟩ := addLast_spec h sorter
    rw [List.foldlM_nil, pure_bind, finish, flush, if_pos h.positive, hadd]
    exact ⟨_, rfl, rfl, hfiled.write sorter⟩
  | cons e es ih =>
    have hrest := hes.of_cons.sum_nonneg
    rw [List.map_cons, List.sum_cons] at hsum
    obtain ⟨s', hstep, hs', htotal, hlast, hgroup⟩ := step_spec h sorter
      (hes.positive e List.mem_cons_self) (hes.size e List.mem_cons_self) (by omega)
      (hok.symm.imp_left fun hall => hall e List.mem_cons_self)
    rw [List.foldlM_cons, hstep, ok_bind, ← hgroup]
    refine ih hs' hes.of_cons (by omega) (hok.imp_right fun hall x hx => ?_)
    rw [hlast, hall e List.mem_cons_self, hall x (List.mem_cons_of_mem e hx)]

/-- **The assertion fails** at the first word behind `last`. -/
theorem run_fails (h : Grouping kSize s) (sorter : Sorter) (hes : Stream kSize es)
    (hsum : s.totalCount + (es.map (·.2)).sum < 2 ^ 63) (hle : ∀ e ∈ es, s.last ≤ e.1)
    (hother : ∃ e ∈ es, e.1 ≠ s.last) :
    es.foldlM (step false kSize sorter) s = .error .assertion := by
  induction es generalizing s with
  | nil => simp at hother
  | cons e es ih =>
    have hrest := hes.of_cons.sum_nonneg
    have he := hes.positive e List.mem_cons_self
    rw [List.map_cons, List.sum_cons] at hsum
    rw [List.foldlM_cons]
    by_cases hword : e.1 = s.last
    · obtain ⟨s', hstep, hs', htotal, hlast, -⟩ := step_spec h sorter he
        (hes.size e List.mem_cons_self) (by omega) (.inl hword)
      rw [hstep, ok_bind]
      refine ih hs' hes.of_cons (by omega) (fun x hx => ?_) ?_
      · rw [hlast, hword]
        exact hle x (List.mem_cons_of_mem e hx)
      · obtain ⟨x, hx, hne⟩ := hother
        obtain rfl | hx := List.mem_cons.mp hx
        · exact absurd hword hne
        · exact ⟨x, hx, by rwa [hlast, hword]⟩
    · have hpos := h.positive
      have hcount := h.count_le
      have hnot : ¬(false = true ∨ e.1 < s.last) := by
        simpa using hle e List.mem_cons_self
      rw [step, addInt64_of_lt (by omega) (by omega) (by omega), ok_bind, if_pos hword, change,
        if_pos hpos, check_of_not hnot]
      rfl

/-- The first entry begins a group, also when its word is the one that `last` begins with. -/
theorem step_create (ndebug : Bool) (sorter : Sorter) (he : 1 ≤ e.2) (hsize : e.1.length ≤ kSize)
    (hsum : e.2 < 2 ^ 63) :
    ∃ s, create.step ndebug kSize sorter e = .ok s ∧ Grouping kSize s ∧ s.last = e.1 ∧
      s.lastCount = e.2 ∧ s.totalCount = e.2 ∧ s.adds = [] := by
  have hadd : addInt64 0 e.2 = .ok e.2 := by
    rw [addInt64_of_lt (by omega) (by omega) (by omega), Int.zero_add]
  have hstep : create.step ndebug kSize sorter e = .ok ⟨e.1, e.2, e.2, .create, []⟩ := by
    by_cases hword : e.1 = create.last
    · simp only [step, create, hadd, hword, ok_bind]
      rfl
    · simp only [step, if_pos hword]
      simp only [create, hadd, ok_bind, change]
      rfl
  exact ⟨_, hstep, ⟨he, hsize, Int.le_refl _, filed_create⟩, rfl, rfl, rfl, rfl⟩

/-- The words of the entries are all the same. -/
def Single (es : List (List UInt8 × Int)) : Prop := ∀ x ∈ es, ∀ y ∈ es, x.1 = y.1

/-- **The result of `combine`** on the entries in order. -/
theorem stream_spec (ndebug : Bool) (sorter : Sorter) (hes : Stream kSize es)
    (hsorted : es.Pairwise fun e e' => e.1 ≤ e'.1) (hsum : (es.map (·.2)).sum < 2 ^ 63) :
    (ndebug = true ∨ Single es →
      ∃ r, es.foldlM (step ndebug kSize sorter) create >>= finish kSize sorter = .ok r ∧
        Combined es r) ∧
    (¬(ndebug = true ∨ Single es) →
      es.foldlM (step ndebug kSize sorter) create >>= finish kSize sorter = .error .assertion) := by
  cases es with
  | nil =>
    refine ⟨fun _ => ⟨_, rfl, ?_⟩, fun h => absurd (.inr (by simp [Single])) h⟩
    obtain ⟨hperm, hdescending⟩ := filed_create.write sorter
    exact ⟨List.Pairwise.nil, by simp [create], hperm, by simp, hdescending⟩
  | cons e es =>
    have hrest := hes.of_cons.sum_nonneg
    rw [List.map_cons, List.sum_cons] at hsum
    obtain ⟨s, hstep, hs, hlast, hcount, htotal, hadds⟩ := step_create ndebug sorter
      (hes.positive e List.mem_cons_self) (hes.size e List.mem_cons_self) (by omega)
    rw [List.foldlM_cons, hstep, ok_bind]
    constructor
    · intro hok
      obtain ⟨r, hrun, hgroup, hfiles, hdescending⟩ := run_spec hs sorter hes.of_cons (by omega)
        (hok.imp_right fun hsingle x hx => by
          rw [hlast, hsingle x (List.mem_cons_of_mem e hx) e List.mem_cons_self])
      rw [hadds, hlast, hcount] at hgroup
      have htally : Tally (e :: es) r.adds := hgroup ▸ tally_group hsorted
      exact ⟨r, hrun, htally.ordered, fun w c => htally.mem_iff, hfiles,
        fun w => htally.count_eq_one hfiles, hdescending⟩
    · intro hnot
      obtain ⟨hdebug, hsingle⟩ := not_or.mp hnot
      obtain rfl := Bool.eq_false_iff.mpr hdebug
      have hother : ∃ x ∈ es, x.1 ≠ s.last := by
        by_contra hall
        simp only [not_exists, not_and, not_not] at hall
        have hword : ∀ x ∈ e :: es, x.1 = e.1 :=
          List.forall_mem_cons.mpr ⟨rfl, fun x hx => (hall x hx).trans hlast⟩
        exact hsingle fun x hx y hy => (hword x hx).trans (hword y hy).symm
      rw [run_fails hs sorter hes.of_cons (by omega)
        (hlast ▸ (List.pairwise_cons.mp hsorted).1) hother]
      rfl

end

end Combine

end Muduo.Topk
