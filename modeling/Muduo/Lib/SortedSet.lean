import Mathlib.Algebra.Order.Ring.Int
import Mathlib.Data.List.Basic

/-!
# Muduo.Lib.SortedSet

An ordered set without repetitions, kept as its strictly increasing list of
elements: what `std::set` is for the code that uses it.

Every operation has one lemma about membership and one about the size; the
order of the elements is a field of the structure, so it is never proved
again outside this module.
-/

namespace Lib

open List

/-- A finite set with its elements in increasing order. -/
structure SortedSet (α : Type u) [LinearOrder α] where
  elems : List α
  sorted : elems.Pairwise (· < ·)
  deriving DecidableEq

namespace SortedSet

variable {α : Type u} [LinearOrder α]

def empty : SortedSet α := ⟨[], .nil⟩

instance : Membership α (SortedSet α) := ⟨fun s x => x ∈ s.elems⟩

variable {s : SortedSet α} {x : α} {l : List α}

theorem mem_def : x ∈ s ↔ x ∈ s.elems := Iff.rfl

instance {s : SortedSet α} {x : α} : Decidable (x ∈ s) := decidable_of_iff _ mem_def.symm

@[simp] theorem not_mem_empty (x : α) : ¬ x ∈ (empty : SortedSet α) := by
  simp [mem_def, empty]

def size (s : SortedSet α) : Nat := s.elems.length

/-- The least element, `*begin()`, when there is one. -/
def begin (s : SortedSet α) : Option α := s.elems.head?

theorem nodup (s : SortedSet α) : s.elems.Nodup :=
  s.sorted.imp fun h => ne_of_lt h

theorem begin_eq_none : s.begin = none ↔ ∀ x, ¬ x ∈ s := by
  simp [begin, mem_def, List.head?_eq_none_iff, eq_nil_iff_forall_not_mem]

theorem mem_of_begin (h : s.begin = some x) : x ∈ s :=
  mem_of_head? h

theorem begin_le {x y : α} (h : s.begin = some x) (hy : y ∈ s) : x ≤ y := by
  obtain ⟨elems, sorted⟩ := s
  cases elems with
  | nil => cases h
  | cons z zs =>
    obtain rfl : z = x := Option.some.inj h
    rcases mem_cons.mp hy with hz | hz
    · exact le_of_eq hz.symm
    · exact le_of_lt (rel_of_pairwise_cons sorted hz)

/-! ## insert -/

/-- Put `x` at its place in an increasing list that does not have it. -/
def insertList (x : α) : List α → List α
  | [] => [x]
  | y :: ys => if x < y then x :: y :: ys else if x = y then y :: ys else y :: insertList x ys

theorem mem_insertList {x z : α} : z ∈ insertList x l ↔ z = x ∨ z ∈ l := by
  induction l with
  | nil => simp [insertList]
  | cons y ys ih => grind [insertList]

theorem insertList_sorted (h : l.Pairwise (· < ·)) : (insertList x l).Pairwise (· < ·) := by
  induction l with
  | nil => simp [insertList]
  | cons y ys ih =>
    obtain ⟨hy, hys⟩ := pairwise_cons.mp h
    rw [insertList]
    split
    · rename_i hlt
      rw [pairwise_cons]
      constructor
      · intro z hz
        rcases mem_cons.mp hz with hz | hz
        · exact lt_of_lt_of_eq hlt hz.symm
        · exact lt_trans hlt (hy z hz)
      · exact h
    · split
      · exact h
      · rename_i hlt hne
        rw [pairwise_cons]
        constructor
        · intro z hz
          rcases mem_insertList.mp hz with hz | hz
          · exact hz ▸ lt_of_le_of_ne (not_lt.mp hlt) (Ne.symm hne)
          · exact hy z hz
        · exact ih hys

theorem insertList_perm (h : ¬ x ∈ l) : (insertList x l).Perm (x :: l) := by
  induction l with
  | nil => exact .refl _
  | cons y ys ih =>
    obtain ⟨hne, hys⟩ := not_or.mp (mt mem_cons.mpr h)
    rw [insertList, if_neg hne]
    split
    · exact .refl _
    · exact ((ih hys).cons y).trans (.swap x y ys)

/-- `insert(x)`: the set with `x`, and whether `x` was new. -/
def insert (s : SortedSet α) (x : α) : SortedSet α × Bool :=
  (⟨insertList x s.elems, insertList_sorted s.sorted⟩, decide (¬ x ∈ s))

@[simp] theorem mem_insert {x y : α} : y ∈ (s.insert x).1 ↔ y = x ∨ y ∈ s := mem_insertList

theorem size_insert (h : ¬ x ∈ s) : (s.insert x).1.size = s.size + 1 := (insertList_perm h).length_eq

theorem insert_perm (h : ¬ x ∈ s) : (s.insert x).1.elems.Perm (x :: s.elems) := insertList_perm h

theorem insert_new : (s.insert x).2 = true ↔ ¬ x ∈ s := by
  simp [insert]

/-! ## erase -/

/-- `erase(x)`: the set without `x`, and the number of elements removed. -/
def erase (s : SortedSet α) (x : α) : SortedSet α × Nat :=
  (⟨s.elems.erase x, s.sorted.sublist erase_sublist⟩, if x ∈ s then 1 else 0)

@[simp] theorem mem_erase {x y : α} : y ∈ (s.erase x).1 ↔ y ≠ x ∧ y ∈ s := s.nodup.mem_erase_iff

theorem size_erase (h : x ∈ s) : (s.erase x).1.size + 1 = s.size :=
  length_erase_add_one h

theorem erase_perm (h : x ∈ s) : s.elems.Perm (x :: (s.erase x).1.elems) := perm_cons_erase h

theorem erase_count (h : x ∈ s) : (s.erase x).2 = 1 := if_pos h

/-! ## lower_bound -/

/-- The elements in `[begin(), lower_bound(x))`. -/
def below (s : SortedSet α) (x : α) : List α := s.elems.takeWhile (· < x)

/-- What `erase(begin(), lower_bound(x))` leaves. -/
def notBelow (s : SortedSet α) (x : α) : SortedSet α :=
  ⟨s.elems.dropWhile (· < x), s.sorted.sublist (dropWhile_sublist _)⟩

theorem takeWhile_lt_eq_filter (h : l.Pairwise (· < ·)) :
    l.takeWhile (· < x) = l.filter (· < x) := by
  induction l with
  | nil => rfl
  | cons y ys ih =>
    obtain ⟨hy, hys⟩ := pairwise_cons.mp h
    by_cases hlt : y < x
    · simp [hlt, ih hys]
    · have hnone : ys.filter (· < x) = [] := by
        rw [filter_eq_nil_iff]
        intro z hz
        simpa using le_of_lt (lt_of_le_of_lt (not_lt.mp hlt) (hy z hz))
      simp [hlt, hnone]

theorem below_eq_filter (s : SortedSet α) (x : α) : s.below x = s.elems.filter (· < x) :=
  takeWhile_lt_eq_filter s.sorted

theorem below_append_notBelow (s : SortedSet α) (x : α) :
    s.below x ++ (s.notBelow x).elems = s.elems := takeWhile_append_dropWhile

@[simp] theorem mem_below {x y : α} : y ∈ s.below x ↔ y ∈ s ∧ y < x := by
  simp [below_eq_filter, mem_def]

@[simp] theorem mem_notBelow {x y : α} : y ∈ s.notBelow x ↔ y ∈ s ∧ ¬ y < x := by
  have hsplit : y ∈ s ↔ y ∈ s.below x ∨ y ∈ s.notBelow x := by
    rw [mem_def, ← below_append_notBelow s x, mem_append, mem_def]
  have hdisjoint : y ∈ s.below x → ¬ y ∈ s.notBelow x := by
    have hnodup := s.nodup
    rw [← below_append_notBelow s x] at hnodup
    exact fun hb hn => (nodup_append.mp hnodup).2.2 y hb y hn rfl
  grind [mem_below]

theorem size_notBelow (s : SortedSet α) (x : α) :
    (s.below x).length + (s.notBelow x).size = s.size := by
  rw [size, size, ← length_append, below_append_notBelow]

end SortedSet

end Lib
