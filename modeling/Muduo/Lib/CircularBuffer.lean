import Mathlib.Data.List.Basic

/-!
# Muduo.Lib.CircularBuffer

A buffer of a fixed capacity that drops its oldest element for a new one.
-/

namespace Lib

open List

/-- The elements, oldest first. -/
structure CircularBuffer (α : Type u) (capacity : Nat) where
  data : List α
  length_le : data.length ≤ capacity
deriving DecidableEq

namespace CircularBuffer

variable {α : Type u} {capacity : Nat}

def empty : CircularBuffer α capacity := ⟨[], Nat.zero_le _⟩

def size (b : CircularBuffer α capacity) : Nat := b.data.length

/-- The oldest element makes room when the buffer is full. -/
def pushBack (b : CircularBuffer α capacity) (x : α) : CircularBuffer α capacity :=
  ⟨(b.data ++ [x]).drop (b.size + 1 - capacity), by simp [size]; omega⟩

def modify (b : CircularBuffer α capacity) (i : Nat) (f : α → α) : CircularBuffer α capacity :=
  ⟨b.data.modify i f, by rw [length_modify]; exact b.length_le⟩

/-- `back()` -/
def modifyBack (b : CircularBuffer α capacity) (f : α → α) : CircularBuffer α capacity :=
  b.modify (b.size - 1) f

@[simp] theorem data_empty : (empty : CircularBuffer α capacity).data = [] := rfl

theorem data_pushBack (b : CircularBuffer α capacity) (x : α) :
    (b.pushBack x).data = (b.data ++ [x]).drop (b.size + 1 - capacity) := rfl

theorem data_modify (b : CircularBuffer α capacity) (i : Nat) (f : α → α) :
    (b.modify i f).data = b.data.modify i f := rfl

@[simp] theorem size_modifyBack {b : CircularBuffer α capacity} {f : α → α} :
    (b.modifyBack f).size = b.size := by
  rw [size, modifyBack, data_modify, length_modify, size]

theorem size_le (b : CircularBuffer α capacity) : b.size ≤ capacity := b.length_le

end CircularBuffer

/-! ## spans -/

section
variable {α : Type u} {g g' : Int → α} {last : Int} {n : Nat}

/-- The values of `g` at the `n` integers up to `last`. -/
def span (g : Int → α) (last : Int) (n : Nat) : List α :=
  (List.range n).map fun i : Nat => g (last - n + 1 + i)

@[simp] theorem length_span : (span g last n).length = n := by simp [span]

@[simp] theorem span_zero : span g last 0 = [] := rfl

theorem getElem?_span {i : Nat} (h : i < n) : (span g last n)[i]? = some (g (last - n + 1 + i)) := by
  simp [span, h]

theorem span_succ (g : Int → α) (last : Int) (n : Nat) :
    span g (last + 1) (n + 1) = span g last n ++ [g (last + 1)] := by
  unfold span
  rw [range_succ, map_append, map_singleton]
  congr 1
  · refine map_congr_left fun i _ => congrArg g ?_
    omega
  · congr 2
    omega

theorem drop_span (k : Nat) : (span g last n).drop k = span g last (n - k) := by
  refine ext_getElem? fun i => ?_
  rw [List.getElem?_drop]
  by_cases hi : k + i < n
  · rw [getElem?_span hi, getElem?_span (by omega)]
    congr 2
    omega
  · rw [List.getElem?_eq_none (by rw [length_span]; omega),
      List.getElem?_eq_none (by rw [length_span]; omega)]

theorem span_congr (h : ∀ t, last - n < t → t ≤ last → g t = g' t) : span g last n = span g' last n := by
  refine map_congr_left fun i hi => h _ (by omega) ?_
  rw [mem_range] at hi
  omega

theorem modify_span {f : α → α} {i : Nat} (hat : g' (last - n + 1 + i) = f (g (last - n + 1 + i)))
    (hne : ∀ t, t ≠ last - n + 1 + i → g' t = g t) :
    (span g last n).modify i f = span g' last n := by
  refine ext_getElem? fun j => ?_
  rw [List.getElem?_modify]
  by_cases hj : j < n
  · rw [getElem?_span hj, getElem?_span hj]
    by_cases hij : i = j
    · subst hij
      simp [hat]
    · rw [hne _ (by omega)]
      simp [hij]
  · rw [List.getElem?_eq_none (by rw [length_span]; omega),
      List.getElem?_eq_none (by rw [length_span]; omega)]
    rfl

end

namespace CircularBuffer

variable {α : Type u} {capacity : Nat} {b : CircularBuffer α capacity} {g : Int → α} {last : Int} {n : Nat}

theorem size_of_span (h : b.data = span g last n) : b.size = n := by
  rw [size, h, length_span]

/-- **A window moves by one.** -/
theorem pushBack_span (h : b.data = span g last n) :
    (b.pushBack (g (last + 1))).data = span g (last + 1) (min (n + 1) capacity) := by
  have hle := b.size_le
  rw [size_of_span h] at hle
  rw [data_pushBack, size_of_span h, h, ← span_succ, drop_span]
  congr 1
  omega

end CircularBuffer

end Lib
