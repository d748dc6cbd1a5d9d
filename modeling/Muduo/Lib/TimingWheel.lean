import Muduo.Lib.CircularBuffer

/-!
# Muduo.Lib.TimingWheel

A circular buffer of buckets that is given a new bucket with every tick.

`age p w` is the number of ticks since the newest bucket with the property `p`.  In a full
buffer of `n` buckets a tick makes everything one tick older, and what would be of age `n`
is gone (`age_pushBack`).
-/

namespace Lib

open List

variable {β : Type u} {p : β → Bool} {w : List β} {b : β}

/-- The oldest bucket comes first. -/
def age (p : β → Bool) (w : List β) : Option Nat := w.reverse.findIdx? p

theorem age_concat : age p (w ++ [b]) = if p b then some 0 else (age p w).map (· + 1) := by
  rw [age, reverse_concat, List.findIdx?_cons]
  rfl

theorem age_cons : age p (b :: w) = (age p w).or (if p b then some w.length else none) := by
  rw [age, reverse_cons, List.findIdx?_append, List.findIdx?_singleton, length_reverse]
  cases p b <;> simp [age]

theorem age_eq_none : age p w = none ↔ ∀ b ∈ w, p b = false := by
  rw [age, List.findIdx?_eq_none_iff]
  simp

theorem age_lt {k : Nat} (h : age p w = some k) : k < w.length := by
  rw [age, List.findIdx?_eq_some_iff_getElem] at h
  obtain ⟨hlt, -⟩ := h
  rwa [length_reverse] at hlt

theorem age_tail (hw : 0 < w.length) : age p w.tail = (age p w).filter (· + 1 < w.length) := by
  cases w with
  | nil => simp at hw
  | cons b w =>
    rw [tail_cons, age_cons]
    cases hage : age p w with
    | none => cases p b <;> simp [Option.filter]
    | some k => simp [Option.filter, age_lt hage]

theorem age_cons_eq_last : age p (b :: w) = some w.length ↔ p b = true ∧ age p w = none := by
  rw [age_cons]
  cases hage : age p w with
  | none => cases p b <;> simp
  | some k =>
    have hlt := age_lt hage
    simp
    omega

namespace CircularBuffer

variable {n : Nat} {c : CircularBuffer β n}

theorem data_pushBack_full (hfull : c.size = n) (hn : 0 < n) (b : β) :
    (c.pushBack b).data = c.data.tail ++ [b] := by
  rw [data_pushBack, hfull, Nat.add_sub_cancel_left]
  cases hdata : c.data with
  | nil =>
    rw [size, hdata] at hfull
    simp only [length_nil] at hfull
    omega
  | cons b' w => rfl

/-- **A tick.** -/
theorem age_pushBack (hfull : c.size = n) (hn : 0 < n) (hb : p b = false) :
    age p (c.pushBack b).data = ((age p c.data).map (· + 1)).filter (· < n) := by
  have hlen : c.data.length = n := hfull
  rw [data_pushBack_full hfull hn, age_concat, if_neg (by simp [hb]), age_tail (by omega), hlen]
  cases age p c.data with
  | none => rfl
  | some k =>
    by_cases hk : k + 1 < n <;> simp [Option.filter, hk]

theorem exists_back (hpos : 0 < c.size) (f : β → β) :
    ∃ w b, c.data = w ++ [b] ∧ (c.modifyBack f).data = w ++ [f b] := by
  obtain ⟨w, b, hdata⟩ : ∃ w b, c.data = w ++ [b] :=
    ⟨_, _, (dropLast_append_getLast (ne_nil_of_length_pos hpos)).symm⟩
  refine ⟨w, b, hdata, ?_⟩
  rw [modifyBack, data_modify, size, hdata]
  simp [modify_eq_take_cons_drop]

theorem age_modifyBack_of_true (hpos : 0 < c.size) {f : β → β} (hf : ∀ b, p (f b) = true) :
    age p (c.modifyBack f).data = some 0 := by
  obtain ⟨w, b, -, hmodify⟩ := exists_back hpos f
  rw [hmodify, age_concat, if_pos (hf b)]

theorem age_modifyBack_of_eq (hpos : 0 < c.size) {f : β → β} (hf : ∀ b, p (f b) = p b) :
    age p (c.modifyBack f).data = age p c.data := by
  obtain ⟨w, b, hdata, hmodify⟩ := exists_back hpos f
  rw [hmodify, hdata, age_concat, age_concat, hf b]

end CircularBuffer

end Lib
