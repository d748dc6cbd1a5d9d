import Mathlib.Data.List.Basic

/-!
# Muduo.Lib.LowerBound

Binary search.

`lowerBound below xs` is the position that the search ends at when it goes on behind
an element exactly if `below` holds of it.  Whatever the order of the elements, the one
before this position is below and the one at it is not (`between_lowerBound`); in a list
with those below in front this is the first position that is not below
(`lowerBound_eq`).
-/

namespace Lib

variable {α : Type u}

/-- The search among the `len` elements from `first` on. -/
def lowerBoundFrom (below : α → Bool) (xs : List α) : (fuel first len : Nat) → Nat
  | 0, first, _ => first
  | fuel + 1, first, len =>
    if len = 0 then first
    else if (xs[first + len / 2]?).any below then
      lowerBoundFrom below xs fuel (first + len / 2 + 1) (len - len / 2 - 1)
    else lowerBoundFrom below xs fuel first (len / 2)

def lowerBound (below : α → Bool) (xs : List α) : Nat :=
  lowerBoundFrom below xs xs.length 0 xs.length

variable {below : α → Bool} {xs : List α}

/-- What the search knows of its bounds. -/
structure Between (below : α → Bool) (xs : List α) (lo hi : Nat) : Prop where
  le : lo ≤ hi
  le_length : hi ≤ xs.length
  low : ∀ i, lo = i + 1 → (xs[i]?).any below
  high : hi < xs.length → (xs[hi]?).any below = false

theorem Between.lowerBoundFrom {fuel first len : Nat} (h : Between below xs first (first + len))
    (hfuel : len ≤ fuel) :
    Between below xs (Lib.lowerBoundFrom below xs fuel first len)
      (Lib.lowerBoundFrom below xs fuel first len) := by
  induction fuel generalizing first len with
  | zero =>
    obtain rfl : len = 0 := by omega
    exact h
  | succ fuel ih =>
    have hlength := h.le_length
    rw [Lib.lowerBoundFrom]
    split_ifs with hlen hbelow
    · subst hlen
      exact h
    · refine ih ⟨by omega, by omega, ?_, fun hlt => ?_⟩ (by omega)
      · intro i hi
        obtain rfl : i = first + len / 2 := by omega
        exact hbelow
      · have hend : first + len / 2 + 1 + (len - len / 2 - 1) = first + len := by omega
        rw [hend] at hlt ⊢
        exact h.high hlt
    · exact ih ⟨by omega, by omega, h.low, fun _ => by simpa using hbelow⟩ (by omega)

theorem between_lowerBound (below : α → Bool) (xs : List α) :
    Between below xs (lowerBound below xs) (lowerBound below xs) := by
  have hstart : Between below xs 0 (0 + xs.length) :=
    ⟨by omega, by omega, fun i hi => by omega, fun hlt => by omega⟩
  exact hstart.lowerBoundFrom (Nat.le_refl _)

theorem lowerBound_eq {n : Nat} (hn : n ≤ xs.length) (hbelow : ∀ i, i < n → (xs[i]?).any below)
    (hnot : ∀ i, n ≤ i → i < xs.length → (xs[i]?).any below = false) : lowerBound below xs = n := by
  have h := between_lowerBound below xs
  have hle := h.le_length
  generalize lowerBound below xs = k at *
  obtain hlt | heq | hgt := Nat.lt_trichotomy k n
  · have := h.high (by omega)
    rw [hbelow k hlt] at this
    contradiction
  · exact heq
  · obtain ⟨i, rfl⟩ : ∃ i, k = i + 1 := ⟨k - 1, by omega⟩
    have := h.low i rfl
    rw [hnot i (by omega) (by omega)] at this
    contradiction

end Lib
