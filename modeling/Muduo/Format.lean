import Mathlib.Algebra.Order.Ring.Int

/-!
# Muduo.Format

The parts of `printf` that muduo makes names and messages with.
-/

namespace Muduo

/-- What `snprintf(buf, size, …)` leaves in `buf` of the formatted text. -/
def snprintf (size : Nat) (text : List Char) : List Char := text.take (size - 1)

/-- The conversions `%d` and `%u` of a number that is not negative. -/
def decimal (n : Nat) : List Char := Nat.toDigits 10 n

theorem decimal_injective {m n : Nat} (h : decimal m = decimal n) : m = n := by
  have hm := Nat.ofDigitChars_ten_toDigits (n := m)
  have hn := Nat.ofDigitChars_ten_toDigits (n := n)
  unfold decimal at h
  rw [h] at hm
  exact hm.symm.trans hn

theorem length_decimal_le {n k : Nat} (hk : 0 < k) (h : n < 10 ^ k) : (decimal n).length ≤ k :=
  (Nat.length_toDigits_le_iff (by decide) hk).mpr h

theorem snprintf_of_length {size : Nat} {text : List Char} (h : text.length < size) :
    snprintf size text = text := List.take_of_length_le (by omega)

end Muduo
