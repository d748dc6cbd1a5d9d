import Mathlib.Algebra.Order.Ring.Int
import Mathlib.Data.List.Basic

/-!
# Muduo.Lib.Strtol

Numbers in a text: `strtol(p, NULL, 10)`, and the decimal text of a number.

The text is the memory behind `p`.  `strtol` is not told where it ends, and reads up to the
first byte that does not belong to the number; it gives nothing when that would be a byte
behind the memory.
-/

namespace Lib

open List

/-- `isspace` in the C locale -/
def isSpace (c : UInt8) : Bool := c = 32 ∨ 9 ≤ c ∧ c ≤ 13

def isDigit (c : UInt8) : Bool := 48 ≤ c ∧ c ≤ 57

/-- The digits, behind those of `n`. -/
def strtolDigits : Nat → List UInt8 → Option Nat
  | _, [] => none
  | n, c :: cs => if isDigit c then strtolDigits (10 * n + (c.toNat - 48)) cs else some n

/-- `LONG_MIN` or `LONG_MAX` when the number is out of range -/
def clampLong (n : Int) : Int := max (-2 ^ 63) (min n (2 ^ 63 - 1))

def strtol : List UInt8 → Option Int
  | [] => none
  | c :: cs =>
    if isSpace c then strtol cs
    else if c = 45 then (strtolDigits 0 cs).map fun n : Nat => clampLong (-n)
    else if c = 43 then (strtolDigits 0 cs).map fun n : Nat => clampLong n
    else (strtolDigits 0 (c :: cs)).map fun n : Nat => clampLong n

/-- The decimal text of a number. -/
def decimalText (n : Nat) : List UInt8 := (Nat.toDigits 10 n).map fun c => UInt8.ofNat c.toNat

section
variable {cs : List UInt8} {n m : Nat} {z : Int}

theorem strtolDigits_append (h : strtolDigits n cs = some m) (more : List UInt8) :
    strtolDigits n (cs ++ more) = some m := by
  induction cs generalizing n with
  | nil => cases h
  | cons c cs ih =>
    rw [cons_append, strtolDigits]
    rw [strtolDigits] at h
    split_ifs at h ⊢ with hdigit
    · exact ih h
    · exact h

/-- **What follows the number** does not matter. -/
theorem strtol_append (h : strtol cs = some z) (more : List UInt8) :
    strtol (cs ++ more) = some z := by
  induction cs with
  | nil => cases h
  | cons c cs ih =>
    rw [cons_append, strtol]
    rw [strtol] at h
    split_ifs at h ⊢ with hspace hminus hplus
    · exact ih h
    · obtain ⟨n, hn, rfl⟩ := Option.map_eq_some_iff.mp h
      rw [strtolDigits_append hn, Option.map_some]
    · obtain ⟨n, hn, rfl⟩ := Option.map_eq_some_iff.mp h
      rw [strtolDigits_append hn, Option.map_some]
    · obtain ⟨n, hn, rfl⟩ := Option.map_eq_some_iff.mp h
      rw [← cons_append, strtolDigits_append hn, Option.map_some]

variable {c : UInt8}

theorem strtolDigits_isSome (hc : c ∈ cs) (hdigit : isDigit c = false) (n : Nat) :
    (strtolDigits n cs).isSome := by
  induction cs generalizing n with
  | nil => cases hc
  | cons d cs ih =>
    rw [strtolDigits]
    split_ifs with hd
    · obtain rfl | hc := mem_cons.mp hc
      · exact nomatch hdigit.symm.trans hd
      · exact ih hc _
    · rfl

/-- **A line that is not blank** has the end of its number. -/
theorem strtol_isSome {line : List UInt8} (hc : c ∈ line) (hspace : isSpace c = false)
    {e : UInt8} (hend : isDigit e = false) : (strtol (line ++ [e])).isSome := by
  induction line with
  | nil => cases hc
  | cons d line ih =>
    have hmem : e ∈ line ++ [e] := by simp
    rw [cons_append, strtol]
    split_ifs with hd hminus hplus
    · obtain rfl | hc := mem_cons.mp hc
      · exact nomatch hspace.symm.trans hd
      · exact ih hc
    · rw [Option.isSome_map]
      exact strtolDigits_isSome hmem hend 0
    · rw [Option.isSome_map]
      exact strtolDigits_isSome hmem hend 0
    · rw [Option.isSome_map]
      exact strtolDigits_isSome (mem_cons_of_mem d hmem) hend 0

/-! ## decimal texts -/

theorem digitChar_spec (hn : n < 10) :
    isDigit (UInt8.ofNat n.digitChar.toNat) ∧ (UInt8.ofNat n.digitChar.toNat).toNat - 48 = n := by
  revert n
  decide

theorem decimalText_of_lt (hn : n < 10) : decimalText n = [UInt8.ofNat n.digitChar.toNat] := by
  rw [decimalText, Nat.toDigits_of_lt_base hn]
  rfl

theorem decimalText_of_le (hn : 10 ≤ n) :
    decimalText n = decimalText (n / 10) ++ [UInt8.ofNat (n % 10).digitChar.toNat] := by
  rw [decimalText, Nat.toDigits_of_base_le (by decide) hn, map_append]
  rfl

theorem strtolDigits_decimalText (n : Nat) (rest : List UInt8) :
    strtolDigits 0 (decimalText n ++ rest) = strtolDigits n rest := by
  induction n using Nat.strongRecOn generalizing rest with
  | ind n ih =>
    by_cases hn : n < 10
    · obtain ⟨hdigit, hvalue⟩ := digitChar_spec hn
      rw [decimalText_of_lt hn, singleton_append, strtolDigits, if_pos hdigit, hvalue]
      simp
    · obtain ⟨hdigit, hvalue⟩ := digitChar_spec (Nat.mod_lt n (by decide : 0 < 10))
      rw [decimalText_of_le (by omega), append_assoc, ih (n / 10) (by omega),
        singleton_append, strtolDigits, if_pos hdigit, hvalue, Nat.div_add_mod]

theorem isDigit_of_mem_decimalText (hc : c ∈ decimalText n) : isDigit c := by
  induction n using Nat.strongRecOn with
  | ind n ih =>
    by_cases hn : n < 10
    · rw [decimalText_of_lt hn, mem_singleton] at hc
      exact hc ▸ (digitChar_spec hn).1
    · rw [decimalText_of_le (by omega), mem_append, mem_singleton] at hc
      obtain hc | rfl := hc
      · exact ih (n / 10) (by omega) hc
      · exact (digitChar_spec (Nat.mod_lt n (by decide))).1

theorem decimalText_ne_nil (n : Nat) : decimalText n ≠ [] := by
  by_cases hn : n < 10
  · simp [decimalText_of_lt hn]
  · simp [decimalText_of_le (Nat.not_lt.mp hn)]

theorem not_space_of_isDigit (h : isDigit c) : isSpace c = false ∧ c ≠ 45 ∧ c ≠ 43 := by
  unfold isDigit at h
  unfold isSpace
  grind

/-- **The number of a decimal text.** -/
theorem strtol_decimalText (hn : n < 2 ^ 63) {e : UInt8} (hend : isDigit e = false)
    (rest : List UInt8) : strtol (decimalText n ++ e :: rest) = some (n : Int) := by
  obtain ⟨c, cs, hcons⟩ := exists_cons_of_ne_nil (decimalText_ne_nil n)
  have hdigit : isDigit c := isDigit_of_mem_decimalText (n := n) (by simp [hcons])
  obtain ⟨hspace, hminus, hplus⟩ := not_space_of_isDigit hdigit
  have hclamp : clampLong n = n := by
    unfold clampLong
    omega
  rw [hcons, cons_append, strtol, if_neg (by simp [hspace]), if_neg hminus, if_neg hplus,
    ← cons_append, ← hcons, strtolDigits_decimalText, strtolDigits, if_neg (by simp [hend]),
    Option.map_some, hclamp]

end

end Lib
