import Mathlib.Algebra.Order.Ring.Int

/-!
# Muduo.Lib.Checked

Signed machine integers whose overflow is undefined.

`exact w x` is an expression of a `w`-bit signed type with the mathematical value `x`;
it has no value when `x` does not fit.  `narrow w x` is the conversion of `x` to such a
type, which keeps the low bits.
-/

namespace Lib

/-- `x` is a value of the signed type with `w` bits. -/
def Fits (w : Nat) (x : Int) : Prop := -2 ^ (w - 1) ≤ x ∧ x < 2 ^ (w - 1)

instance (w : Nat) (x : Int) : Decidable (Fits w x) := inferInstanceAs (Decidable (_ ∧ _))

def exact (w : Nat) (x : Int) : Option Int := if Fits w x then some x else none

/-- The low `w` bits, read as a two's complement number. -/
def narrow (w : Nat) (x : Int) : Int := Int.bmod x (2 ^ w)

variable {x : Int}

theorem exact_of_fits {w : Nat} (h : Fits w x) : exact w x = some x := if_pos h

theorem some_bind {α β : Type} (a : α) (f : α → Option β) : ((some a : Option α) >>= f) = f a := rfl

/-! ## 32 bits -/

/-- An expression of type `int`. -/
def int32 (x : Int) : Option Int := exact 32 x

theorem fits_32 : Fits 32 x ↔ -2147483648 ≤ x ∧ x ≤ 2147483647 := by
  unfold Fits
  omega

theorem fits_64 : Fits 64 x ↔ -9223372036854775808 ≤ x ∧ x ≤ 9223372036854775807 := by
  unfold Fits
  omega

theorem int32_eq (h₁ : -2147483648 ≤ x) (h₂ : x ≤ 2147483647) : int32 x = some x :=
  exact_of_fits (fits_32.2 ⟨h₁, h₂⟩)

theorem int32_bind {α : Type} {f : Int → Option α} (h₁ : -2147483648 ≤ x)
    (h₂ : x ≤ 2147483647) : (int32 x >>= f) = f x := by
  rw [int32_eq h₁ h₂, some_bind]

theorem narrow_32_eq (h₁ : -2147483648 ≤ x) (h₂ : x ≤ 2147483647) : narrow 32 x = x :=
  Int.bmod_eq_of_le (by omega) (by omega)

end Lib
