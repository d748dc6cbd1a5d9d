import Mathlib.Data.Nat.Prime.Basic
import Mathlib.Tactic.FieldSimp
import Mathlib.Tactic.LinearCombination
import Muduo.UnsignedInt.Text

/-!
# Muduo.Float

`class Float` of `recipes/basic/exact.cc`: the number `M * 2 ^ E` as a decimal fraction.

The integer part and the fractional part are computed apart, each from `E` and `M` with a
loop that shifts the mantissa.
-/

namespace Muduo

open Lib UnsignedInt

structure Float where
  E : Int
  M : UInt64
deriving DecidableEq, Repr

namespace Float

/-- `while (e < 0) { m >>= 1; ++e; }` -/
def shift (e : Int) (m : UInt64) : Int × UInt64 :=
  if e < 0 then shift (e + 1) (m >>> 1) else (e, m)
termination_by (-e).toNat

/-- The conversion of an `int` to the `uint32_t` argument of `power`. -/
def toUInt32 (e : Int) : UInt32 := .ofNat (e % 2 ^ 32).toNat

/-- The mantissa, from its two halves. -/
def ofMantissa (m : UInt64) : Except Fault UnsignedInt :=
  let lo := (m &&& 0xFFFFFFFF).toUInt32
  let hi := (m >>> 32).toUInt32
  let u := ofUInt32 lo
  if hi ≠ 0 then do
    let x ← (ofUInt32 hi).multiplyWord 0x10000
    let x ← x.multiplyWord 0x10000
    u.add (.other x)
  else .ok u

/-- `if (e) { UnsignedInt y(2); y.power(e); u.multiply(y); }` -/
def multiplyPower (u : UnsignedInt) (e : Int) : Except Fault UnsignedInt :=
  if e ≠ 0 then do
    let y ← (ofUInt32 2).power (toUInt32 e)
    u.multiply (.other y)
  else .ok u

def integer (x : Float) : Except Fault (List Char) := do
  let (e, m) := shift x.E x.M
  let u ← ofMantissa m
  let u ← multiplyPower u e
  u.toDec

/-- `while (e < 0 && (m & 1) == 0) { m >>= 1; ++e; }` -/
def strip (e : Int) (m : UInt64) : Int × UInt64 :=
  if e < 0 ∧ m &&& 1 = 0 then strip (e + 1) (m >>> 1) else (e, m)
termination_by (-e).toNat

/-- `if (m & 1) { f.add(d); }` -/
def addBit (m : UInt64) (f d : UnsignedInt) : Except Fault UnsignedInt :=
  if m &&& 1 ≠ 0 then f.add (.other d) else .ok f

/-- The second loop of `Float::fraction`. -/
def fractionLoop (e : Int) (m : UInt64) (f d : UnsignedInt) : Except Fault UnsignedInt :=
  if e < 0 then do
    let f ← f.multiplyWord 5
    let f ← addBit m f d
    let d ← d.multiplyWord 10
    fractionLoop (e + 1) (m >>> 1) f d
  else .ok f
termination_by (-e).toNat

/-- `Float::fraction`, with the number of zeros in front. -/
def fraction (x : Float) : Except Fault (List Char × Nat) := do
  let (e, m) := strip x.E x.M
  let digits := if e < 0 then (-e).toNat else 0
  let f ← fractionLoop e m (ofUInt32 0) (ofUInt32 5)
  let x ← f.toDec
  let zeros := if x.length < digits then digits - x.length else 0
  return (x, zeros)

def decimal (x : Float) : Except Fault (List Char) := do
  let dec ← x.integer
  let frac ← x.fraction
  return dec ++ '.' :: (List.replicate frac.2 '0' ++ frac.1)

/-! ## shifting -/

theorem toNat_shiftRight_one (m : UInt64) : (m >>> 1).toNat = m.toNat / 2 := by
  rw [UInt64.toNat_shiftRight]
  exact Nat.shiftRight_eq_div_pow _ 1

theorem toNat_and_one (m : UInt64) : (m &&& 1).toNat = m.toNat % 2 := by
  rw [UInt64.toNat_and]
  exact Nat.and_one_is_mod _

theorem and_one_eq_zero_iff (m : UInt64) : m &&& 1 = 0 ↔ m.toNat % 2 = 0 := by
  rw [← UInt64.toNat_inj, toNat_and_one]
  rfl

theorem shift_spec (e : Int) (m : UInt64) :
    (shift e m).1 = max e 0 ∧ (shift e m).2.toNat = m.toNat / 2 ^ (-e).toNat := by
  fun_induction shift e m with
  | case1 e m he ih =>
    rw [ih.1, ih.2, toNat_shiftRight_one, Nat.div_div_eq_div_mul, ← Nat.pow_succ']
    have hexp : (-(e + 1)).toNat + 1 = (-e).toNat := by omega
    exact ⟨by omega, by rw [Nat.succ_eq_add_one, hexp]⟩
  | case2 e m he =>
    have hexp : (-e).toNat = 0 := by omega
    exact ⟨by omega, by simp [hexp]⟩

/-- The bits that are shifted out are zero, and the next one is not unless the exponent is. -/
theorem strip_spec (e : Int) (m : UInt64) :
    ∃ k : Nat, (strip e m).1 = e + k ∧ m.toNat = (strip e m).2.toNat * 2 ^ k ∧
      (strip e m).1 ≤ max e 0 ∧ ((strip e m).1 < 0 → (strip e m).2.toNat % 2 = 1) := by
  fun_induction strip e m with
  | case1 e m h ih =>
    obtain ⟨k, he, hm, hle, hodd⟩ := ih
    have heven := (and_one_eq_zero_iff m).mp h.2
    rw [toNat_shiftRight_one] at hm
    refine ⟨k + 1, by omega, ?_, by omega, hodd⟩
    rw [Nat.pow_succ, ← Nat.mul_assoc, ← hm]
    omega
  | case2 e m h =>
    refine ⟨0, by simp, by simp, le_max_left e 0, fun he => ?_⟩
    have hone := mt (and_one_eq_zero_iff m).mpr fun hz => h ⟨he, hz⟩
    change m.toNat % 2 = 1
    omega

/-! ## the integer part -/

variable {e : Int}

theorem toNat_toUInt32 (h : 0 ≤ e) (hlt : e < 2 ^ 32) : (toUInt32 e).toNat = e.toNat := by
  rw [toUInt32, Int.emod_eq_of_lt h hlt]
  exact UInt32.toNat_ofNat_of_lt' (by simp only [UInt32.size]; omega)

theorem ofMantissa_spec (m : UInt64) :
    ∃ u, ofMantissa m = .ok u ∧ u.val = m.toNat ∧ u.isNormal = true := by
  have hm := m.toNat_lt
  have hlo : (m &&& 0xFFFFFFFF).toUInt32.toNat = m.toNat % 2 ^ 32 := by
    have hmask : (m &&& 0xFFFFFFFF).toNat = m.toNat % 2 ^ 32 := by
      rw [UInt64.toNat_and]
      exact Nat.and_two_pow_sub_one_eq_mod _ 32
    rw [UInt64.toNat_toUInt32, hmask, Nat.mod_mod]
  have hhi : (m >>> 32).toUInt32.toNat = m.toNat / 2 ^ 32 := by
    have hshift : (m >>> 32).toNat = m.toNat / 2 ^ 32 := by
      rw [UInt64.toNat_shiftRight]
      exact Nat.shiftRight_eq_div_pow _ 32
    rw [UInt64.toNat_toUInt32, hshift]
    omega
  unfold ofMantissa
  generalize (m &&& 0xFFFFFFFF).toUInt32 = lo at *
  generalize (m >>> 32).toUInt32 = hi at *
  by_cases hzero : hi = 0
  · refine ⟨ofUInt32 lo, by simp [hzero], ?_, isNormal_ofUInt32 lo⟩
    rw [hzero] at hhi
    simp only [UInt32.toNat_zero] at hhi
    rw [val_ofUInt32, hlo]
    omega
  · obtain ⟨x, hx, hxval, hxnormal⟩ := multiplyWord_spec (ofUInt32 hi) 0x10000
    obtain ⟨y, hy, hyval, hynormal⟩ := multiplyWord_spec x 0x10000
    obtain ⟨u, hu, huval, hunormal⟩ := add_spec (ofUInt32 lo) (.other y)
    refine ⟨u, ?_, ?_, hunormal (isNormal_ofUInt32 lo) (hynormal (hxnormal (isNormal_ofUInt32 hi)))⟩
    · simp only [ne_eq, hzero, not_false_eq_true, if_true, hx, hy, hu, bind, Except.bind]
    · have hget : (Arg.get (ofUInt32 lo) (.other y)).val = y.val := rfl
      have hword : (0x10000 : UInt32).toNat = 2 ^ 16 := rfl
      rw [huval, hget, hyval, hxval, val_ofUInt32, val_ofUInt32, hword, hlo, hhi]
      omega

theorem multiplyPower_spec {u : UnsignedInt} (hu : u.isNormal = true) (h : 0 ≤ e)
    (hlt : e < 2 ^ 32) :
    ∃ r, multiplyPower u e = .ok r ∧ r.val = u.val * 2 ^ e.toNat ∧ r.isNormal = true := by
  unfold multiplyPower
  by_cases hzero : e = 0
  · exact ⟨u, by simp [hzero], by simp [hzero], hu⟩
  · obtain ⟨y, hy, hyval, hynormal⟩ := power_spec (toUInt32 e) (isNormal_ofUInt32 2)
    obtain ⟨r, hr, hrval, hrnormal⟩ := multiply_spec u (.other y)
    refine ⟨r, ?_, ?_, hrnormal hu hynormal⟩
    · simp only [ne_eq, hzero, not_false_eq_true, if_true, hy, hr, bind, Except.bind]
    · have hget : (Arg.get u (.other y)).val = y.val := rfl
      rw [hrval, hget, hyval, toNat_toUInt32 h hlt, val_ofUInt32]
      rfl

theorem integer_eq {x : Float} (hE : x.E < 2 ^ 32) :
    x.integer = .ok (Nat.toDigits 10 (x.M.toNat / 2 ^ (-x.E).toNat * 2 ^ x.E.toNat)) := by
  obtain ⟨he, hm⟩ := shift_spec x.E x.M
  obtain ⟨u, hu, huval, hunormal⟩ := ofMantissa_spec (shift x.E x.M).2
  obtain ⟨r, hr, hrval, hrnormal⟩ := multiplyPower_spec hunormal (e := (shift x.E x.M).1)
    (by omega) (by omega)
  have hexp : (shift x.E x.M).1.toNat = x.E.toNat := by omega
  rw [huval, hm, hexp] at hrval
  simp only [integer, hu, hr, bind, Except.bind, toDec_eq hrnormal, hrval]

/-! ## the fractional part -/

theorem addBit_spec (m : UInt64) {f d : UnsignedInt} (hf : f.isNormal = true)
    (hd : d.isNormal = true) :
    ∃ r, addBit m f d = .ok r ∧ r.val = f.val + m.toNat % 2 * d.val ∧ r.isNormal = true := by
  unfold addBit
  by_cases hbit : m &&& 1 = 0
  · exact ⟨f, by simp [hbit], by simp [(and_one_eq_zero_iff m).mp hbit], hf⟩
  · obtain ⟨r, hr, hval, hnormal⟩ := add_spec f (.other d)
    have hone : m.toNat % 2 = 1 := by
      have := mt (and_one_eq_zero_iff m).mpr hbit
      omega
    refine ⟨r, by rw [if_pos hbit, hr], ?_, hnormal hf hd⟩
    rw [hval, hone, Nat.one_mul]
    rfl

/-- The loop adds the bits from the lowest one on, each with its power of five. -/
theorem fractionLoop_spec (e : Int) (m : UInt64) {f d : UnsignedInt} (hf : f.isNormal = true)
    (hd : d.isNormal = true) :
    ∃ r, fractionLoop e m f d = .ok r ∧ r.isNormal = true ∧
      5 * r.val = 5 ^ ((-e).toNat + 1) * f.val +
        d.val * 5 ^ (-e).toNat * (m.toNat % 2 ^ (-e).toNat) := by
  induction hn : (-e).toNat generalizing e m f d with
  | zero =>
    have he : ¬ e < 0 := by omega
    exact ⟨f, by rw [fractionLoop, if_neg he], hf, by simp [Nat.mod_one]⟩
  | succ n ih =>
    have he : e < 0 := by omega
    obtain ⟨f₁, hf₁, hval₁, hnormal₁⟩ := multiplyWord_spec f 5
    obtain ⟨f₂, hf₂, hval₂, hnormal₂⟩ := addBit_spec m (hnormal₁ hf) hd
    obtain ⟨d₁, hd₁, hdval, hdnormal⟩ := multiplyWord_spec d 10
    obtain ⟨r, hr, hrnormal, hrval⟩ := ih (e + 1) (m >>> 1) hnormal₂ (hdnormal hd) (by omega)
    refine ⟨r, ?_, hrnormal, ?_⟩
    · rw [fractionLoop, if_pos he]
      simp only [hf₁, hf₂, hd₁, hr, bind, Except.bind]
    · have hfive : (5 : UInt32).toNat = 5 := rfl
      have hten : (10 : UInt32).toNat = 10 := rfl
      have hmod : m.toNat % 2 ^ (n + 1) = m.toNat % 2 + 2 * (m.toNat / 2 % 2 ^ n) := by
        rw [Nat.pow_succ', Nat.mod_mul]
      rw [hrval, hval₂, hval₁, hdval, hfive, hten, toNat_shiftRight_one, hmod]
      ring

/-- The digits behind the point, for a mantissa that is odd unless there are none. -/
theorem fraction_eq (x : Float) :
    ∃ e m k, e = (strip x.E x.M).1 ∧ m = (strip x.E x.M).2.toNat ∧ k = (-e).toNat ∧
      x.fraction = .ok (Nat.toDigits 10 (m % 2 ^ k * 5 ^ k),
        k - (Nat.toDigits 10 (m % 2 ^ k * 5 ^ k)).length) := by
  refine ⟨_, _, _, rfl, rfl, rfl, ?_⟩
  obtain ⟨r, hr, hrnormal, hrval⟩ := fractionLoop_spec (strip x.E x.M).1 (strip x.E x.M).2
    (isNormal_ofUInt32 0) (isNormal_ofUInt32 5)
  have hzero : (ofUInt32 0).val = 0 := rfl
  have hfive : (ofUInt32 5).val = 5 := rfl
  rw [hzero, hfive, Nat.mul_zero, Nat.zero_add, Nat.mul_assoc] at hrval
  have hval := Nat.eq_of_mul_eq_mul_left (by decide) hrval
  rw [Nat.mul_comm] at hval
  have hdigits : ∀ e : Int, (if e < 0 then (-e).toNat else 0) = (-e).toNat := by
    intro e
    split <;> omega
  have hzeros : ∀ a b : Nat, (if a < b then b - a else 0) = b - a := by
    intro a b
    split <;> omega
  simp only [fraction, hdigits, hzeros, hr, toDec_eq hrnormal, hval, bind, Except.bind, pure,
    Except.pure]

/-! ## the whole number -/

/-- `i` and `f` are the digits of `x` in front of and behind the point, and none is superfluous. -/
structure Expands (i f : List Char) (x : ℚ) : Prop where
  integer : Numeral i .kDec
  fraction : Digits f .kDec
  value : (number 10 fromDec i : ℚ) + number 10 fromDec f / 10 ^ f.length = x
  least : ∀ n, 0 < n → (∃ k : ℕ, x * 10 ^ n = k) → f.length ≤ n

theorem number_replicate_zero (n : Nat) (str : List Char) :
    number 10 fromDec (List.replicate n '0' ++ str) = number 10 fromDec str := by
  have hzero : number 10 fromDec (List.replicate n '0') = 0 := by
    have hdigit : (fromDec '0').toNat = 0 := rfl
    simp [number, hdigit]
  rw [number_append, hzero, Nat.zero_mul, Nat.zero_add]

/-- A fraction with a power of two below an odd number needs as many decimal digits as the
power has. -/
theorem le_of_odd {m k n K : Nat} (hodd : m % 2 = 1) (h : m * 10 ^ n = K * 2 ^ k) : k ≤ n := by
  have hcoprime : Nat.Coprime (2 ^ k) (m * 5 ^ n) := by
    refine Nat.Coprime.pow_left k (Nat.Coprime.mul_right ?_ (Nat.Coprime.pow_right n (by decide)))
    exact (Nat.coprime_two_left).mpr (Nat.odd_iff.mpr hodd)
  have hdvd : 2 ^ k ∣ m * 5 ^ n * 2 ^ n := by
    refine ⟨K, ?_⟩
    rw [Nat.mul_comm (2 ^ k), ← h, Nat.mul_assoc, ← Nat.mul_pow]
  exact (Nat.pow_dvd_pow_iff_le_right (by decide)).mp (hcoprime.dvd_of_dvd_mul_left hdvd)

theorem parts_eq (e : Int) (m : Nat) :
    ((m / 2 ^ (-e).toNat * 2 ^ e.toNat : Nat) : ℚ) +
      (m % 2 ^ (-e).toNat * 5 ^ (-e).toNat : Nat) / 10 ^ (-e).toNat = m * 2 ^ e := by
  by_cases he : 0 ≤ e
  · obtain ⟨n, rfl⟩ := Int.eq_ofNat_of_zero_le he
    have hk : (-(n : Int)).toNat = 0 := by omega
    simp [hk, Nat.mod_one]
  · obtain ⟨k, hk⟩ := Int.eq_ofNat_of_zero_le (by omega : 0 ≤ -e)
    obtain rfl : e = -k := by omega
    have hpow : (10 : ℚ) ^ k = 2 ^ k * 5 ^ k := by rw [← mul_pow]; norm_num
    have hdiv : (m : ℚ) = 2 ^ k * (m / 2 ^ k : Nat) + (m % 2 ^ k : Nat) := by
      exact_mod_cast (Nat.div_add_mod m (2 ^ k)).symm
    have hneg : (-(k : Int)).toNat = 0 := by omega
    rw [neg_neg, Int.toNat_natCast, hneg, zpow_neg, zpow_natCast, Nat.pow_zero, Nat.mul_one,
      Nat.cast_mul, Nat.cast_pow, hpow]
    field_simp
    push_cast at hdiv ⊢
    linear_combination -(5 : ℚ) ^ k * hdiv

theorem strip_eq (x : Float) {m : Nat} (he : e = (strip x.E x.M).1)
    (hm : m = (strip x.E x.M).2.toNat) :
    (x.M.toNat : ℚ) * 2 ^ x.E = m * 2 ^ e ∧
      x.M.toNat / 2 ^ (-x.E).toNat * 2 ^ x.E.toNat = m / 2 ^ (-e).toNat * 2 ^ e.toNat := by
  obtain ⟨j, hj, hM, hle, -⟩ := strip_spec x.E x.M
  rw [← he] at hj hle
  rw [← hm] at hM
  constructor
  · rw [hM, hj, zpow_add₀ (by norm_num), zpow_natCast]
    push_cast
    ring
  · by_cases hE : 0 ≤ x.E
    · obtain rfl : j = 0 := by omega
      rw [hM, Nat.pow_zero, Nat.mul_one, hj, Int.natCast_zero, Int.add_zero]
    · have hexp : (-x.E).toNat = (-e).toNat + j := by omega
      have hone : x.E.toNat = e.toNat := by omega
      rw [hM, hexp, hone, Nat.pow_add, Nat.mul_div_mul_right _ _ (Nat.pow_pos (by decide))]

/-- The digits of `n`, with zeros in front up to `k` digits. -/
def padded (n k : Nat) : List Char :=
  List.replicate (k - (Nat.toDigits 10 n).length) '0' ++ Nat.toDigits 10 n

theorem padded_spec {n k : Nat} (h : n < 10 ^ k) :
    Digits (padded n k) .kDec ∧ number 10 fromDec (padded n k) = n ∧
      (padded n k).length = max k 1 := by
  obtain ⟨hnumeral, hnumber⟩ := numeral_toDigits .kDec n
  obtain ⟨hne, hdigits⟩ := digits_iff.mp hnumeral.digits
  refine ⟨⟨by simp [padded], fun c hc => ?_⟩, ?_, ?_⟩
  · obtain hc | hc := List.mem_append.mp hc
    · rw [List.eq_of_mem_replicate hc]
      decide
    · exact hdigits c hc
  · exact (number_replicate_zero _ _).trans hnumber
  · have hle : (Nat.toDigits 10 n).length ≤ max k 1 :=
      (Nat.length_toDigits_le_iff (by decide) (by omega)).mpr
        (h.trans_le (Nat.pow_le_pow_right (by decide) (le_max_left k 1)))
    have hpos : 0 < (Nat.toDigits 10 n).length := List.length_pos_iff.mpr Nat.toDigits_ne_nil
    simp only [padded, List.length_append, List.length_replicate]
    omega

theorem expands_parts {m : Nat} (hodd : e < 0 → m % 2 = 1) :
    Expands (Nat.toDigits 10 (m / 2 ^ (-e).toNat * 2 ^ e.toNat))
      (padded (m % 2 ^ (-e).toNat * 5 ^ (-e).toNat) (-e).toNat) (m * 2 ^ e) := by
  obtain ⟨hnumeral, hnumber⟩ := numeral_toDigits .kDec (m / 2 ^ (-e).toNat * 2 ^ e.toNat)
  have hvalue := parts_eq e m
  obtain ⟨hdigits, hfraction, hlength⟩ : _ ∧ _ ∧ _ :=
    padded_spec (n := m % 2 ^ (-e).toNat * 5 ^ (-e).toNat) (k := (-e).toNat) (by
      rw [show 10 = 2 * 5 from rfl, Nat.mul_pow]
      exact Nat.mul_lt_mul_of_pos_right (Nat.mod_lt _ (Nat.pow_pos (by decide)))
        (Nat.pow_pos (by decide)))
  refine ⟨hnumeral, hdigits, ?_, fun n hn hint => ?_⟩
  · have hinteger : number 10 fromDec (Nat.toDigits 10 (m / 2 ^ (-e).toNat * 2 ^ e.toNat)) = _ :=
      hnumber
    rw [hinteger, hfraction, hlength, ← hvalue]
    by_cases he : e < 0
    · rw [max_eq_left (by omega : 1 ≤ (-e).toNat)]
    · have hk : (-e).toNat = 0 := by omega
      simp [hk, Nat.mod_one]
  · rw [hlength]
    by_cases he : e < 0
    · obtain ⟨k, hk⟩ := Int.eq_ofNat_of_zero_le (by omega : 0 ≤ -e)
      obtain rfl : e = -k := by omega
      obtain ⟨K, hK⟩ := hint
      have hnat : m * 10 ^ n = K * 2 ^ k := by
        rw [zpow_neg, zpow_natCast] at hK
        field_simp at hK
        rw [Nat.mul_comm K]
        exact_mod_cast hK
      have hle := le_of_odd (hodd he) hnat
      omega
    · omega

/-- **`decimal()` is exact**: for every exponent whose negative is an `int`, too, it returns the
digits of `M * 2 ^ E`, as few as there can be. -/
theorem decimal_exact (E : Int) (M : UInt64) (hE : |E| < 2 ^ 31) :
    ∃ i f, decimal ⟨E, M⟩ = .ok (i ++ '.' :: f) ∧ Expands i f (M.toNat * 2 ^ E) := by
  obtain ⟨e, m, k, he, hm, rfl, hfraction⟩ := fraction_eq ⟨E, M⟩
  obtain ⟨hvalue, hinteger⟩ := strip_eq ⟨E, M⟩ he hm
  obtain ⟨-, -, -, -, hodd⟩ := strip_spec E M
  have hI := integer_eq (x := ⟨E, M⟩) (by rw [abs_lt] at hE; simp only; omega)
  rw [hinteger] at hI
  have hexpands : Expands _ _ (m * 2 ^ e) := expands_parts fun h => by
    rw [hm]
    exact hodd (he ▸ h)
  refine ⟨_, _, ?_, hvalue ▸ hexpands⟩
  simp only [decimal, hI, hfraction, bind, Except.bind, pure, Except.pure, padded]

theorem decimal_exact_quarter :
    ∃ i f, decimal ⟨-2, 7⟩ = .ok (i ++ '.' :: f) ∧ Expands i f ((7 : UInt64).toNat * 2 ^ (-2 : Int)) :=
  decimal_exact (-2) 7 (by decide)

end Float

end Muduo
