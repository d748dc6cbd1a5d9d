import Muduo.UnsignedInt.Parse

/-!
# Muduo.UnsignedInt.Canonical

Programs that construct any number of objects and compute with them.  An operation
never fails on normal numbers, and all objects stay normal exactly as long as no zero
is read from a decimal string, no hexadecimal string has a whole limb of leading zeros,
and the word `0` is not added to zero (`canonical_iff_regular`).
-/

namespace Muduo.UnsignedInt

open Lib Function

/-! ## programs -/

/-- The constructors and operations, on any objects. -/
inductive Op (ι : Type)
  | ofUInt32 (a : ι) (x : UInt32)
  | ofString (a : ι) (str : List Char) (r : Radix)
  | assign (a : ι) (x : UInt32)
  | addWord (a : ι) (x : UInt32)
  | add (a b : ι)
  | sub (a b : ι)
  | multiplyWord (a : ι) (x : UInt32)
  | multiply (a b : ι)
  | devide (a : ι) (x : UInt32)
  | power (a : ι) (n : UInt32)
deriving DecidableEq, Repr

/-- A string of digits, not empty. -/
def Digits (str : List Char) : Radix → Prop
  | .kDec => str ≠ [] ∧ ∀ c ∈ str, DecDigit c
  | .kHex => str ≠ [] ∧ ∀ c ∈ str, HexDigit c

instance (str : List Char) (r : Radix) : Decidable (Digits str r) :=
  match r with
  | .kDec => inferInstanceAs (Decidable (_ ∧ _))
  | .kHex => inferInstanceAs (Decidable (_ ∧ _))

section
variable {ι : Type}

/-- Every object is normal, is `isZero()` exactly when its value is zero, and compares
like its value. -/
structure Canonical (s : ι → UnsignedInt) : Prop where
  normal : ∀ a, (s a).isNormal = true
  isZero : ∀ a, (s a).isZero = true ↔ (s a).val = 0
  lessThan : ∀ a b, (s a).lessThan (s b) = true ↔ (s a).val < (s b).val

/-- A decimal string is not all zeros, a hexadecimal string of more than eight digits
has a digit other than zero in its highest limb, and the word zero is not added to
zero. -/
def Regular (s : ι → UnsignedInt) : Op ι → Prop
  | .ofString _ str .kDec => Digits str .kDec → ∃ c ∈ str, c ≠ '0'
  | .ofString _ str .kHex => Digits str .kHex → str.length ≤ 8 ∨ ∃ c ∈ topDigits str, c ≠ '0'
  | .addWord a x => x ≠ 0 ∨ (s a).isZero = false
  | _ => True

variable {s : ι → UnsignedInt}

theorem canonical_iff : Canonical s ↔ ∀ a, (s a).isNormal = true :=
  ⟨fun h => h.normal, fun h => ⟨h, fun a => val_eq_zero_iff (h a), fun a b => lessThan_iff (h a) (h b)⟩⟩

/-- Objects without an initializer. -/
def start : ι → UnsignedInt := fun _ => .ofUInt32 0

theorem canonical_start : Canonical (start : ι → UnsignedInt) :=
  canonical_iff.mpr fun _ => isNormal_ofUInt32 0

variable [DecidableEq ι]

/-- The argument `b` of an operation on `a`. -/
def argOf (s : ι → UnsignedInt) (a b : ι) : Arg := if b = a then .self else .other (s b)

/-- Only strings of digits are parsed, `sub` is called without underflow, and `devide`
with a divisor that is not zero. -/
def step (s : ι → UnsignedInt) : Op ι → Except Fault (ι → UnsignedInt)
  | .ofUInt32 a x => .ok (update s a (.ofUInt32 x))
  | .ofString a str r =>
    if Digits str r then do
      let n ← UnsignedInt.ofString str r
      return update s a n
    else .ok s
  | .assign a x => .ok (update s a (.assign x))
  | .addWord a x => do
    let n ← (s a).addWord x
    return update s a n
  | .add a b => do
    let n ← (s a).add (argOf s a b)
    return update s a n
  | .sub a b =>
    if (s b).val ≤ (s a).val then do
      let n ← (s a).sub (argOf s a b)
      return update s a n
    else .ok s
  | .multiplyWord a x => do
    let n ← (s a).multiplyWord x
    return update s a n
  | .multiply a b => do
    let n ← (s a).multiply (argOf s a b)
    return update s a n
  | .devide a x =>
    if x ≠ 0 then do
      let (n, _) ← (s a).devide x
      return update s a n
    else .ok s
  | .power a n => do
    let n ← (s a).power n
    return update s a n

theorem argOf_get (s : ι → UnsignedInt) (a b : ι) : (argOf s a b).get (s a) = s b := by
  unfold argOf
  split
  · rename_i hab
    rw [hab]
    rfl
  · rfl

theorem canonical_update (hs : Canonical s) (a : ι) {n : UnsignedInt} :
    Canonical (update s a n) ↔ n.isNormal = true := by
  rw [canonical_iff, forall_update_iff s fun _ (m : UnsignedInt) => m.isNormal = true]
  exact and_iff_left fun b _ => hs.normal b

/-- An operation that returns a number keeps the objects canonical exactly when the
number is normal. -/
theorem update_spec (hs : Canonical s) (a : ι) {x : Except Fault UnsignedInt} {p : Prop}
    (hx : ∃ n, x = .ok n ∧ (n.isNormal = true ↔ p)) :
    ∃ s', (do
      let n ← x
      return update s a n : Except Fault (ι → UnsignedInt)) = .ok s' ∧
        (Canonical s' ↔ p) := by
  obtain ⟨n, rfl, hn⟩ := hx
  exact ⟨_, rfl, (canonical_update hs a).trans hn⟩

/-- A step never fails, and keeps the objects canonical exactly when it is regular. -/
theorem step_spec (hs : Canonical s) (op : Op ι) :
    ∃ s', step s op = .ok s' ∧ (Canonical s' ↔ Regular s op) := by
  cases op with
  | ofUInt32 a x =>
    exact ⟨_, rfl, iff_of_true ((canonical_update hs a).mpr (isNormal_ofUInt32 x)) trivial⟩
  | assign a x =>
    refine ⟨_, rfl, iff_of_true ((canonical_update hs a).mpr ?_) trivial⟩
    rw [assign_eq]
    exact isNormal_ofUInt32 x
  | ofString a str r =>
    by_cases hstr : Digits str r
    · simp only [step, if_pos hstr]
      refine update_spec hs a ?_
      cases r with
      | kDec =>
        obtain ⟨n, hn, -, hnormal⟩ := parseDec_spec hstr.1 hstr.2
        exact ⟨n, hn, hnormal.trans (by simp [Regular, hstr])⟩
      | kHex =>
        obtain ⟨n, hn, -, hnormal⟩ := parseHex_spec hstr.1 hstr.2
        exact ⟨n, hn, hnormal.trans (by simp [Regular, hstr])⟩
    · refine ⟨s, if_neg hstr, iff_of_true hs ?_⟩
      cases r with
      | kDec => exact fun h => absurd h hstr
      | kHex => exact fun h => absurd h hstr
  | addWord a x =>
    obtain ⟨n, hn, -, hnormal⟩ := addWord_spec (s a) x
    exact update_spec hs a ⟨n, hn, hnormal (hs.normal a)⟩
  | add a b =>
    obtain ⟨n, hn, -, hnormal⟩ := add_spec (s a) (argOf s a b)
    rw [argOf_get] at hnormal
    exact update_spec hs a ⟨n, hn, iff_of_true (hnormal (hs.normal a) (hs.normal b)) trivial⟩
  | sub a b =>
    by_cases hle : (s b).val ≤ (s a).val
    · simp only [step, if_pos hle]
      obtain ⟨hsub, -⟩ := sub_spec (x := argOf s a b) (hs.normal a)
        (by rw [argOf_get]; exact hs.normal b)
      rw [argOf_get] at hsub
      obtain ⟨n, hn, -, hnormal⟩ := hsub hle
      exact update_spec hs a ⟨n, hn, iff_of_true hnormal trivial⟩
    · exact ⟨s, if_neg hle, iff_of_true hs trivial⟩
  | multiplyWord a x =>
    obtain ⟨n, hn, -, hnormal⟩ := multiplyWord_spec (s a) x
    exact update_spec hs a ⟨n, hn, iff_of_true (hnormal (hs.normal a)) trivial⟩
  | multiply a b =>
    obtain ⟨n, hn, -, hnormal⟩ := multiply_spec (s a) (argOf s a b)
    rw [argOf_get] at hnormal
    exact update_spec hs a ⟨n, hn, iff_of_true (hnormal (hs.normal a) (hs.normal b)) trivial⟩
  | devide a x =>
    by_cases hx : x ≠ 0
    · obtain ⟨q, r, hq, -, -, hnormal⟩ := devide_spec (hs.normal a) hx
      refine ⟨update s a q, ?_, iff_of_true ((canonical_update hs a).mpr hnormal) trivial⟩
      simp only [step, if_pos hx, hq, ok_bind]
      rfl
    · exact ⟨s, if_neg hx, iff_of_true hs trivial⟩
  | power a n =>
    obtain ⟨m, hm, -, hnormal⟩ := power_spec n (hs.normal a)
    exact update_spec hs a ⟨m, hm, iff_of_true hnormal trivial⟩

/-- A program from any canonical objects. -/
theorem always_canonical_iff (hs : Canonical s) (ops : List (Op ι)) :
    Always step Canonical s ops ↔ Meets step Regular s ops := by
  refine always_iff_meets (I := Canonical) (fun s op hs hop => ?_) (fun _ h => h)
    (fun s op s' hs hop hstep => ?_) hs ops
  · obtain ⟨s', hstep, hiff⟩ := step_spec hs op
    exact ⟨s', hstep, hiff.mpr hop⟩
  · obtain ⟨t, ht, hiff⟩ := step_spec hs op
    rw [ht] at hstep
    cases hstep
    exact fun h => hop (hiff.mp h)

/-- **Canonical numbers.** Along a program no operation fails and all objects stay
canonical, exactly when no zero is read from a decimal string, no hexadecimal string
has more limbs than its value needs, and the word zero is not added to zero. -/
theorem canonical_iff_regular (ops : List (Op ι)) :
    Always step Canonical start ops ↔ Meets step Regular (start : ι → UnsignedInt) ops :=
  always_canonical_iff canonical_start ops

end

/-- The decimal string `0` has a limb. -/
theorem not_canonical_of_zero_string :
    ¬ Always step Canonical (start : Unit → UnsignedInt) [.ofString () ['0'] .kDec] := by
  have hzero : ¬ Regular (start : Unit → UnsignedInt) (.ofString () ['0'] .kDec) := by
    simp [Regular, Digits, DecDigit, inRange]
  rw [always_canonical_iff canonical_start]
  exact fun h => hzero h.1

end Muduo.UnsignedInt
