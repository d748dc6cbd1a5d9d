import Muduo.UnsignedInt

/-!
# Muduo.UnsignedInt.Value

The number that a list of limbs stands for, and which lists are normal: those that
need all their limbs for it (`isNormal_iff`).  Normal numbers are compared by the
number of limbs first and then from the highest limb down (`lessThan_iff`).
-/

namespace Muduo.UnsignedInt

open Lib

/-! ## values -/

/-- The base of the limbs. -/
def base : Nat := 2 ^ 32

def digits (ls : List UInt32) : List Nat := ls.map UInt32.toNat

/-- The number that a list of limbs stands for. -/
def value (ls : List UInt32) : Nat := Nat.ofDigits base (digits ls)

def val (a : UnsignedInt) : Nat := value a.limbs

theorem one_lt_base : 1 < base := by decide

theorem toNat_lt_base (x : UInt32) : x.toNat < base := x.toNat_lt

@[simp] theorem length_digits (ls : List UInt32) : (digits ls).length = ls.length := by
  simp [digits]

@[simp] theorem digits_append (ls rs : List UInt32) :
    digits (ls ++ rs) = digits ls ++ digits rs := by
  simp [digits]

@[simp] theorem digits_cons (l : UInt32) (ls : List UInt32) :
    digits (l :: ls) = l.toNat :: digits ls := rfl

@[simp] theorem digits_nil : digits [] = [] := rfl

@[simp] theorem value_nil : value [] = 0 := rfl

theorem lt_base_of_mem_digits (ls : List UInt32) : ∀ d ∈ digits ls, d < base := by
  simp only [digits, List.mem_map]
  rintro d ⟨l, -, rfl⟩
  exact toNat_lt_base l

theorem value_append (ls rs : List UInt32) :
    value (ls ++ rs) = value ls + base ^ ls.length * value rs := by
  rw [value, digits_append, Nat.ofDigits_append, length_digits]
  rfl

theorem value_cons (l : UInt32) (ls : List UInt32) :
    value (l :: ls) = l.toNat + base * value ls := by
  rw [value, digits_cons, Nat.ofDigits_cons]
  rfl

theorem value_singleton (l : UInt32) : value [l] = l.toNat := by
  simp [value]

theorem value_replicate_zero (n : Nat) : value (List.replicate n 0) = 0 := by
  simp [value, digits]

theorem value_lt (ls : List UInt32) : value ls < base ^ ls.length := by
  simpa [value] using Nat.ofDigits_lt_base_pow_length one_lt_base (lt_base_of_mem_digits ls)

variable {ls : List UInt32}

theorem value_pushCarry {c : Nat} (hc : c < base) :
    value (pushCarry ls c) = value ls + base ^ ls.length * c := by
  unfold pushCarry
  split
  · simp [*]
  · rw [value_append, value_singleton, UInt32.toNat_ofNat_of_lt' hc]

/-! ## normal numbers -/

theorem isNormal_iff :
    isNormal ⟨ls⟩ = true ↔ ls = [] ∨ base ^ (ls.length - 1) ≤ value ls := by
  rcases List.eq_nil_or_concat ls with rfl | ⟨init, l, rfl⟩
  · simp [isNormal, isZero]
  · have hlast := last_ne_zero_iff (d := l.toNat) one_lt_base (lt_base_of_mem_digits init)
    have hval : value (init ++ [l]) = Nat.ofDigits base (digits init ++ [l.toNat]) := by
      simp [value]
    simp only [List.concat_eq_append, hval, List.length_append, List.length_singleton,
      Nat.add_sub_cancel, isNormal, isZero]
    rw [← length_digits init, ← hlast]
    simp [← UInt32.toNat_inj]

theorem isNormal_pushCarry {c : Nat} (hc : c < base)
    (h : c = 0 → isNormal ⟨ls⟩ = true) : isNormal ⟨pushCarry ls c⟩ = true := by
  by_cases hzero : c = 0
  · simpa [pushCarry, hzero] using h hzero
  · have hne : UInt32.ofNat c ≠ 0 := by
      rw [← UInt32.toNat_inj.ne, UInt32.toNat_ofNat_of_lt' hc]
      exact hzero
    simp [pushCarry, hzero, isNormal, isZero, hne]

/-- As many limbs as a normal number that is not larger are normal. -/
theorem isNormal_of_le {ls rs : List UInt32} (hrs : isNormal ⟨rs⟩ = true)
    (hlen : ls.length = rs.length) (hle : value rs ≤ value ls) : isNormal ⟨ls⟩ = true := by
  rw [isNormal_iff] at hrs ⊢
  rcases hrs with hnil | hpow
  · rw [hnil] at hlen
    exact .inl (List.length_eq_zero_iff.mp hlen)
  · rw [← hlen] at hpow
    exact .inr (hpow.trans hle)

theorem val_eq_zero_iff {a : UnsignedInt} (ha : a.isNormal = true) :
    a.isZero = true ↔ a.val = 0 := by
  have hpos : 0 < base ^ (a.limbs.length - 1) := Nat.pow_pos (by decide)
  rcases isNormal_iff.mp ha with hnil | hle
  · simp [isZero, val, hnil]
  · have hne : a.limbs ≠ [] := by
      intro hnil
      rw [hnil] at hle
      simp at hle
    simp only [isZero, List.isEmpty_iff, hne, false_iff, val]
    omega

/-- `std::lexicographical_compare` from the highest limb down. -/
theorem lexicographicalCompare_iff {as bs : List UInt32} (hlen : as.length = bs.length) :
    lexicographicalCompare as.reverse bs.reverse = true ↔ value as < value bs := by
  induction as using List.reverseRecOn generalizing bs with
  | nil =>
    obtain rfl : bs = [] := List.length_eq_zero_iff.mp hlen.symm
    simp [lexicographicalCompare]
  | append_singleton as a ih =>
    rcases List.eq_nil_or_concat bs with rfl | ⟨bs, b, rfl⟩
    · simp at hlen
    · have hlen' : as.length = bs.length := by simpa using hlen
      have hval := ofDigits_concat_lt_iff (a := a.toNat) (b := b.toNat) one_lt_base
        (lt_base_of_mem_digits as) (lt_base_of_mem_digits bs) (by simpa using hlen')
      have hwhole : value (as ++ [a]) < value (bs ++ [b]) ↔
          a < b ∨ a = b ∧ value as < value bs := by
        simpa [value, UInt32.lt_iff_toNat_lt, UInt32.toNat_inj] using hval
      rw [List.concat_eq_append, hwhole, ← ih hlen']
      simp only [List.reverse_append, List.reverse_cons, List.reverse_nil, List.nil_append,
        List.singleton_append, lexicographicalCompare]
      rcases lt_trichotomy a.toNat b.toNat with hlt | heq | hgt
      · have hab : a < b := UInt32.lt_iff_toNat_lt.mpr hlt
        simp [hab]
      · obtain rfl := UInt32.toNat_inj.mp heq
        simp [UInt32.lt_irrefl]
      · have hba : b < a := UInt32.lt_iff_toNat_lt.mpr hgt
        simp [hba, UInt32.lt_asymm hba, (UInt32.ne_of_lt hba).symm]

theorem lessThan_iff {a b : UnsignedInt} (ha : a.isNormal = true) (hb : b.isNormal = true) :
    a.lessThan b = true ↔ a.val < b.val := by
  have hlta := value_lt a.limbs
  have hltb := value_lt b.limbs
  -- a normal number with more limbs is larger
  have hmore : ∀ {x y : UnsignedInt}, y.isNormal = true → x.limbs.length < y.limbs.length →
      x.val < y.val := by
    intro x y hy hlen
    rcases isNormal_iff.mp hy with hnil | hle
    · simp [hnil] at hlen
    · calc x.val < base ^ x.limbs.length := value_lt x.limbs
        _ ≤ base ^ (y.limbs.length - 1) := Nat.pow_le_pow_right (by decide) (by omega)
        _ ≤ y.val := hle
  simp only [lessThan, Bool.or_eq_true, decide_eq_true_eq, Bool.and_eq_true]
  rcases lt_trichotomy a.limbs.length b.limbs.length with hlt | heq | hgt
  · exact iff_of_true (.inl hlt) (hmore hb hlt)
  · rw [lexicographicalCompare_iff heq]
    simp [heq, val]
  · have hval := hmore ha hgt
    exact iff_of_false (by omega) (by omega)

end Muduo.UnsignedInt
