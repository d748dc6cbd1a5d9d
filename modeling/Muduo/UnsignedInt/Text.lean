import Muduo.UnsignedInt.Canonical

/-!
# Muduo.UnsignedInt.Text

`toDec` and `toHex` write numerals without superfluous zeros, and invert the constructors
from strings.

Both write the lowest digits first: groups of a fixed number of digits (`pushDigits`) as
long as something follows, then what is left of the number (`pushRest`), and reverse the
whole at the end.
-/

namespace Muduo.UnsignedInt

open Lib List

/-! ## output -/

def Radix.base : Radix → Nat
  | .kDec => 10
  | .kHex => 16

/-- The array ends with a null character. -/
def kDigits : List Char :=
  ['0', '1', '2', '3', '4', '5', '6', '7', '8', '9', 'a', 'b', 'c', 'd', 'e', 'f', '\x00']

theorem Radix.mod_lt (r : Radix) (x : Nat) : x % r.base < kDigits.length := by
  have hlength : kDigits.length = 17 := rfl
  cases r <;> simp only [Radix.base, hlength] <;> omega

/-- `kDigits[x % r]` -/
def digit (r : Radix) (x : Nat) : Char := kDigits.get ⟨x % r.base, r.mod_lt x⟩

/-- The loop that writes `n` digits of `x`. -/
def pushDigits (r : Radix) : (n x : Nat) → List Char
  | 0, _ => []
  | n + 1, x => digit r x :: pushDigits r n (x / r.base)

theorem Radix.div_lt (r : Radix) {x : Nat} (h : x / r.base ≠ 0) : x / r.base < x := by
  cases r <;> simp only [Radix.base] at h ⊢ <;> omega

/-- The loop `do … while (x != 0)`. -/
def pushRest (r : Radix) (x : Nat) : List Char :=
  if h : x / r.base ≠ 0 then digit r x :: pushRest r (x / r.base) else [digit r x]
termination_by x
decreasing_by exact r.div_lt h

def toHex (a : UnsignedInt) : List Char :=
  match a.limbs.getLast? with
  | none => ['0']
  | some x =>
    (a.limbs.dropLast.flatMap (fun x => pushDigits .kHex 8 x.toNat) ++
      pushRest .kHex x.toNat).reverse

theorem le_length_popZero (ls : List UInt32) : ls.length - 1 ≤ (popZero ls).length := by
  unfold popZero
  split <;> simp

/-- A division that passes its assertion makes a number of several limbs smaller. -/
theorem val_devide_lt {a q : UnsignedInt} {x : UInt32} (h : a.devide kSegment = .ok (q, x))
    (hlen : 1 < a.limbs.length) : q.val < a.val := by
  obtain ⟨qs, r, hqs, hqlen, hr, hcarries⟩ := devideLoop_spec (x := kSegment) (by decide) a.limbs
  have hval : a.val = kSegment.toNat * value qs + r := by
    have hsum := hcarries.ofDigits_eq
    rw [← Nat.mul_ofDigits, Nat.mul_zero, Nat.add_zero] at hsum
    exact hsum
  have hsegment : kSegment.toNat = 10 ^ 9 := rfl
  rw [devide, hqs] at h
  by_cases hnormal : isNormal ⟨popZero qs⟩ = true
  · have hq : q = ⟨popZero qs⟩ := by
      simp only [bind, Except.bind, check_of hnormal] at h
      exact ((Prod.mk.inj (Except.ok.inj h)).1).symm
    have hpos : 0 < value qs := by
      rcases isNormal_iff.mp hnormal with hnil | hle
      · have hle := le_length_popZero qs
        rw [show popZero qs = [] from hnil, length_nil] at hle
        omega
      · rw [value_popZero] at hle
        exact Nat.lt_of_lt_of_le (Nat.pow_pos (by decide)) hle
    rw [hq, val, value_popZero, hval, hsegment]
    omega
  · simp [check, hnormal, bind, Except.bind] at h

/-- The loop of `toDec`, and what follows it. -/
def toDecLoop (copy : UnsignedInt) (result : List Char) : Except Fault (List Char) :=
  if hlen : 1 < copy.limbs.length then
    match h : copy.devide kSegment with
    | .error fault => .error fault
    | .ok (copy', x) => toDecLoop copy' (result ++ pushDigits .kDec 9 x.toNat)
  else do
    let x ← limbAt copy.limbs 0
    return (result ++ pushRest .kDec x.toNat).reverse
termination_by copy.val
decreasing_by exact val_devide_lt h hlen

def toDec (a : UnsignedInt) : Except Fault (List Char) :=
  if a.limbs.isEmpty then .ok ['0'] else toDecLoop a []

/-! ## numerals -/

theorem Radix.one_lt_base (r : Radix) : 1 < r.base := by cases r <;> decide

theorem digit_eq (r : Radix) (x : Nat) : digit r x = (x % r.base).digitChar := by
  have htable : ∀ d : Fin 16, kDigits.get ⟨d, d.isLt.trans (by decide)⟩ = d.val.digitChar := by
    decide
  have hlt : x % r.base < 16 := by
    cases r <;> simp only [Radix.base] <;> omega
  exact htable ⟨x % r.base, hlt⟩

theorem reverse_pushRest (r : Radix) (x : Nat) : (pushRest r x).reverse = Nat.toDigits r.base x := by
  have hbase := r.one_lt_base
  fun_induction pushRest r x with
  | case1 x h ih =>
    have hle : ¬ x < r.base := fun hlt => h (Nat.div_eq_of_lt hlt)
    rw [reverse_cons, ih, Nat.toDigits_eq_if hbase (n := x), if_neg hle, digit_eq]
  | case2 x h =>
    have hlt : x < r.base := by
      rw [ne_eq, not_not, Nat.div_eq_zero_iff] at h
      omega
    rw [reverse_singleton, Nat.toDigits_of_lt_base hlt, digit_eq, Nat.mod_eq_of_lt hlt]

/-- A group of digits behind a number that is not zero. -/
theorem toDigits_append_pushDigits (r : Radix) {n q x : Nat} (hq : 0 < q) (hx : x < r.base ^ n) :
    Nat.toDigits r.base q ++ (pushDigits r n x).reverse = Nat.toDigits r.base (x + r.base ^ n * q) := by
  have hbase := r.one_lt_base
  induction n generalizing x with
  | zero =>
    obtain rfl : x = 0 := by simpa using hx
    simp [pushDigits]
  | succ n ih =>
    have hdiv : (x + r.base ^ (n + 1) * q) / r.base = x / r.base + r.base ^ n * q := by
      rw [Nat.pow_succ', Nat.mul_assoc, Nat.add_mul_div_left _ _ (by omega)]
    have hmod : (x + r.base ^ (n + 1) * q) % r.base = x % r.base := by
      rw [Nat.pow_succ', Nat.mul_assoc, Nat.add_mul_mod_self_left]
    have hle : ¬ x + r.base ^ (n + 1) * q < r.base := by
      have hpow : r.base ≤ r.base ^ (n + 1) := Nat.le_self_pow (by omega) _
      have hmul : r.base ^ (n + 1) ≤ r.base ^ (n + 1) * q := Nat.le_mul_of_pos_right _ hq
      omega
    have hlt : x / r.base < r.base ^ n := Nat.div_lt_of_lt_mul (by rwa [← Nat.pow_succ'])
    rw [pushDigits, reverse_cons, ← append_assoc, ih hlt,
      Nat.toDigits_eq_if hbase (n := x + _), if_neg hle, hdiv, hmod, digit_eq]

variable {ls : List UInt32} {c : Char}

theorem isNormal_cons (hne : ls ≠ []) (l : UInt32) : isNormal ⟨l :: ls⟩ = isNormal ⟨ls⟩ := by
  obtain ⟨init, x, rfl⟩ := (eq_nil_or_concat ls).resolve_left hne
  simp [isNormal, isZero, List.getLast?_cons]

variable {a : UnsignedInt} {r : Radix} {str : List Char}

theorem val_pos (ha : a.isNormal = true) (hne : a.limbs ≠ []) : 0 < a.val := by
  refine Nat.pos_of_ne_zero fun hzero => hne ?_
  simpa [isZero] using (val_eq_zero_iff ha).mpr hzero

theorem toHex_cons (hne : ls ≠ []) (l : UInt32) :
    toHex ⟨l :: ls⟩ = toHex ⟨ls⟩ ++ (pushDigits .kHex 8 l.toNat).reverse := by
  obtain ⟨init, x, rfl⟩ := (eq_nil_or_concat ls).resolve_left hne
  simp [toHex, List.getLast?_cons, dropLast_cons_of_ne_nil]

theorem toHex_eq (ha : a.isNormal = true) : a.toHex = Nat.toDigits 16 a.val := by
  obtain ⟨ls⟩ := a
  induction ls with
  | nil => rfl
  | cons l ls ih =>
    by_cases hnil : ls = []
    · subst hnil
      rw [val, value_singleton]
      exact reverse_pushRest .kHex l.toNat
    · rw [isNormal_cons hnil] at ha
      have hvalue : val ⟨l :: ls⟩ = l.toNat + 16 ^ 8 * val ⟨ls⟩ := value_cons l ls
      rw [toHex_cons hnil, ih ha, hvalue]
      exact toDigits_append_pushDigits .kHex (val_pos ha hnil) l.toNat_lt

theorem toDecLoop_singleton (x : UInt32) (result : List Char) :
    toDecLoop ⟨[x]⟩ result = .ok (Nat.toDigits 10 x.toNat ++ result.reverse) := by
  have hrest := reverse_pushRest .kDec x.toNat
  rw [toDecLoop, dif_neg (by simp)]
  simp only [limbAt, List.getElem?_cons_zero, bind, Except.bind, pure, Except.pure,
    reverse_append, hrest]
  rfl

theorem toDecLoop_devide {a q : UnsignedInt} {x : UInt32} (hlen : 1 < a.limbs.length)
    (h : a.devide kSegment = .ok (q, x)) (result : List Char) :
    toDecLoop a result = toDecLoop q (result ++ pushDigits .kDec 9 x.toNat) := by
  rw [toDecLoop, dif_pos hlen]
  split
  · simp_all
  · simp_all

theorem toDecLoop_eq (ha : a.isNormal = true) (hne : a.limbs ≠ []) (result : List Char) :
    toDecLoop a result = .ok (Nat.toDigits 10 a.val ++ result.reverse) := by
  induction hv : a.val using Nat.strong_induction_on generalizing a result with
  | _ v ih =>
    subst hv
    have hlength := length_pos_iff.mpr hne
    by_cases hlen : 1 < a.limbs.length
    · obtain ⟨q, x, hdevide, hq, hx, hnormal⟩ := devide_spec (x := kSegment) ha (by decide)
      have hsegment : kSegment.toNat = 10 ^ 9 := rfl
      rw [hsegment] at hq hx
      -- two limbs are more than a segment
      have hpos : 0 < q.val := by
        have hle := (isNormal_iff.mp ha).resolve_left hne
        have hpow : base ^ 1 ≤ base ^ (a.limbs.length - 1) :=
          Nat.pow_le_pow_right (by decide) (by omega)
        rw [hq]
        exact Nat.div_pos (Nat.le_trans (by decide) (hpow.trans hle)) (by decide)
      have hqne : q.limbs ≠ [] := fun hnil => by simp [val, hnil] at hpos
      have hgroup := toDigits_append_pushDigits .kDec (n := 9) (q := q.val) (x := x.toNat) hpos
        (by rw [hx]; exact Nat.mod_lt _ (by decide))
      have hvalue : x.toNat + Radix.kDec.base ^ 9 * q.val = a.val := by
        rw [hx, hq]
        exact Nat.mod_add_div _ _
      rw [hvalue] at hgroup
      rw [toDecLoop_devide hlen hdevide, ih q.val (val_devide_lt hdevide hlen) hnormal hqne _ rfl,
        reverse_append, ← append_assoc]
      exact congrArg (fun s => Except.ok (s ++ result.reverse)) hgroup
    · obtain ⟨x, hx⟩ := length_eq_one_iff.mp (by omega : a.limbs.length = 1)
      obtain ⟨ls⟩ := a
      obtain rfl : ls = [x] := hx
      rw [toDecLoop_singleton, val, value_singleton]

theorem toDec_eq (ha : a.isNormal = true) : a.toDec = .ok (Nat.toDigits 10 a.val) := by
  unfold toDec
  split
  case isTrue hempty =>
    have hzero : a.val = 0 := (val_eq_zero_iff ha).mp hempty
    rw [hzero]
    rfl
  case isFalse hempty =>
    rw [toDecLoop_eq ha (by simpa using hempty)]
    simp

/-! ## input -/

/-- A string of digits without a superfluous zero in front. -/
structure Numeral (str : List Char) (r : Radix) : Prop where
  digits : Digits str r
  leading : str.head? = some '0' → str = ['0']

/-- The functions that `parseDec` and `parseHex` read a digit with. -/
def Radix.fromDigit : Radix → Char → UInt32
  | .kDec => fromDec
  | .kHex => fromHex

def Radix.IsDigit : Radix → Char → Prop
  | .kDec => DecDigit
  | .kHex => HexDigit

theorem digits_iff : Digits str r ↔ str ≠ [] ∧ ∀ c ∈ str, r.IsDigit c := by
  cases r <;> rfl

theorem Radix.fromDigit_spec (h : r.IsDigit c) :
    (r.fromDigit c).toNat < r.base ∧ (r.fromDigit c ≠ 0 ↔ c ≠ '0') := by
  cases r with
  | kDec => exact fromDec_spec h
  | kHex => exact fromHex_spec h

/-- A property of the characters in a range can be checked one by one. -/
theorem of_inRange (P : Char → Prop) {lo hi c : Char} (n : Nat) (h : inRange lo hi c)
    (hn : hi.toNat = lo.toNat + n) (hall : ∀ k : Fin (n + 1), P (Char.ofNat (lo.toNat + k))) :
    P c := by
  obtain ⟨hlo, hhi⟩ := h
  have hc := hall ⟨c.toNat - lo.toNat, by omega⟩
  rwa [Nat.add_sub_cancel' hlo, Char.ofNat_toNat] at hc

theorem digitChar_fromDigit (h : r.IsDigit c) : (r.fromDigit c).toNat.digitChar = c.toLower := by
  cases r with
  | kDec => exact of_inRange (fun c => (fromDec c).toNat.digitChar = c.toLower) 9 h rfl (by decide)
  | kHex =>
    let P : Char → Prop := fun c => (fromHex c).toNat.digitChar = c.toLower
    rcases h with hdec | hlower | hupper
    · exact of_inRange P 9 hdec rfl (by decide)
    · exact of_inRange P 5 hlower rfl (by decide)
    · exact of_inRange P 5 hupper rfl (by decide)

theorem toLower_of_decDigit (h : DecDigit c) : c.toLower = c :=
  of_inRange (fun c => c.toLower = c) 9 h rfl (by decide)

/-- A numeral other than `0` starts with another digit. -/
theorem Numeral.exists_cons (h : Numeral str r) (hne : str ≠ ['0']) :
    ∃ c rest, str = c :: rest ∧ c ≠ '0' := by
  cases str with
  | nil => exact absurd rfl (digits_iff.mp h.digits).1
  | cons c rest => exact ⟨c, rest, rfl, fun hc => hne (h.leading (by rw [hc]; rfl))⟩

/-- **A numeral is the text of its value**, in lower case. -/
theorem Numeral.toDigits_number (h : Numeral str r) :
    Nat.toDigits r.base (number r.base r.fromDigit str) = str.map Char.toLower := by
  have hbase := r.one_lt_base
  induction str using List.reverseRecOn with
  | nil => exact absurd rfl (digits_iff.mp h.digits).1
  | append_singleton str c ih =>
    obtain ⟨-, hdigits⟩ := digits_iff.mp h.digits
    have hc : r.IsDigit c := hdigits c (by simp)
    obtain ⟨hlt, -⟩ := r.fromDigit_spec hc
    rw [number_append, number_singleton, length_singleton, Nat.pow_one, map_append,
      map_singleton]
    by_cases hnil : str = []
    · subst hnil
      simp only [number, map_nil, reverse_nil, Nat.ofDigits_nil, Nat.zero_mul,
        Nat.zero_add, nil_append]
      rw [Nat.toDigits_of_lt_base hlt, digitChar_fromDigit hc]
    · -- the digits in front are a numeral that is not zero
      obtain ⟨d, rest, hcons, hd⟩ := h.exists_cons fun heq => hnil (append_eq_singleton_iff.mp heq |>.elim (·.1) (by simp))
      obtain ⟨more, rfl⟩ : ∃ more, str = d :: more := by
        cases str with
        | nil => exact absurd rfl hnil
        | cons e more => exact ⟨more, by rw [(List.cons.inj hcons).1]⟩
      have hfront : Numeral (d :: more) r :=
        ⟨digits_iff.mpr ⟨hnil, fun e he => hdigits e (mem_append_left _ he)⟩,
          fun hhead => absurd (Option.some.inj hhead) hd⟩
      have hpos : 0 < number r.base r.fromDigit (d :: more) := by
        rw [Nat.pos_iff_ne_zero, number_ne_zero_iff (by omega)]
        exact ⟨d, by simp, (r.fromDigit_spec (hdigits d (by simp))).2.mpr hd⟩
      have happend := Nat.toDigits_append_toDigits hbase hpos hlt
      rw [Nat.mul_comm _ r.base, ← happend, ih hfront, Nat.toDigits_of_lt_base hlt,
        digitChar_fromDigit hc]

theorem isDigit_digitChar {d : Nat} (h : d < r.base) :
    r.IsDigit d.digitChar ∧ (r.fromDigit d.digitChar).toNat = d := by
  cases r with
  | kDec =>
    have htable : ∀ d : Fin 10, DecDigit d.val.digitChar ∧ (fromDec d.val.digitChar).toNat = d := by
      decide
    exact htable ⟨d, h⟩
  | kHex =>
    have htable : ∀ d : Fin 16, HexDigit d.val.digitChar ∧ (fromHex d.val.digitChar).toNat = d := by
      decide
    exact htable ⟨d, h⟩

/-- The text of a number is a numeral, and stands for that number. -/
theorem numeral_toDigits (r : Radix) (n : Nat) :
    Numeral (Nat.toDigits r.base n) r ∧ number r.base r.fromDigit (Nat.toDigits r.base n) = n := by
  have hbase := r.one_lt_base
  induction n using Nat.strong_induction_on with
  | _ n ih =>
    by_cases hlt : n < r.base
    · obtain ⟨hdigit, hvalue⟩ := isDigit_digitChar hlt
      rw [Nat.toDigits_of_lt_base hlt, number_singleton]
      refine ⟨⟨digits_iff.mpr ⟨by simp, by simpa using hdigit⟩, fun hhead => ?_⟩, hvalue⟩
      rw [Option.some.inj hhead]
    · have hdiv : 0 < n / r.base := Nat.div_pos (by omega) (by omega)
      obtain ⟨hfront, hvalue⟩ := ih (n / r.base) (Nat.div_lt_self (by omega) hbase)
      obtain ⟨hdigit, hlast⟩ := isDigit_digitChar (Nat.mod_lt n (by omega : 0 < r.base))
      rw [Nat.toDigits_eq_if hbase, if_neg hlt]
      refine ⟨⟨digits_iff.mpr ⟨by simp, ?_⟩, fun hhead => ?_⟩, ?_⟩
      · intro c hc
        obtain hc | hc := mem_append.mp hc
        · exact (digits_iff.mp hfront.digits).2 c hc
        · rwa [mem_singleton.mp hc]
      · -- the quotient would be zero
        rw [List.head?_append_of_ne_nil _ Nat.toDigits_ne_nil] at hhead
        rw [hfront.leading hhead, number_singleton] at hvalue
        have hzero : (r.fromDigit '0').toNat = 0 := by cases r <;> rfl
        omega
      · rw [number_append, number_singleton, hvalue, hlast, length_singleton, Nat.pow_one,
          Nat.mul_comm]
        exact Nat.div_add_mod n r.base

theorem toDec_parseDec (h : Numeral str .kDec) : ∃ a, parseDec str = .ok a ∧ a.toDec = .ok str := by
  obtain ⟨hne, hdec⟩ := digits_iff.mp h.digits
  by_cases hzero : str = ['0']
  · -- one limb too many, which `toDec` does not see
    subst hzero
    obtain ⟨⟨limbs⟩, hparse, hparsed, hlimbs⟩ := parseDec_parsed hne hdec
    obtain rfl : limbs = [0] := (hparsed.zero rfl).resolve_left hlimbs
    exact ⟨_, hparse, toDecLoop_singleton 0 []⟩
  · obtain ⟨a, hparse, hval, hnormal⟩ := parseDec_spec hne hdec
    obtain ⟨c, rest, rfl, hc⟩ := h.exists_cons hzero
    have hlower : (c :: rest).map Char.toLower = c :: rest := by
      rw [map_congr_left fun e he => toLower_of_decDigit (hdec e he), map_id']
    refine ⟨a, hparse, ?_⟩
    rw [toDec_eq (hnormal.mpr ⟨c, by simp, hc⟩), hval]
    exact congrArg Except.ok (h.toDigits_number.trans hlower)

theorem toHex_parseHex (h : Numeral str .kHex) :
    ∃ a, parseHex str = .ok a ∧ a.toHex = str.map Char.toLower := by
  obtain ⟨hne, hhex⟩ := digits_iff.mp h.digits
  obtain ⟨a, hparse, hval, hnormal⟩ := parseHex_spec hne hhex
  refine ⟨a, hparse, ?_⟩
  have htop : str.length ≤ 8 ∨ ∃ c ∈ topDigits str, c ≠ '0' := by
    by_cases hzero : str = ['0']
    · exact .inl (by simp [hzero])
    · obtain ⟨c, rest, rfl, hc⟩ := h.exists_cons hzero
      exact .inr ⟨c, by simp [topDigits], hc⟩
  rw [toHex_eq (hnormal.mpr htop), hval]
  exact h.toDigits_number

/-- **Text.**  A normal number is written as the numeral of its value, and a numeral that is
read is written back, a hexadecimal one in lower case. -/
theorem text_round_trip :
    (∀ a : UnsignedInt, a.isNormal = true →
      a.toDec = .ok (Nat.toDigits 10 a.val) ∧ a.toHex = Nat.toDigits 16 a.val) ∧
    (∀ str, Numeral str .kDec → ∃ a, ofString str .kDec = .ok a ∧ a.toDec = .ok str) ∧
    ∀ str, Numeral str .kHex → ∃ a, ofString str .kHex = .ok a ∧ a.toHex = str.map Char.toLower :=
  ⟨fun _ ha => ⟨toDec_eq ha, toHex_eq ha⟩, fun _ => toDec_parseDec, fun _ => toHex_parseHex⟩

/-- A segment of zeros inside of a number. -/
theorem text_round_trip_zeros :
    ∃ a, ofString "5000000000123".toList .kDec = .ok a ∧ a.toDec = .ok "5000000000123".toList :=
  text_round_trip.2.1 _ ⟨by simp [Digits]; decide, by simp⟩

end Muduo.UnsignedInt
