import Muduo.UnsignedInt.Sum

/-!
# Muduo.UnsignedInt.Exact

Products, quotients and powers, and with them the whole arithmetic of `UnsignedInt`.
-/

namespace Muduo.UnsignedInt

open Lib

/-! ## multiplication -/

/-- A product of two words with two more words added fits in 64 bits. -/
theorem product_lt {l x r c : Nat} (hl : l < base) (hx : x < base) (hr : r < base)
    (hc : c < base) : l * x + r + c < base * base := by
  have hle : l * x ≤ (base - 1) * (base - 1) := Nat.mul_le_mul (by omega) (by omega)
  unfold base at *
  omega

theorem multiplyLoop_spec (x : UInt32) (ls : List UInt32) {c : Nat} (hc : c < base) :
    ∃ ds c', multiplyLoop x ls c = .ok (ds, c') ∧ ds.length = ls.length ∧ c' < base ∧
      Carries base ((digits ls).map (x.toNat * ·)) c (digits ds) c' := by
  induction ls generalizing c with
  | nil => exact ⟨[], c, rfl, rfl, hc, .nil _⟩
  | cons l ls ih =>
    have hlt := product_lt (toNat_lt_base l) (toNat_lt_base x) (by decide : 0 < base) hc
    rw [Nat.add_zero] at hlt
    have hhigh : (l.toNat * x.toNat + c) / base < base := Nat.div_lt_of_lt_mul hlt
    obtain ⟨ds, c', hds, hlen, hc', hrest⟩ := ih hhigh
    refine ⟨.ofNat (l.toNat * x.toNat + c) :: ds, c', ?_, by simp [hlen], hc', ?_⟩
    · simp [multiplyLoop, exact64_of_lt hlt, highWord_eq, hds, bind, Except.bind, pure,
        Except.pure]
    · refine .cons ?_ hrest
      simp only [ofNat_add_div, Nat.mul_comm]

theorem multiplyWord_spec (a : UnsignedInt) (x : UInt32) :
    ∃ r, a.multiplyWord x = .ok r ∧ r.val = a.val * x.toNat ∧
      (a.isNormal = true → r.isNormal = true) := by
  by_cases hx : x = 0
  · exact ⟨⟨[]⟩, if_pos hx, by simp [val, hx], fun _ => rfl⟩
  · obtain ⟨ds, c, hds, hlen, hc, hprod⟩ := multiplyLoop_spec x a.limbs (by decide : 0 < base)
    have hsum := hprod.ofDigits_eq
    have hval : value ds + base ^ ds.length * c = a.val * x.toNat := by
      rw [Nat.add_zero, List.length_map, length_digits, ← hlen, ← Nat.mul_ofDigits,
        Nat.mul_comm x.toNat] at hsum
      exact hsum
    refine ⟨⟨pushCarry ds c⟩, ?_, ?_, fun ha => ?_⟩
    · simp [multiplyWord, hx, hds, bind, Except.bind, pure, Except.pure]
    · rw [val, value_pushCarry hc, hval]
    · refine isNormal_pushCarry hc fun hzero => isNormal_of_le ha hlen ?_
      have hpos : 0 < x.toNat := by
        rw [Nat.pos_iff_ne_zero]
        exact fun h => hx (UInt32.toNat_inj.mp h)
      rw [hzero, Nat.mul_zero, Nat.add_zero] at hval
      rw [hval]
      exact Nat.le_mul_of_pos_right _ hpos

/-- A row reads the limbs `rs` of the result and writes one limb behind them. -/
theorem multiplyRow_spec (y : UInt32) {ls rs : List UInt32} (hlen : rs.length = ls.length)
    (low tail : List UInt32) (z : UInt32) {c : Nat} (hc : c < base) :
    ∃ ds c', multiplyRow y ls low.length (low ++ (rs ++ z :: tail)) c =
        .ok (low ++ (ds ++ .ofNat c' :: tail)) ∧ ds.length = ls.length ∧ c' < base ∧
      Carries base (List.zipWith (· + ·) ((digits ls).map (y.toNat * ·)) (digits rs)) c
        (digits ds) c' := by
  induction ls generalizing rs low c with
  | nil =>
    obtain rfl : rs = [] := List.length_eq_zero_iff.mp hlen
    refine ⟨[], c, ?_, rfl, hc, .nil c⟩
    rw [multiplyRow, List.nil_append, limbAt_append]
    simp [bind, Except.bind, pure, Except.pure]
  | cons l ls ih =>
    cases rs with
    | nil => simp at hlen
    | cons r rs =>
      have hlt := product_lt (toNat_lt_base y) (toNat_lt_base l) (toNat_lt_base r) hc
      have hhigh : (y.toNat * l.toNat + r.toNat + c) / base < base := Nat.div_lt_of_lt_mul hlt
      obtain ⟨ds, c', hds, hdslen, hc', hrest⟩ :=
        ih (by simpa using hlen) (low ++ [.ofNat (y.toNat * l.toNat + r.toNat + c)]) hhigh
      refine ⟨.ofNat (y.toNat * l.toNat + r.toNat + c) :: ds, c', ?_, by simp [hdslen], hc', ?_⟩
      · rw [multiplyRow, List.cons_append, limbAt_append]
        simp only [exact64_of_lt hlt, highWord_eq, bind, Except.bind]
        rw [set_append]
        simpa using hds
      · exact .cons (ofNat_add_div _) hrest

/-- The rows from the `i`-th on: above the limbs written so far the result is zero. -/
theorem multiplyRows_spec (limbs ys front : List UInt32) {i : Nat}
    (hfront : front.length = i + limbs.length) :
    ∃ result, multiplyRows limbs ys i (front ++ List.replicate ys.length 0) = .ok result ∧
      result.length = front.length + ys.length ∧
      value result = value front + base ^ i * (value ys * value limbs) := by
  induction ys generalizing i front with
  | nil => exact ⟨front, by simp [multiplyRows], rfl, by simp⟩
  | cons y ys ih =>
    -- the limb above `front` is written by this row and read by later ones
    have hzeros : front ++ List.replicate (y :: ys).length 0 =
        front ++ 0 :: List.replicate ys.length 0 := rfl
    by_cases hy : y = 0
    · obtain ⟨result, hok, hlen, hval⟩ := ih (front ++ [0]) (i := i + 1) (by simp [hfront]; omega)
      refine ⟨result, ?_, ?_, ?_⟩
      · rw [multiplyRows, if_pos hy, hzeros]
        simpa using hok
      · rw [hlen]
        simp
        omega
      · rw [hval, value_append, value_singleton, value_cons, hy, Nat.pow_succ]
        simp only [UInt32.toNat_zero]
        ring
    · obtain ⟨low, rs, rfl, rfl⟩ : ∃ low rs, front = low ++ rs ∧ low.length = i :=
        ⟨front.take i, front.drop i, (List.take_append_drop i front).symm, by simp; omega⟩
      have hrs : rs.length = limbs.length := by simpa using hfront
      obtain ⟨ds, c, hrow, hds, hc, hcarries⟩ :=
        multiplyRow_spec y hrs low (List.replicate ys.length 0) 0 (by decide : 0 < base)
      obtain ⟨result, hok, hlen, hval⟩ := ih (low ++ ds ++ [.ofNat c]) (i := low.length + 1)
        (by simp [hds]; omega)
      refine ⟨result, ?_, ?_, ?_⟩
      · rw [multiplyRows, if_neg hy, hzeros, List.append_assoc, hrow]
        simpa [bind, Except.bind] using hok
      · rw [hlen]
        simp [hds, hrs]
        omega
      · have hrowval := hcarries.ofDigits_eq
        rw [ofDigits_zipWith_add (by simpa using hrs.symm), ← Nat.mul_ofDigits] at hrowval
        simp only [List.length_zipWith, List.length_map, length_digits, hrs, Nat.min_self,
          Nat.add_zero] at hrowval
        have hword : (UInt32.ofNat c).toNat = c := UInt32.toNat_ofNat_of_lt' hc
        rw [hval, List.append_assoc, value_append, value_append, value_append, value_singleton,
          hword, hds, value_cons, Nat.pow_succ]
        change value ds + base ^ limbs.length * c = y.toNat * value limbs + value rs at hrowval
        rw [hrowval]
        ring

theorem value_popZero (ls : List UInt32) : value (popZero ls) = value ls := by
  unfold popZero
  split
  · rename_i hlast
    obtain ⟨init, rfl⟩ := List.getLast?_eq_some_iff.mp hlast
    rw [List.dropLast_concat, value_append, value_singleton]
    simp
  · rfl

/-- Limbs with at most one zero at the top: the value needs all but one of them. -/
theorem isNormal_popZero {ls : List UInt32}
    (h : ls.length ≤ 1 ∨ base ^ (ls.length - 2) ≤ value ls) : isNormal ⟨popZero ls⟩ = true := by
  have hval := value_popZero ls
  unfold popZero at hval ⊢
  split
  · rename_i hlast
    rw [if_pos hlast] at hval
    rw [isNormal_iff, hval, List.length_dropLast]
    rcases h with h | h
    · exact .inl (List.length_eq_zero_iff.mp (by rw [List.length_dropLast]; omega))
    · exact .inr h
  · rename_i hlast
    simp [isNormal, hlast]

theorem multiply_spec (a : UnsignedInt) (x : Arg) :
    ∃ r, a.multiply x = .ok r ∧ r.val = a.val * (x.get a).val ∧
      (a.isNormal = true → (x.get a).isNormal = true → r.isNormal = true) := by
  obtain ⟨bs, hbs⟩ : ∃ bs, x.limbs a.limbs = bs := ⟨_, rfl⟩
  have hget : (x.get a).val = value bs := by rw [val, Arg.get, hbs]
  by_cases hempty : a.limbs.isEmpty || bs.isEmpty
  · refine ⟨⟨[]⟩, ?_, ?_, fun _ _ => rfl⟩
    · simp only [multiply, hbs, hempty, if_true]
    · rw [hget]
      rcases (Bool.or_eq_true _ _).mp hempty with h | h
      · simp [val, List.isEmpty_iff.mp h]
      · simp [val, List.isEmpty_iff.mp h]
  · obtain ⟨result, hok, hlen, hval⟩ :=
      multiplyRows_spec a.limbs bs (List.replicate a.limbs.length 0) (i := 0) (by simp)
    rw [value_replicate_zero, Nat.zero_add, Nat.pow_zero, Nat.one_mul, Nat.mul_comm] at hval
    rw [List.replicate_append_replicate] at hok
    refine ⟨⟨popZero result⟩, ?_, ?_, fun ha hx => ?_⟩
    · simp only [multiply, hbs, hempty, hok, bind, Except.bind, pure, Except.pure]
      rfl
    · rw [val, value_popZero, hval, hget]
      rfl
    · simp only [Bool.or_eq_true, List.isEmpty_iff, not_or] at hempty
      have hapow := (isNormal_iff.mp ha).resolve_left hempty.1
      rw [Arg.get, hbs] at hx
      have hbpow := (isNormal_iff.mp hx).resolve_left hempty.2
      have hapos := List.length_pos_iff.mpr hempty.1
      have hbpos := List.length_pos_iff.mpr hempty.2
      refine isNormal_popZero (.inr ?_)
      rw [hval, hlen, List.length_replicate]
      calc base ^ (a.limbs.length + bs.length - 2)
          = base ^ (a.limbs.length - 1) * base ^ (bs.length - 1) := by
            rw [← Nat.pow_add]
            congr 1
            omega
        _ ≤ value a.limbs * value bs := Nat.mul_le_mul hapow hbpow

/-! ## division and powers -/

/-- A remainder and a limb, divided: the two words fit in 64 bits, and their quotient is
one word. -/
theorem devide_word {x l : UInt32} {r : Nat} (hr : r < x.toNat) :
    shiftWord r + l.toNat < 2 ^ 64 ∧ (shiftWord r + l.toNat) / x.toNat < base := by
  have hl := toNat_lt_base l
  have hx := toNat_lt_base x
  have hlow : shiftWord r + l.toNat < x.toNat * base := by
    unfold shiftWord base at *
    omega
  constructor
  · unfold shiftWord base at *
    omega
  · rw [Nat.div_lt_iff_lt_mul (by omega), Nat.mul_comm base]
    exact hlow

/-- The quotient's limbs and the remainder, multiplied out again, are the limbs of the
number. -/
theorem devideLoop_spec {x : UInt32} (hx : x ≠ 0) (ls : List UInt32) :
    ∃ qs r, devideLoop x ls = .ok (qs, r) ∧ qs.length = ls.length ∧ r < x.toNat ∧
      Carries base ((digits qs).map (x.toNat * ·)) r (digits ls) 0 := by
  have hpos : 0 < x.toNat := by
    rw [Nat.pos_iff_ne_zero]
    exact fun h => hx (UInt32.toNat_inj.mp h)
  induction ls with
  | nil => exact ⟨[], 0, rfl, rfl, hpos, .nil 0⟩
  | cons l ls ih =>
    obtain ⟨qs, r, hqs, hlen, hr, hrest⟩ := ih
    obtain ⟨hfits, hquot⟩ := devide_word (l := l) hr
    have hdigit : l.toNat + base * r = shiftWord r + l.toNat := by
      unfold shiftWord base
      omega
    have hloop : devideLoop x (l :: ls) = .ok (.ofNat ((shiftWord r + l.toNat) / x.toNat) :: qs,
        (shiftWord r + l.toNat) % x.toNat) := by
      rw [devideLoop, hqs, ok_bind]
      dsimp only
      rw [exact64_of_lt hfits, ok_bind, check_of hx, ok_bind]
      rfl
    generalize shiftWord r + l.toNat = prod at *
    refine ⟨.ofNat (prod / x.toNat) :: qs, prod % x.toNat, hloop, by simp [hlen],
      Nat.mod_lt _ hpos, ?_⟩
    refine .cons ?_ hrest
    rw [UInt32.toNat_ofNat_of_lt' hquot, Nat.div_add_mod, hdigit]

theorem devide_spec {a : UnsignedInt} {x : UInt32} (ha : a.isNormal = true) (hx : x ≠ 0) :
    ∃ q r, a.devide x = .ok (q, r) ∧ q.val = a.val / x.toNat ∧ r.toNat = a.val % x.toNat ∧
      q.isNormal = true := by
  obtain ⟨qs, r, hqs, hlen, hr, hcarries⟩ := devideLoop_spec hx a.limbs
  have hpos : 0 < x.toNat := Nat.lt_of_le_of_lt (Nat.zero_le r) hr
  have hval : a.val = x.toNat * value qs + r := by
    have hsum := hcarries.ofDigits_eq
    rw [← Nat.mul_ofDigits, Nat.mul_zero, Nat.add_zero] at hsum
    exact hsum
  have hquot : value qs = a.val / x.toNat := by
    rw [hval, Nat.mul_add_div hpos, Nat.div_eq_of_lt hr, Nat.add_zero]
  have hrem : r = a.val % x.toNat := by
    rw [hval, Nat.mul_add_mod, Nat.mod_eq_of_lt hr]
  -- a divisor of one word takes at most one limb away
  have hnormal : isNormal ⟨popZero qs⟩ = true := by
    refine isNormal_popZero ?_
    rw [hlen, hquot, Nat.le_div_iff_mul_le hpos]
    rcases isNormal_iff.mp ha with hnil | hpow
    · exact .inl (by simp [hnil])
    · by_cases hone : a.limbs.length ≤ 1
      · exact .inl hone
      · refine .inr ?_
        calc base ^ (a.limbs.length - 2) * x.toNat
            ≤ base ^ (a.limbs.length - 2) * base :=
              Nat.mul_le_mul_left _ (toNat_lt_base x).le
          _ = base ^ (a.limbs.length - 1) := by
              rw [← Nat.pow_succ]
              congr 1
              omega
          _ ≤ a.val := hpow
  refine ⟨⟨popZero qs⟩, .ofNat r, ?_, ?_, ?_, hnormal⟩
  · simp [devide, hqs, check_of hnormal, bind, Except.bind, pure, Except.pure]
  · rw [val, value_popZero, hquot]
  · rw [UInt32.toNat_ofNat_of_lt' (hr.trans (toNat_lt_base x)), hrem]

/-- Square and multiply: `result` times the power that is left. -/
theorem powerLoop_spec (n : Nat) {a result : UnsignedInt} (ha : a.isNormal = true)
    (hresult : result.isNormal = true) :
    ∃ r, powerLoop n a result = .ok r ∧ r.val = result.val * a.val ^ n ∧ r.isNormal = true := by
  induction n using Nat.strong_induction_on generalizing a result with
  | h n ih =>
    rw [powerLoop]
    by_cases hn : n = 0
    · exact ⟨result, by simp [hn], by simp [hn], hresult⟩
    · obtain ⟨b, hsquare, hbval, hb⟩ := multiply_spec a .self
      obtain ⟨r, hr, hrval, hrn⟩ : ∃ r,
          (if n % 2 = 1 then result.multiply (.other a) else .ok result) = .ok r ∧
            r.val = result.val * a.val ^ (n % 2) ∧ r.isNormal = true := by
        by_cases hodd : n % 2 = 1
        · obtain ⟨r, hr, hrval, hrn⟩ := multiply_spec result (.other a)
          exact ⟨r, by rw [if_pos hodd, hr], by rw [hrval, hodd, Nat.pow_one]; rfl, hrn hresult ha⟩
        · exact ⟨result, if_neg hodd, by simp [show n % 2 = 0 by omega], hresult⟩
      obtain ⟨p, hp, hpval, hpn⟩ := ih (n / 2) (by omega) (hb ha ha) hrn
      refine ⟨p, ?_, ?_, hpn⟩
      · simp only [if_neg hn, hsquare, bind, Except.bind]
        by_cases hodd : n % 2 = 1
        · rw [if_pos hodd] at hr ⊢
          rw [hr]
          exact hp
        · rw [if_neg hodd] at hr ⊢
          cases hr
          exact hp
      · have hself : b.val = a.val ^ 2 := by rw [hbval, Nat.pow_two]; rfl
        rw [hpval, hrval, hself, ← Nat.pow_mul, Nat.mul_assoc, ← Nat.pow_add,
          Nat.mod_add_div n 2]

theorem val_ofUInt32 (x : UInt32) : (ofUInt32 x).val = x.toNat := by
  unfold ofUInt32
  split
  · exact value_singleton x
  · rename_i hx
    have hzero : x.toNat = 0 := by simpa [UInt32.lt_iff_toNat_lt] using hx
    rw [hzero]
    rfl

theorem isNormal_ofUInt32 (x : UInt32) : (ofUInt32 x).isNormal = true := by
  unfold ofUInt32
  split
  · rename_i hx
    simp [isNormal, (UInt32.ne_of_lt hx).symm]
  · rfl

theorem assign_eq (x : UInt32) : assign x = ofUInt32 x := by
  unfold assign ofUInt32
  by_cases hx : x = 0
  · simp [hx]
  · have hpos : 0 < x := by
      rw [UInt32.lt_iff_toNat_lt]
      exact Nat.pos_of_ne_zero fun h => hx (UInt32.toNat_inj.mp h)
    simp [hx, hpos]

theorem power_spec {a : UnsignedInt} (n : UInt32) (ha : a.isNormal = true) :
    ∃ r, a.power n = .ok r ∧ r.val = a.val ^ n.toNat ∧ r.isNormal = true := by
  unfold power
  by_cases hzero : n = 0
  · refine ⟨assign 1, if_pos hzero, ?_, ?_⟩
    · rw [assign_eq, val_ofUInt32, hzero]
      rfl
    · rw [assign_eq]
      exact isNormal_ofUInt32 1
  · rw [if_neg hzero]
    by_cases hmore : 1 < n
    · obtain ⟨r, hr, hrval, hrn⟩ := powerLoop_spec n.toNat ha (isNormal_ofUInt32 1)
      refine ⟨r, by rw [if_pos hmore, hr], ?_, hrn⟩
      rw [hrval, val_ofUInt32]
      exact Nat.one_mul _
    · have hone : n.toNat = 1 := by
        have hle : ¬ 1 < n.toNat := by simpa [UInt32.lt_iff_toNat_lt] using hmore
        have hne : n.toNat ≠ 0 := fun h => hzero (UInt32.toNat_inj.mp h)
        omega
      exact ⟨a, if_neg hmore, by rw [hone, Nat.pow_one], ha⟩

/-! ## the arithmetic -/

/-- What the operations do on the object `a`, with the argument `y` or the word `x`, and
with the exponent `n`.  An operation that returns had no 64-bit intermediate that
wraps. -/
structure Exact (a : UnsignedInt) (y : Arg) (x n : UInt32) : Prop where
  addWord : ∃ r, a.addWord x = .ok r ∧ r.val = a.val + x.toNat ∧
    (x ≠ 0 ∨ a.isZero = false → r.isNormal = true)
  add : ∃ r, a.add y = .ok r ∧ r.val = a.val + (y.get a).val ∧ r.isNormal = true
  sub : (y.get a).val ≤ a.val →
    ∃ r, a.sub y = .ok r ∧ r.val = a.val - (y.get a).val ∧ r.isNormal = true
  underflow : a.sub y = .error .underflow ↔ a.val < (y.get a).val
  multiplyWord : ∃ r, a.multiplyWord x = .ok r ∧ r.val = a.val * x.toNat ∧ r.isNormal = true
  multiply : ∃ r, a.multiply y = .ok r ∧ r.val = a.val * (y.get a).val ∧ r.isNormal = true
  devide : 0 < x → ∃ q r, a.devide x = .ok (q, r) ∧ q.val = a.val / x.toNat ∧
    r.toNat = a.val % x.toNat ∧ q.isNormal = true
  power : ∃ r, a.power n = .ok r ∧ r.val = a.val ^ n.toNat ∧ r.isNormal = true

/-- **Exact arithmetic.** On normal numbers every operation returns the mathematical
result, also when the argument is the object itself, and `sub` aborts exactly when the
result would be negative. -/
theorem arithmetic_exact {a : UnsignedInt} {y : Arg} (ha : a.isNormal = true)
    (hy : (y.get a).isNormal = true) (x n : UInt32) : Exact a y x n := by
  obtain ⟨hsub, hunder⟩ := sub_spec ha hy
  obtain ⟨r, hadd, haddval, haddn⟩ := add_spec a y
  obtain ⟨w, hword, hwordval, hwordn⟩ := addWord_spec a x
  obtain ⟨m, hmul, hmulval, hmuln⟩ := multiply_spec a y
  obtain ⟨k, hmulw, hmulwval, hmulwn⟩ := multiplyWord_spec a x
  exact {
    addWord := ⟨w, hword, hwordval, (hwordn ha).mpr⟩
    add := ⟨r, hadd, haddval, haddn ha hy⟩
    sub := hsub
    underflow := by
      refine ⟨fun herror => ?_, hunder⟩
      by_contra hle
      obtain ⟨r, hok, -⟩ := hsub (Nat.not_lt.mp hle)
      rw [hok] at herror
      cases herror
    multiplyWord := ⟨k, hmulw, hmulwval, hmulwn ha⟩
    multiply := ⟨m, hmul, hmulval, hmuln ha hy⟩
    devide := fun hx => devide_spec ha (UInt32.ne_of_lt hx).symm
    power := power_spec n ha }

/-- Doubling a number that ends in a full limb, with the object as its own argument. -/
theorem arithmetic_exact_self :
    isNormal ⟨[0xFFFFFFFF, 1]⟩ = true ∧ ∃ r, (⟨[0xFFFFFFFF, 1]⟩ : UnsignedInt).add .self = .ok r ∧
      r.val = val ⟨[0xFFFFFFFF, 1]⟩ + val ⟨[0xFFFFFFFF, 1]⟩ ∧ r.isNormal = true :=
  ⟨by decide, (arithmetic_exact (a := ⟨[0xFFFFFFFF, 1]⟩) (y := .self) (by decide) (by decide)
    7 3).add⟩

end Muduo.UnsignedInt
