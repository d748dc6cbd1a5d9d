import Muduo.UnsignedInt.Value

/-!
# Muduo.UnsignedInt.Sum

Sums and differences.  Each loop is an instance of `Lib.Carries`, which gives the
value of its limbs; a difference is the instance in which the limbs of the minuend
are the digits.

The loops over the limbs of both operands overwrite the object while they read the
argument.  `Reads` says what the argument still holds, whether or not it is the
object itself.
-/

namespace Muduo.UnsignedInt

open Lib List

/-! ## words -/

theorem exact64_of_lt {n : Nat} (h : n < 2 ^ 64) : exact64 n = .ok n := by
  rw [exact64, check_of h]
  rfl

theorem ofNat_add_div (n : Nat) : (UInt32.ofNat n).toNat + base * (n / base) = n := by
  rw [UInt32.toNat_ofNat']
  exact Nat.mod_add_div n base

theorem carryOf_eq {n : Nat} (h : n < 2 * base) : carryOf n = n / base := by
  unfold carryOf kMask base at *
  split <;> omega

theorem highWord_eq (n : Nat) : highWord n = n / base := by
  rw [highWord, Nat.div_div_eq_div_mul]
  rfl

theorem limbAt_append (done rest : List UInt32) (l : UInt32) :
    limbAt (done ++ l :: rest) done.length = .ok l := by
  simp [limbAt]

theorem set_append (done rest : List UInt32) (l d : UInt32) :
    (done ++ l :: rest).set done.length d = done ++ [d] ++ rest := by
  simp

/-- The limbs of the argument from `i` on, while the object has the limbs `limbs`. -/
def Reads (x : Arg) (i : Nat) (bs limbs : List UInt32) : Prop :=
  ∀ k b, bs[k]? = some b → (x.limbs limbs)[i + k]? = some b

variable {x : Arg} {c : UInt64}

theorem Reads.head {i : Nat} {b : UInt32} {bs limbs : List UInt32}
    (h : Reads x i (b :: bs) limbs) : limbAt (x.limbs limbs) i = .ok b := by
  have hb := h 0 b rfl
  rw [Nat.add_zero] at hb
  simp [limbAt, hb]

/-- What is written at `i` is not read again, also when the object is its own
argument. -/
theorem Reads.tail {i : Nat} {b : UInt32} {bs limbs : List UInt32}
    (h : Reads x i (b :: bs) limbs) (d : UInt32) : Reads x (i + 1) bs (limbs.set i d) := by
  intro k c hk
  have hc := h (k + 1) c hk
  rw [show i + (k + 1) = i + 1 + k by omega] at hc
  cases x with
  | self =>
    rw [Arg.limbs] at hc ⊢
    rw [List.getElem?_set_ne (by omega), hc]
  | other x => exact hc

/-! ## addition -/

theorem addCarry_spec (ls : List UInt32) {c : Nat} (hc : c ≤ 1) :
    ∃ ds c', addCarry ls c = .ok (ds, c') ∧ ds.length = ls.length ∧ c' ≤ 1 ∧
      Carries base (digits ls) c (digits ds) c' := by
  induction ls generalizing c with
  | nil => exact ⟨[], c, rfl, rfl, hc, .nil c⟩
  | cons l ls ih =>
    by_cases hzero : c = 0
    · subst hzero
      exact ⟨l :: ls, 0, by simp [addCarry], rfl, hc, .refl _⟩
    · have hl := toNat_lt_base l
      have hsum : l.toNat + c < 2 * base := by
        unfold base at *
        omega
      have hcarry : carryOf (l.toNat + c) ≤ 1 := by
        unfold carryOf
        split <;> omega
      obtain ⟨ds, c', hds, hlen, hc', hrest⟩ := ih hcarry
      refine ⟨.ofNat (l.toNat + c) :: ds, c', ?_, by simp [hlen], hc', ?_⟩
      · have hexact := exact64_of_lt (show l.toNat + c < 2 ^ 64 by unfold base at *; omega)
        simp [addCarry, hzero, hexact, hds, bind, Except.bind, pure, Except.pure]
      · rw [carryOf_eq hsum] at hrest
        exact .cons (ofNat_add_div _) hrest

theorem addLoop_spec (x : Arg) {as bs : List UInt32} (hlen : as.length = bs.length)
    (done rest : List UInt32) {c : Nat} (hc : c ≤ 1)
    (hreads : Reads x done.length bs (done ++ (as ++ rest))) :
    ∃ ds c', addLoop x as.length done.length (done ++ (as ++ rest)) c =
        .ok (done ++ (ds ++ rest), c') ∧ ds.length = as.length ∧ c' ≤ 1 ∧
      Carries base (List.zipWith (· + ·) (digits as) (digits bs)) c (digits ds) c' := by
  induction as generalizing bs done c with
  | nil => exact ⟨[], c, rfl, rfl, hc, by simpa using Carries.nil c⟩
  | cons a as ih =>
    cases bs with
    | nil => simp at hlen
    | cons b bs =>
      have ha := toNat_lt_base a
      have hb := toNat_lt_base b
      have hsum : a.toNat + b.toNat + c < 2 * base := by
        unfold base at *
        omega
      have hexact := exact64_of_lt
        (show a.toNat + b.toNat + c < 2 ^ 64 by unfold base at *; omega)
      have hcarry : carryOf (a.toNat + b.toNat + c) ≤ 1 := by
        unfold carryOf
        split <;> omega
      have hnext := hreads.tail (.ofNat (a.toNat + b.toNat + c))
      rw [cons_append, set_append] at hnext
      obtain ⟨ds, c', hds, hdslen, hc', hrest⟩ :=
        ih (by simpa using hlen) (done ++ [.ofNat (a.toNat + b.toNat + c)]) hcarry
          (by simpa using hnext)
      refine ⟨.ofNat (a.toNat + b.toNat + c) :: ds, c', ?_, by simp [hdslen], hc', ?_⟩
      · rw [length_cons, addLoop, hreads.head, cons_append, limbAt_append]
        simp only [hexact, bind, Except.bind]
        rw [set_append]
        simpa using hds
      · rw [carryOf_eq hsum] at hrest
        exact .cons (ofNat_add_div _) hrest

theorem addWord_spec (a : UnsignedInt) (x : UInt32) :
    ∃ r, a.addWord x = .ok r ∧ r.val = a.val + x.toNat ∧
      (a.isNormal = true → (r.isNormal = true ↔ x ≠ 0 ∨ a.isZero = false)) := by
  obtain ⟨ls⟩ := a
  cases ls with
  | nil => exact ⟨⟨[x]⟩, rfl, by simp [val, value_singleton], by simp [isNormal, isZero]⟩
  | cons l ls =>
    have hl := toNat_lt_base l
    have hx := toNat_lt_base x
    have hsum : l.toNat + x.toNat < 2 * base := by omega
    have hexact := exact64_of_lt (show l.toNat + x.toNat < 2 ^ 64 by unfold base at *; omega)
    have hcarry : carryOf (l.toNat + x.toNat) ≤ 1 := by
      unfold carryOf
      split <;> omega
    obtain ⟨ds, c, hds, hlen, hc, hrest⟩ := addCarry_spec ls hcarry
    rw [carryOf_eq hsum] at hrest
    -- the word is the carry into the lowest limb
    have hall : Carries base (digits (l :: ls)) x.toNat
        (digits (.ofNat (l.toNat + x.toNat) :: ds)) c := .cons (ofNat_add_div _) hrest
    have hcbase : c < base := Nat.lt_of_le_of_lt hc one_lt_base
    have hval : value (.ofNat (l.toNat + x.toNat) :: ds) + base ^ (ds.length + 1) * c =
        value (l :: ls) + x.toNat := by
      have heq := hall.ofDigits_eq
      rw [length_digits, length_cons, ← hlen] at heq
      exact heq
    refine ⟨⟨pushCarry (.ofNat (l.toNat + x.toNat) :: ds) c⟩, ?_, ?_, fun ha => ?_⟩
    · simp [addWord, hexact, hds, bind, Except.bind, pure, Except.pure]
    · rw [val, value_pushCarry hcbase, length_cons, hval]
      rfl
    · refine iff_of_true (isNormal_pushCarry hcbase fun hzero => ?_) (.inr rfl)
      refine isNormal_of_le ha (by simp [hlen]) ?_
      rw [hzero] at hval
      omega

theorem value_resize (ls : List UInt32) (n : Nat) :
    ∃ full, (if n > ls.length then ls ++ List.replicate (n - ls.length) 0 else ls) = full ∧
      full.length = max ls.length n ∧ value full = value ls ∧ (n ≤ ls.length → full = ls) := by
  by_cases hn : n > ls.length
  · refine ⟨_, if_pos hn, ?_, ?_, fun hle => absurd hle (by omega)⟩
    · simp
      omega
    · simp [value_append, value_replicate_zero]
  · exact ⟨ls, if_neg hn, by omega, rfl, fun _ => rfl⟩

theorem addCarry_zero (ls : List UInt32) : addCarry ls 0 = .ok (ls, 0) := by
  cases ls with
  | nil => rfl
  | cons l ls => simp [addCarry]

/-- The columns of a sum whose second operand may have fewer limbs. -/
theorem ofDigits_sum_columns {full bs : List UInt32} (hle : bs.length ≤ full.length) :
    Nat.ofDigits base (List.zipWith (· + ·) (digits (full.take bs.length)) (digits bs) ++
      digits (full.drop bs.length)) = value full + value bs := by
  have htake : (full.take bs.length).length = bs.length := by
    rw [length_take]
    omega
  have hsplit := value_append (full.take bs.length) (full.drop bs.length)
  rw [take_append_drop, htake] at hsplit
  rw [Nat.ofDigits_append, ofDigits_zipWith_add (by simpa using htake), hsplit]
  simp only [length_zipWith, length_digits, htake, Nat.min_self, value]
  ring

/-- Both loops of `add`, once the object has at least as many limbs as the argument. -/
theorem addLoop_addCarry_spec (x : Arg) {full bs : List UInt32} (hle : bs.length ≤ full.length)
    (hreads : Reads x 0 bs full) :
    ∃ ds c rest c', addLoop x bs.length 0 full 0 = .ok (ds ++ full.drop bs.length, c) ∧
      ds.length = bs.length ∧ addCarry (full.drop bs.length) c = .ok (rest, c') ∧
      (ds ++ rest).length = full.length ∧ c' ≤ 1 ∧
      value (ds ++ rest) + base ^ full.length * c' = value full + value bs := by
  have htake : (full.take bs.length).length = bs.length := by
    rw [length_take]
    omega
  obtain ⟨ds, c, hloop, hds, hc, hsum⟩ := addLoop_spec x htake [] (full.drop bs.length)
    (Nat.zero_le 1) (by simpa using hreads)
  obtain ⟨rest, c', hcarry, hrest, hc', htail⟩ := addCarry_spec (full.drop bs.length) hc
  simp only [take_append_drop, nil_append, length_nil, htake] at hloop
  have hlen : (ds ++ rest).length = full.length := by
    simp only [length_append, length_drop, hds, hrest, htake]
    omega
  refine ⟨ds, c, rest, c', hloop, hds.trans htake, hcarry, hlen, hc', ?_⟩
  have hall := (hsum.append htail).ofDigits_eq
  have hwidth : (List.zipWith (· + ·) (digits (full.take bs.length)) (digits bs) ++
      digits (full.drop bs.length)).length = full.length := by
    simp only [length_append, length_zipWith, length_digits, htake, length_drop]
    omega
  rw [ofDigits_sum_columns hle, hwidth, ← digits_append, Nat.add_zero] at hall
  exact hall

theorem add_spec (a : UnsignedInt) (x : Arg) :
    ∃ r, a.add x = .ok r ∧ r.val = a.val + (x.get a).val ∧
      (a.isNormal = true → (x.get a).isNormal = true → r.isNormal = true) := by
  obtain ⟨bs, hbs⟩ : ∃ bs, x.limbs a.limbs = bs := ⟨_, rfl⟩
  obtain ⟨full, hfull, hlen, hvalue, hsame⟩ := value_resize a.limbs bs.length
  have hle : bs.length ≤ full.length := by omega
  have hreads : Reads x 0 bs full := by
    intro k b hk
    rw [Nat.zero_add]
    cases x with
    | self =>
      obtain rfl : a.limbs = bs := hbs
      rw [Arg.limbs, hsame (Nat.le_refl _)]
      exact hk
    | other x =>
      obtain rfl : x.limbs = bs := hbs
      exact hk
  obtain ⟨ds, c, rest, c', hloop, hds, hcarry, hlimbs, hc', hsum⟩ :=
    addLoop_addCarry_spec x hle hreads
  have hcbase : c' < base := Nat.lt_of_le_of_lt hc' one_lt_base
  have hget : (x.get a).val = value bs := by rw [val, Arg.get, hbs]
  have hval : value (pushCarry (ds ++ rest) c') = a.val + (x.get a).val := by
    rw [value_pushCarry hcbase, hlimbs, hget, hsum, hvalue]
    rfl
  refine ⟨⟨pushCarry (ds ++ rest) c'⟩, ?_, hval, fun ha hx => ?_⟩
  · simp only [add, hbs, hfull, Nat.min_eq_right hle, hloop, bind, Except.bind, pure, Except.pure]
    by_cases hzero : c = 0
    · subst hzero
      rw [addCarry_zero] at hcarry
      cases hcarry
      simp [pushCarry]
    · have hdrop : (ds ++ full.drop bs.length).drop bs.length = full.drop bs.length := by
        rw [← hds, drop_left]
      have htake : (ds ++ full.drop bs.length).take bs.length = ds := by
        rw [← hds, take_left]
      simp [hzero, hdrop, htake, hcarry]
  · refine isNormal_pushCarry hcbase fun hzero => ?_
    have hsumval : value (ds ++ rest) = a.val + (x.get a).val := by
      rw [← hval, hzero]
      rfl
    -- the longer operand has as many limbs as the sum
    rcases Nat.le_total a.limbs.length bs.length with hshort | hshort
    · refine isNormal_of_le hx ?_ ?_
      · rw [hlimbs, hlen, hbs]
        omega
      · rw [hsumval]
        exact Nat.le_add_left _ _
    · refine isNormal_of_le ha (by omega) ?_
      rw [hsumval]
      exact Nat.le_add_right _ _

/-! ## subtraction -/

/-- One column of a difference: the wrapped 64-bit difference has the limb in its low
word, and a non-zero high word exactly when it borrows. -/
theorem borrow_step (l r : UInt32) (hc : c.toNat ≤ 1) : let sum := l.toUInt64 - r.toUInt64 - c
    let c' : UInt64 := if sum > .ofNat kMask then 1 else 0
    c'.toNat ≤ 1 ∧ l.toNat + base * c'.toNat = sum.toUInt32.toNat + r.toNat + c.toNat := by
  intro sum c'
  have hl := l.toNat_lt
  have hr := r.toNat_lt
  have hsum : sum.toNat = (2 ^ 64 - c.toNat + (2 ^ 64 - r.toNat + l.toNat) % 2 ^ 64) % 2 ^ 64 := by
    simp [sum, UInt64.toNat_sub]
  have hlow : sum.toUInt32.toNat = sum.toNat % 2 ^ 32 := UInt64.toNat_toUInt32 sum
  have hgt : sum > .ofNat kMask ↔ 0xFFFFFFFF < sum.toNat := by
    rw [gt_iff_lt, UInt64.lt_iff_toNat_lt]
    rfl
  unfold base
  by_cases hborrow : 0xFFFFFFFF < sum.toNat
  · have hone : c'.toNat = 1 := by simp [c', hgt.mpr hborrow]
    omega
  · have hzero : c'.toNat = 0 := by simp [c', hgt, hborrow]
    omega

theorem subCarry_spec (ls : List UInt32) (hc : c.toNat ≤ 1) :
    ∃ ds c', subCarry ls c = (ds, c') ∧ ds.length = ls.length ∧ c'.toNat ≤ 1 ∧
      Carries base (digits ds) c.toNat (digits ls) c'.toNat := by
  induction ls generalizing c with
  | nil => exact ⟨[], c, rfl, rfl, hc, .nil _⟩
  | cons l ls ih =>
    by_cases hzero : c = 0
    · subst hzero
      exact ⟨l :: ls, 0, by simp [subCarry], rfl, hc, .refl _⟩
    · obtain ⟨hc', hstep⟩ := borrow_step l 0 hc
      have hsub : l.toUInt64 - (0 : UInt32).toUInt64 - c = l.toUInt64 - c := by
        simp
      rw [hsub] at hc' hstep
      obtain ⟨ds, c', hds, hlen, hle, hrest⟩ := ih hc'
      refine ⟨(l.toUInt64 - c).toUInt32 :: ds, c', ?_, by simp [hlen], hle, ?_⟩
      · simp only [subCarry, hzero, if_false, hds]
      · exact .cons (by simpa using hstep) hrest

theorem subLoop_spec (x : Arg) {as bs : List UInt32} (hlen : as.length = bs.length)
    (done rest : List UInt32) (hc : c.toNat ≤ 1)
    (hreads : Reads x done.length bs (done ++ (as ++ rest))) :
    ∃ ds c', subLoop x as.length done.length (done ++ (as ++ rest)) c =
        .ok (done ++ (ds ++ rest), c') ∧ ds.length = as.length ∧ c'.toNat ≤ 1 ∧
      Carries base (List.zipWith (· + ·) (digits ds) (digits bs)) c.toNat (digits as) c'.toNat := by
  induction as generalizing bs done c with
  | nil => exact ⟨[], c, rfl, rfl, hc, by simpa using Carries.nil _⟩
  | cons a as ih =>
    cases bs with
    | nil => simp at hlen
    | cons b bs =>
      obtain ⟨hc', hstep⟩ := borrow_step a b hc
      have hnext := hreads.tail (a.toUInt64 - b.toUInt64 - c).toUInt32
      rw [cons_append, set_append] at hnext
      obtain ⟨ds, c', hds, hdslen, hle, hrest⟩ :=
        ih (by simpa using hlen) (done ++ [(a.toUInt64 - b.toUInt64 - c).toUInt32]) hc'
          (by simpa using hnext)
      refine ⟨(a.toUInt64 - b.toUInt64 - c).toUInt32 :: ds, c', ?_, by simp [hdslen], hle, ?_⟩
      · rw [length_cons, subLoop, hreads.head, cons_append, limbAt_append]
        simp only [bind, Except.bind]
        rw [set_append]
        simpa using hds
      · exact .cons hstep hrest

/-- Dropping the zeros at the top leaves a normal number with the same value. -/
theorem rdropWhile_spec (ls : List UInt32) :
    isNormal ⟨ls.rdropWhile (· = 0)⟩ = true ∧ value (ls.rdropWhile (· = 0)) = value ls := by
  induction ls using List.reverseRecOn with
  | nil => simp [isNormal, isZero]
  | append_singleton ls l ih =>
    by_cases hl : l = 0
    · subst hl
      rw [rdropWhile_concat_pos _ _ _ (by simp)]
      exact ⟨ih.1, ih.2.trans (by simp [value_append, value_singleton])⟩
    · rw [rdropWhile_concat_neg _ _ _ (by simpa using hl)]
      exact ⟨by simp [isNormal, isZero, hl], rfl⟩

theorem subLoop_subCarry_spec (x : Arg) {full bs : List UInt32} (hle : bs.length ≤ full.length)
    (hreads : Reads x 0 bs full) :
    ∃ ds c rest c', subLoop x bs.length 0 full 0 = .ok (ds ++ full.drop bs.length, c) ∧
      ds.length = bs.length ∧ subCarry (full.drop bs.length) c = (rest, c') ∧
      (ds ++ rest).length = full.length ∧ c'.toNat ≤ 1 ∧
      value full + base ^ full.length * c'.toNat = value (ds ++ rest) + value bs := by
  have htake : (full.take bs.length).length = bs.length := by
    rw [length_take]
    omega
  obtain ⟨ds, c, hloop, hds, hc, hdiff⟩ := subLoop_spec x htake [] (full.drop bs.length)
    (c := 0) (by decide) (by simpa using hreads)
  obtain ⟨rest, c', hcarry, hrest, hc', htail⟩ := subCarry_spec (full.drop bs.length) hc
  simp only [take_append_drop, nil_append, length_nil, htake] at hloop
  have hdslen : ds.length = bs.length := hds.trans htake
  have hlen : (ds ++ rest).length = full.length := by
    simp only [length_append, length_drop, hds, hrest, htake]
    omega
  refine ⟨ds, c, rest, c', hloop, hdslen, hcarry, hlen, hc', ?_⟩
  have hall := (hdiff.append htail).ofDigits_eq
  have hcols := ofDigits_sum_columns (show bs.length ≤ (ds ++ rest).length by omega)
  rw [← hdslen, take_left, drop_left] at hcols
  have hwidth : (List.zipWith (· + ·) (digits ds) (digits bs) ++ digits rest).length =
      full.length := by
    simp only [length_append, length_zipWith, length_digits, hrest, length_drop]
    omega
  rw [hcols, hwidth, ← digits_append, take_append_drop] at hall
  exact hall

theorem sub_spec {a : UnsignedInt} (ha : a.isNormal = true) (hx : (x.get a).isNormal = true) :
    ((x.get a).val ≤ a.val →
      ∃ r, a.sub x = .ok r ∧ r.val = a.val - (x.get a).val ∧ r.isNormal = true) ∧
    (a.val < (x.get a).val → a.sub x = .error .underflow) := by
  have hless := lessThan_iff ha hx
  constructor
  · intro hval
    have hnot : a.lessThan (x.get a) = false := by
      rw [← Bool.not_eq_true, hless]
      omega
    obtain ⟨bs, hbs⟩ : ∃ bs, x.limbs a.limbs = bs := ⟨_, rfl⟩
    have hget : (x.get a).val = value bs := by rw [val, Arg.get, hbs]
    have hle : bs.length ≤ a.limbs.length := by
      simp only [lessThan, Arg.get, hbs, Bool.or_eq_false_iff, decide_eq_false_iff_not] at hnot
      omega
    have hreads : Reads x 0 bs a.limbs := by
      intro k b hk
      rw [Nat.zero_add, hbs]
      exact hk
    obtain ⟨ds, c, rest, c', hloop, hds, hcarry, hlimbs, hc', hdiff⟩ :=
      subLoop_subCarry_spec x hle hreads
    -- a borrow out of the highest limb would make the difference too large
    have hzero : c' = 0 := by
      have hlt := value_lt (ds ++ rest)
      rw [hlimbs] at hlt
      rw [hget, val] at hval
      rw [← UInt64.toNat_inj]
      rcases Nat.le_one_iff_eq_zero_or_eq_one.mp hc' with h | h
      · exact h
      · rw [h] at hdiff
        omega
    have hdrop : (ds ++ a.limbs.drop bs.length).drop bs.length = a.limbs.drop bs.length := by
      rw [← hds, drop_left]
    have htake : (ds ++ a.limbs.drop bs.length).take bs.length = ds := by
      rw [← hds, take_left]
    obtain ⟨hnormal, hsame⟩ := rdropWhile_spec (ds ++ rest)
    refine ⟨⟨(ds ++ rest).rdropWhile (· = 0)⟩, ?_, ?_, hnormal⟩
    · simp only [sub, hnot, hbs, Nat.min_eq_right hle, check_of hle, hloop, hdrop, htake, hcarry,
        hzero, bind, Except.bind, pure, Except.pure]
      simp
    · rw [val, hsame, hget, val]
      rw [hzero] at hdiff
      simp only [UInt64.toNat_zero, Nat.mul_zero] at hdiff
      omega
  · intro hval
    rw [sub, if_pos (hless.mpr hval)]

end Muduo.UnsignedInt
