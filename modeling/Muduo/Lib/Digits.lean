import Mathlib.Data.Nat.Digits.Lemmas

/-!
# Muduo.Lib.Digits

Arithmetic on lists of digits in a base `B`, least significant digit first.  The
value of a list is `Nat.ofDigits B`.

* `Carries B cols c ds c'` — the columns `cols`, with the carry `c` into the lowest
  one, are written as the digits `ds` and the carry `c'` out of the highest one.
  Additions, products by a digit, differences and quotients are all of this form;
  `Carries.ofDigits_eq` is the value of each of them;
* `IsNumeral B ms n` — `ms` is how `n` is written, highest digit first, and it grows by
  one digit when `n` is not divided by `B`.
-/

namespace Lib

open List

variable {B : Nat}

/-! ## carries -/

/-- The columns `cols` and the carry into the lowest one are the digits `ds` and the
carry out of the highest one. -/
inductive Carries (B : Nat) : List Nat → Nat → List Nat → Nat → Prop
  | nil (c : Nat) : Carries B [] c [] c
  | cons {col d c c' c'' : Nat} {cols ds : List Nat} (digit : d + B * c' = col + c)
      (rest : Carries B cols c' ds c'') : Carries B (col :: cols) c (d :: ds) c''

namespace Carries

variable {cols ds : List Nat} {c c' : Nat}

theorem ofDigits_eq (h : Carries B cols c ds c') :
    Nat.ofDigits B ds + B ^ cols.length * c' = Nat.ofDigits B cols + c := by
  induction h with
  | nil c => simp
  | @cons col d c c' c'' cols ds digit rest ih =>
    rw [Nat.ofDigits_cons, Nat.ofDigits_cons, length_cons]
    calc d + B * Nat.ofDigits B ds + B ^ (cols.length + 1) * c''
        = d + B * (Nat.ofDigits B ds + B ^ cols.length * c'') := by ring
      _ = (d + B * c') + B * Nat.ofDigits B cols := by rw [ih]; ring
      _ = col + B * Nat.ofDigits B cols + c := by rw [digit]; ring

theorem append {cols' ds' : List Nat} {c'' : Nat} (h : Carries B cols c ds c')
    (h' : Carries B cols' c' ds' c'') : Carries B (cols ++ cols') c (ds ++ ds') c'' := by
  induction h with
  | nil c => exact h'
  | cons digit rest ih => exact .cons digit (ih h')

theorem refl (ds : List Nat) : Carries B ds 0 ds 0 := by
  induction ds with
  | nil => exact .nil 0
  | cons d ds ih => exact .cons rfl ih

end Carries

/-! ## the highest digit -/

theorem ofDigits_concat (ds : List Nat) (d : Nat) :
    Nat.ofDigits B (ds ++ [d]) = Nat.ofDigits B ds + B ^ ds.length * d := by
  rw [Nat.ofDigits_append, Nat.ofDigits_singleton]

/-- The highest digit is not zero exactly when one digit less is not enough. -/
theorem last_ne_zero_iff {ds : List Nat} {d : Nat} (hB : 1 < B) (hds : ∀ x ∈ ds, x < B) :
    d ≠ 0 ↔ B ^ ds.length ≤ Nat.ofDigits B (ds ++ [d]) := by
  rw [ofDigits_concat]
  constructor
  · intro hd
    calc B ^ ds.length ≤ B ^ ds.length * d := Nat.le_mul_of_pos_right _ (Nat.pos_of_ne_zero hd)
      _ ≤ _ := Nat.le_add_left _ _
  · rintro hle rfl
    have hlt := Nat.ofDigits_lt_base_pow_length hB hds
    omega

/-- Of two numbers with equally many digits, the one with the smaller highest digit
is smaller; when these are equal, the other digits decide. -/
theorem ofDigits_concat_lt_iff {as bs : List Nat} {a b : Nat} (hB : 1 < B)
    (has : ∀ x ∈ as, x < B) (hbs : ∀ x ∈ bs, x < B) (hlen : as.length = bs.length) :
    Nat.ofDigits B (as ++ [a]) < Nat.ofDigits B (bs ++ [b]) ↔
      a < b ∨ a = b ∧ Nat.ofDigits B as < Nat.ofDigits B bs := by
  have hA := Nat.ofDigits_lt_base_pow_length hB has
  have hBs := Nat.ofDigits_lt_base_pow_length hB hbs
  rw [ofDigits_concat, ofDigits_concat, ← hlen]
  rw [← hlen] at hBs
  rcases lt_trichotomy a b with hlt | rfl | hgt
  · have hle : B ^ as.length * (a + 1) ≤ B ^ as.length * b := Nat.mul_le_mul_left _ hlt
    rw [Nat.mul_succ] at hle
    exact iff_of_true (by omega) (.inl hlt)
  · simp
  · have hle : B ^ as.length * (b + 1) ≤ B ^ as.length * a := Nat.mul_le_mul_left _ hgt
    rw [Nat.mul_succ] at hle
    exact iff_of_false (by omega) (by omega)

theorem ofDigits_zipWith_add {as bs : List Nat} (h : as.length = bs.length) :
    Nat.ofDigits B (List.zipWith (· + ·) as bs) = Nat.ofDigits B as + Nat.ofDigits B bs :=
  (Nat.ofDigits_add_ofDigits_eq_ofDigits_zipWith_of_length_eq h).symm

/-! ## numerals -/

/-- The digits `ms`, highest digit first, are how `n` is written: there is no leading zero. -/
structure IsNumeral (B : Nat) (ms : List Nat) (n : Nat) : Prop where
  lt : ∀ m ∈ ms, m < B
  ne_nil : ms ≠ []
  leading : ms.head? = some 0 → ms = [0]
  value : Nat.ofDigits B ms.reverse = n

theorem isNumeral_singleton {n : Nat} (h : n < B) : IsNumeral B [n] n where
  lt := by simpa using h
  ne_nil := cons_ne_nil _ _
  leading := by simp
  value := by simp

theorem IsNumeral.concat {ms : List Nat} {n : Nat} (h : IsNumeral B ms (n / B)) (hB : B ≤ n)
    (hpos : 0 < B) : IsNumeral B (ms ++ [n % B]) n where
  lt m hm := by
    obtain hm | hm := mem_append.1 hm
    · exact h.lt m hm
    · obtain rfl := mem_singleton.1 hm
      exact Nat.mod_lt n hpos
  ne_nil := by simp
  leading hhead := by
    rw [List.head?_append_of_ne_nil _ h.ne_nil] at hhead
    have hvalue := h.value
    rw [h.leading hhead] at hvalue
    -- the quotient is not zero
    have hquot := Nat.div_pos hB hpos
    simp at hvalue
    omega
  value := by
    rw [reverse_append, reverse_singleton, singleton_append, Nat.ofDigits_cons,
      h.value]
    exact Nat.mod_add_div n B

theorem IsNumeral.length_le {ms : List Nat} {n k : Nat} (h : IsNumeral B ms n) (hB : 1 < B)
    (hk : 0 < k) (hn : n < B ^ k) : ms.length ≤ k := by
  cases ms with
  | nil => exact absurd rfl h.ne_nil
  | cons m ms =>
    by_cases hm : m = 0
    · obtain rfl : ms = [] := (List.cons.inj (h.leading (by rw [hm]; rfl))).2
      exact hk
    · have hlt : ∀ x ∈ ms.reverse, x < B := fun x hx =>
        h.lt x (mem_cons_of_mem _ (mem_reverse.1 hx))
      have hle := (last_ne_zero_iff hB hlt).1 hm
      rw [← reverse_cons, h.value, length_reverse] at hle
      exact (Nat.pow_lt_pow_iff_right hB).1 (hle.trans_lt hn)

end Lib
