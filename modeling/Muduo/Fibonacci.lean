import Mathlib.Data.Nat.Fib.Basic
import Mathlib.Tactic.LinearCombination
import Muduo.Lib.Outcome

/-!
# Muduo.Fibonacci

The four ways of `recipes/puzzle/fibonacci.cc` to compute Fibonacci numbers.

`mpz_class` is `Int`.  The recursion of `Fib::calc` only ends because the cache starts with the
first four numbers, so that `calculate` takes the number of calls that may be nested; where the
program would run out of its stack, the model has the fault `stackOverflow`.  `placed` records
everything that is ever assigned to an entry of the cache.
-/

namespace Muduo.Fibonacci

open Lib Function

inductive Fault
  /-- `assert(N >= 1)` -/
  | notPositive
  /-- `assert(N >= 0)` -/
  | negative
  | stackOverflow
deriving DecidableEq, Repr

/-- `mpz_class::get_str` -/
def getStr (n : Int) : String := toString n

/-! ## one after the other -/

structure FibonacciIterator where
  fn : Int
  prev : Int

def FibonacciIterator.create : FibonacciIterator := ⟨1, 0⟩

/-- `operator++` -/
def FibonacciIterator.next (iter : FibonacciIterator) : FibonacciIterator :=
  let prev := iter.fn
  let fn := iter.prev
  ⟨fn + prev, prev⟩

def linearFibonacci (N : Int) : Except Fault String := do
  check .notPositive (1 ≤ N)
  -- `for (int i = 1; i < N; ++i)`
  let iter := FibonacciIterator.next^[(N - 1).toNat] .create
  return getStr iter.fn

/-! ## powers of a matrix -/

structure Matrix where
  a : Int
  b : Int
  c : Int
  d : Int
deriving DecidableEq, Repr

/-- `operator*=` -/
def Matrix.mul (m rhs : Matrix) : Matrix where
  a := m.a * rhs.a + m.b * rhs.c
  b := m.a * rhs.b + m.b * rhs.d
  c := m.c * rhs.a + m.d * rhs.c
  d := m.c * rhs.b + m.d * rhs.d

def Matrix.square (m : Matrix) : Matrix := m.mul m

/-- The loop of `fastFibonacci`, with `base` and `result`. -/
def fastLoop (n : Nat) (base result : Matrix) : Matrix × Matrix :=
  if 1 < n then fastLoop (n / 2) base.square (if n % 2 = 1 then result.mul base else result)
  else (base, result)
termination_by n

def fastFibonacci (N : Int) : Except Fault String := do
  check .notPositive (1 ≤ N)
  let (base, result) := fastLoop (N - 1).toNat ⟨1, 1, 1, 0⟩ ⟨1, 0, 0, 1⟩
  return getStr (result.mul base).a

/-- The variables of `fasterFibonacci`: the base `a`, `b`, `d` and the result `x`, `y`, `z`. -/
structure Entries where
  a : Int
  b : Int
  d : Int
  x : Int
  y : Int
  z : Int

/-- `[x y; y z] *= [a b; b d]`, with the assignments in their order. -/
def Entries.multiply (s : Entries) : Entries :=
  let tmp := s.y * s.b
  let s := { s with z := tmp + s.z * s.d }
  let s := { s with y := s.x * s.b + s.y * s.d }
  { s with x := s.x * s.a + tmp }

def Entries.square (s : Entries) : Entries :=
  let tmp := s.b * s.b
  let s := { s with b := s.a * s.b + s.b * s.d }
  let s := { s with d := tmp + s.d * s.d }
  { s with a := s.a * s.a + tmp }

def fasterLoop (n : Nat) (s : Entries) : Entries :=
  if 1 < n then fasterLoop (n / 2) (if n % 2 = 1 then s.multiply else s).square else s
termination_by n

def fasterFibonacci (N : Int) : Except Fault String := do
  check .notPositive (1 ≤ N)
  let s := fasterLoop (N - 1).toNat ⟨1, 1, 0, 1, 0, 1⟩
  return getStr (s.x * s.a + s.y * s.b)

/-! ## with a cache -/

structure Cache where
  /-- `cache_` -/
  entries : Int → Option Int
  placed : List (Int × Int)

namespace Cache

/-- `cache_[k] = v` -/
def place (cache : Cache) (k v : Int) : Cache where
  entries := update cache.entries k (some v)
  placed := cache.placed ++ [(k, v)]

/-- `cache_[k]`, which makes an entry with the value zero if there is none. -/
def index (cache : Cache) (k : Int) : Int × Cache :=
  match cache.entries k with
  | some v => (v, cache)
  | none => (0, cache.place k 0)

/-- `Fib::calc`, with at most `depth` nested calls. -/
def calculate : (depth : Nat) → (N : Int) → Cache → Except Fault Cache
  | 0, _, _ => .error .stackOverflow
  | depth + 1, N, cache => do
    check .negative (0 ≤ N)
    match cache.entries N with
    | some _ => return cache
    | none =>
      if N % 2 = 1 then do
        let cache ← calculate depth (N / 2) cache
        let cache ← calculate depth (N / 2 + 1) cache
        let (a, cache) := cache.index (N / 2)
        let (b, cache) := cache.index (N / 2 + 1)
        return cache.place N (a * a + b * b)
      else do
        let cache ← calculate depth (N / 2 - 1) cache
        let cache ← calculate depth (N / 2) cache
        let (a, cache) := cache.index (N / 2 - 1)
        let (b, cache) := cache.index (N / 2)
        let cache := cache.place (N / 2 + 1) (a + b)
        let (c, cache) := cache.index (N / 2 + 1)
        return cache.place N (b * (a + c))

end Cache

/-- `Fib::Fib`, with the number that `result_` points to. -/
def fib (depth : Nat) (N : Int) : Except Fault (Int × Cache) := do
  let cache : Cache := ⟨fun _ => none, []⟩
  let cache := (((cache.place 0 0).place 1 1).place 2 1).place 3 2
  let cache ← cache.calculate depth N
  return cache.index N

def fastestFibonacci (depth : Nat) (N : Int) : Except Fault String := do
  let (result, _) ← fib depth N
  return getStr result

/-! ## the first way -/

theorem next_iterate (n : Nat) :
    FibonacciIterator.next^[n] .create = ⟨Nat.fib (n + 1), Nat.fib n⟩ := by
  induction n with
  | zero => rfl
  | succ n ih =>
    rw [iterate_succ_apply', ih]
    simp only [FibonacciIterator.next, Nat.fib_add_two (n := n)]
    push_cast
    rfl

theorem linearFibonacci_eq {N : Int} (h : 1 ≤ N) :
    linearFibonacci N = .ok (getStr (Nat.fib N.toNat)) := by
  have hexp : (N - 1).toNat + 1 = N.toNat := by omega
  rw [linearFibonacci, check_of h, next_iterate, hexp]
  rfl

/-! ## the second and the third way -/

/-- The `e`-th power of `[1 1; 1 0]`. -/
def fibMatrix (e : Nat) : Matrix :=
  ⟨Nat.fib (e + 1), Nat.fib e, Nat.fib e, Nat.fib (e + 1) - Nat.fib e⟩

theorem fibMatrix_mul (m n : Nat) : (fibMatrix m).mul (fibMatrix n) = fibMatrix (m + n) := by
  have hadd : (Nat.fib (m + n + 1) : Int) = Nat.fib m * Nat.fib n + Nat.fib (m + 1) * Nat.fib (n + 1) := by
    exact_mod_cast Nat.fib_add m n
  have hadd' : (Nat.fib (m + n + 2) : Int) =
      Nat.fib m * Nat.fib (n + 1) + Nat.fib (m + 1) * Nat.fib (n + 2) := by
    exact_mod_cast Nat.fib_add m (n + 1)
  have hsum : ∀ k, (Nat.fib (k + 2) : Int) = Nat.fib k + Nat.fib (k + 1) := fun k => by
    exact_mod_cast Nat.fib_add_two
  have hmn := hsum (m + n)
  have hn := hsum n
  rw [hn] at hadd'
  simp only [Matrix.mul, fibMatrix, Matrix.mk.injEq]
  refine ⟨?_, ?_, ?_, ?_⟩
  · linear_combination -hadd
  · linear_combination hadd - hadd' + hmn
  · linear_combination hadd - hadd' + hmn
  · linear_combination -2 * hadd + hadd' - hmn

/-- The exponents of the base and of the result at the end of the loop. -/
def exponents (n b r : Nat) : Nat × Nat :=
  if 1 < n then exponents (n / 2) (b + b) (if n % 2 = 1 then r + b else r) else (b, r)
termination_by n

theorem exponents_add (n b r : Nat) :
    (exponents n b r).2 + (exponents n b r).1 = if n = 0 then r + b else r + b * n := by
  fun_induction exponents n b r with
  | case1 n b r hn ih =>
    simp only [dite_eq_ite] at ih
    rw [ih, if_neg (by omega : ¬ n / 2 = 0), if_neg (by omega : ¬ n = 0)]
    obtain ⟨k, hk | hk⟩ := Nat.even_or_odd' n
    · have hdiv : n / 2 = k := by omega
      have hmod : ¬ n % 2 = 1 := by omega
      rw [if_neg hmod, hdiv, hk]
      ring
    · have hdiv : n / 2 = k := by omega
      have hmod : n % 2 = 1 := by omega
      rw [if_pos hmod, hdiv, hk]
      ring
  | case2 n b r hn =>
    split
    · rfl
    · obtain rfl : n = 1 := by omega
      rw [Nat.mul_one]

theorem fastLoop_eq (n b r : Nat) : fastLoop n (fibMatrix b) (fibMatrix r) =
    (fibMatrix (exponents n b r).1, fibMatrix (exponents n b r).2) := by
  fun_induction exponents n b r with
  | case1 n b r hn ih =>
    simp only [dite_eq_ite] at ih
    rw [← ih, fastLoop, if_pos hn, Matrix.square, fibMatrix_mul]
    split
    · rw [fibMatrix_mul]
    · rfl
  | case2 n b r hn => rw [fastLoop, if_neg hn]

/-- The entries of two powers of the matrix. -/
def Entries.ofPowers (b r : Nat) : Entries :=
  ⟨(fibMatrix b).a, (fibMatrix b).b, (fibMatrix b).d, (fibMatrix r).a, (fibMatrix r).b, (fibMatrix r).d⟩

theorem multiply_ofPowers (b r : Nat) :
    (Entries.ofPowers b r).multiply = Entries.ofPowers b (r + b) := by
  simp only [Entries.ofPowers, Entries.multiply, ← fibMatrix_mul r b, Matrix.mul]
  simp only [fibMatrix]

theorem square_ofPowers (b r : Nat) :
    (Entries.ofPowers b r).square = Entries.ofPowers (b + b) r := by
  simp only [Entries.ofPowers, Entries.square, ← fibMatrix_mul b b, Matrix.mul]
  simp only [fibMatrix]

/-- The third way is the second one without the entry that repeats. -/
theorem fasterLoop_eq (n b r : Nat) : fasterLoop n (.ofPowers b r) =
    .ofPowers (exponents n b r).1 (exponents n b r).2 := by
  fun_induction exponents n b r with
  | case1 n b r hn ih =>
    simp only [dite_eq_ite] at ih
    rw [← ih, fasterLoop, if_pos hn]
    split
    · rw [multiply_ofPowers, square_ofPowers]
    · rw [square_ofPowers]
  | case2 n b r hn => rw [fasterLoop, if_neg hn]

/-- For `N = 1` the loop is left with the exponent one instead of zero, which gives the same. -/
theorem mul_exponents_eq {N : Int} (h : 1 ≤ N) :
    ((fibMatrix (exponents (N - 1).toNat 1 0).2).mul (fibMatrix (exponents (N - 1).toNat 1 0).1)).a =
      Nat.fib N.toNat := by
  rw [fibMatrix_mul, exponents_add]
  by_cases hone : (N - 1).toNat = 0
  · obtain rfl : N = 1 := by omega
    rfl
  · have hexp : 0 + 1 * (N - 1).toNat + 1 = N.toNat := by omega
    rw [if_neg hone, fibMatrix, hexp]

theorem fastFibonacci_eq {N : Int} (h : 1 ≤ N) :
    fastFibonacci N = .ok (getStr (Nat.fib N.toNat)) := by
  have hloop : fastLoop (N - 1).toNat ⟨1, 1, 1, 0⟩ ⟨1, 0, 0, 1⟩ = _ := fastLoop_eq _ 1 0
  rw [fastFibonacci, check_of h, hloop]
  simp only [bind, Except.bind, pure, Except.pure, mul_exponents_eq h]

theorem fasterFibonacci_eq {N : Int} (h : 1 ≤ N) :
    fasterFibonacci N = .ok (getStr (Nat.fib N.toNat)) := by
  have hloop : fasterLoop (N - 1).toNat ⟨1, 1, 0, 1, 0, 1⟩ = _ := fasterLoop_eq _ 1 0
  rw [fasterFibonacci, check_of h, hloop, ← mul_exponents_eq h]
  rfl

/-! ## the fourth way -/

namespace Cache

/-- Every entry, and everything that ever was one, is a Fibonacci number, and the first four are
there. -/
structure Good (cache : Cache) : Prop where
  entries : ∀ k v, cache.entries k = some v → v = Nat.fib k.toNat
  placed : ∀ p ∈ cache.placed, 0 ≤ p.1 ∧ p.2 = Nat.fib p.1.toNat
  first : ∀ k, 0 ≤ k → k ≤ 3 → cache.entries k ≠ none

variable {cache : Cache} {k v : Int}

theorem place_ne_none {k' : Int} (h : cache.entries k' ≠ none) :
    (cache.place k v).entries k' ≠ none := by
  simp only [place, update_apply]
  split
  · simp
  · exact h

theorem place_self_ne_none : (cache.place k v).entries k ≠ none := by
  simp [place]

theorem Good.place (h : Good cache) (hk : 0 ≤ k) (hv : v = Nat.fib k.toNat) :
    Good (cache.place k v) where
  entries k' v' hentry := by
    simp only [Cache.place, update_apply] at hentry
    split at hentry
    · next heq =>
        rw [heq, ← Option.some.inj hentry]
        exact hv
    · exact h.entries k' v' hentry
  placed p hp := by
    obtain hp | hp := List.mem_append.mp hp
    · exact h.placed p hp
    · rw [List.mem_singleton.mp hp]
      exact ⟨hk, hv⟩
  first k' hpos hle := place_ne_none (h.first k' hpos hle)

theorem Good.index (h : Good cache) (hne : cache.entries k ≠ none) :
    cache.index k = ((Nat.fib k.toNat : Int), cache) := by
  obtain ⟨v, hv⟩ := Option.ne_none_iff_exists'.mp hne
  rw [Cache.index, hv, h.entries k v hv]

/-- The entries that are there stay. -/
def Extends (cache cache' : Cache) : Prop := ∀ k, cache.entries k ≠ none → cache'.entries k ≠ none

theorem fib_odd {N m : Int} (hm : 0 ≤ m) (hN : N = 2 * m + 1) :
    (Nat.fib m.toNat : Int) * Nat.fib m.toNat + Nat.fib (m + 1).toNat * Nat.fib (m + 1).toNat =
      Nat.fib N.toNat := by
  have hfib := Nat.fib_two_mul_add_one m.toNat
  rw [show N.toNat = 2 * m.toNat + 1 by omega, show (m + 1).toNat = m.toNat + 1 by omega, hfib]
  push_cast
  ring

theorem fib_even {N m : Int} (hm : 1 ≤ m) (hN : N = 2 * m) :
    (Nat.fib (m - 1).toNat : Int) + Nat.fib m.toNat = Nat.fib (m + 1).toNat ∧
      (Nat.fib m.toNat : Int) * (Nat.fib (m - 1).toNat + Nat.fib (m + 1).toNat) =
        Nat.fib N.toNat := by
  obtain ⟨n, rfl⟩ : ∃ n : Nat, m = n + 1 := ⟨(m - 1).toNat, by omega⟩
  have hsum : (Nat.fib (n + 2) : Int) = Nat.fib n + Nat.fib (n + 1) := by
    exact_mod_cast Nat.fib_add_two
  have hfib := Nat.fib_two_mul_add_two n
  rw [show ((n : Int) + 1 - 1).toNat = n by omega, show ((n : Int) + 1).toNat = n + 1 by omega,
    show ((n : Int) + 1 + 1).toNat = n + 2 by omega, show N.toNat = 2 * n + 2 by omega, hfib, hsum]
  refine ⟨rfl, ?_⟩
  push_cast
  ring

/-- **`calc`**: enough nested calls give the number and leave the cache good. -/
theorem calculate_spec {cache : Cache} (depth : Nat) {N : Int} (hN : 0 ≤ N)
    (hdepth : N ≤ 2 ^ depth + 2) (h : Good cache) :
    ∃ cache', calculate (depth + 1) N cache = .ok cache' ∧ Good cache' ∧ Extends cache cache' ∧
      cache'.entries N ≠ none := by
  by_cases hfound : cache.entries N = none
  case neg =>
    refine ⟨cache, ?_, h, fun _ hk => hk, hfound⟩
    obtain ⟨v, hv⟩ := Option.ne_none_iff_exists'.mp hfound
    rw [calculate, check_of hN, hv]
    rfl
  case pos =>
    have hlarge : 4 ≤ N := by
      by_contra hlt
      exact h.first N hN (by omega) hfound
    match depth with
    | 0 =>
      simp only [pow_zero] at hdepth
      omega
    | depth + 1 =>
      rw [Int.pow_succ] at hdepth
      rw [calculate, check_of hN, hfound]
      simp only [ok_bind]
      by_cases hodd : N % 2 = 1
      · obtain ⟨c₁, hc₁, hgood₁, hext₁, hhas₁⟩ :=
          calculate_spec depth (N := N / 2) (by omega) (by omega) h
        obtain ⟨c₂, hc₂, hgood₂, hext₂, hhas₂⟩ :=
          calculate_spec depth (N := N / 2 + 1) (by omega) (by omega) hgood₁
        have hplace := hgood₂.place hN
          (fib_odd (N := N) (m := N / 2) (by omega) (by omega))
        refine ⟨_, ?_, hplace, fun k hk => place_ne_none (hext₂ k (hext₁ k hk)),
          place_self_ne_none⟩
        simp only [hodd, if_true, hc₁, hc₂, bind, Except.bind, hgood₂.index (hext₂ _ hhas₁),
          hgood₂.index hhas₂, pure, Except.pure]
      · obtain ⟨c₁, hc₁, hgood₁, hext₁, hhas₁⟩ :=
          calculate_spec depth (N := N / 2 - 1) (by omega) (by omega) h
        obtain ⟨c₂, hc₂, hgood₂, hext₂, hhas₂⟩ :=
          calculate_spec depth (N := N / 2) (by omega) (by omega) hgood₁
        obtain ⟨hsum, hfib⟩ := fib_even (N := N) (m := N / 2) (by omega) (by omega)
        have hgood₃ := hgood₂.place (by omega : 0 ≤ N / 2 + 1) hsum
        have hplace := hgood₃.place hN hfib
        refine ⟨_, ?_, hplace,
          fun k hk => place_ne_none (place_ne_none (hext₂ k (hext₁ k hk))), place_self_ne_none⟩
        simp only [hodd, if_false, hc₁, hc₂, bind, Except.bind, hgood₂.index (hext₂ _ hhas₁),
          hgood₂.index hhas₂, hgood₃.index place_self_ne_none, pure, Except.pure]

theorem good_first :
    Good (((((⟨fun _ => none, []⟩ : Cache).place 0 0).place 1 1).place 2 1).place 3 2) where
  entries k v hentry := by
    simp only [Cache.place, update_apply] at hentry
    split_ifs at hentry with h₃ h₂ h₁ h₀
    · rw [h₃, ← Option.some.inj hentry]
      rfl
    · rw [h₂, ← Option.some.inj hentry]
      rfl
    · rw [h₁, ← Option.some.inj hentry]
      rfl
    · rw [h₀, ← Option.some.inj hentry]
      rfl
  placed := by decide
  first k hpos hle := by
    obtain rfl | rfl | rfl | rfl : k = 0 ∨ k = 1 ∨ k = 2 ∨ k = 3 := by omega
    all_goals simp [Cache.place]

end Cache

theorem fib_spec {depth : Nat} {N : Int} (hN : 0 ≤ N) (hdepth : N ≤ 2 ^ depth + 2) :
    ∃ cache, fib (depth + 1) N = .ok ((Nat.fib N.toNat : Int), cache) ∧ cache.Good := by
  obtain ⟨cache, hcalculate, hgood, -, hhas⟩ :=
    Cache.calculate_spec _ hN hdepth Cache.good_first
  refine ⟨cache, ?_, hgood⟩
  rw [fib]
  simp only [hcalculate, bind, Except.bind, hgood.index hhas, pure, Except.pure]

theorem fastestFibonacci_eq {depth : Nat} {N : Int} (hN : 0 ≤ N) (hdepth : N ≤ 2 ^ depth + 2) :
    fastestFibonacci (depth + 1) N = .ok (getStr (Nat.fib N.toNat)) := by
  obtain ⟨cache, hfib, -⟩ := fib_spec hN hdepth
  simp only [fastestFibonacci, hfib, bind, Except.bind, pure, Except.pure]

/-- **The four ways agree.**  For every `int` from one on each of them returns the Fibonacci
number, the last one with room for 32 nested calls; and everything that it ever places in its
cache is the Fibonacci number of its key. -/
theorem fibonacci_agree (N : Int) (hN : 1 ≤ N) (hint : N < 2 ^ 31) (depth : Nat)
    (hdepth : 32 ≤ depth) :
    linearFibonacci N = .ok (getStr (Nat.fib N.toNat)) ∧
      fastFibonacci N = linearFibonacci N ∧ fasterFibonacci N = linearFibonacci N ∧
      fastestFibonacci depth N = linearFibonacci N ∧
      ∃ result cache, fib depth N = .ok (result, cache) ∧
        ∀ k v, (k, v) ∈ cache.placed → 0 ≤ k ∧ v = Nat.fib k.toNat := by
  obtain ⟨d, rfl⟩ : ∃ d, depth = d + 1 := ⟨depth - 1, by omega⟩
  have hroom : N ≤ 2 ^ d + 2 := by
    have hpow : (2 : Int) ^ 31 ≤ 2 ^ d := pow_le_pow_right₀ (by norm_num) (by omega)
    omega
  obtain ⟨cache, hfib, hgood⟩ := fib_spec (by omega) hroom
  rw [linearFibonacci_eq hN]
  exact ⟨rfl, fastFibonacci_eq hN, fasterFibonacci_eq hN, fastestFibonacci_eq (by omega) hroom,
    _, cache, hfib, fun k v hp => hgood.placed (k, v) hp⟩

theorem fibonacci_agree_ten :
    fastestFibonacci 32 10 = linearFibonacci 10 :=
  (fibonacci_agree 10 (by decide) (by decide) 32 le_rfl).2.2.2.1

end Muduo.Fibonacci
