import Muduo.Lib.Partition
import Muduo.UnsignedInt.Exact

/-!
# Muduo.Partitions

`recipes/basic/partitions.cc`: the number of partitions of `N` by Euler's recurrence, with the
numbers of partitions of everything below in a table.

An `int` that does not fit is the fault `overflow`.
-/

namespace Muduo.Partitions

open Lib List

inductive Assert
  | resultZero
  | termNotZero
deriving DecidableEq, Repr

inductive Fault
  | overflow
  | assertion (site : Assert)
  /-- An access outside of `partitions`. -/
  | outOfRange
  | unsignedInt (fault : UnsignedInt.Fault)
deriving DecidableEq, Repr

/-- An `int` expression with the mathematical value `n`. -/
def int (n : Int) : Except Fault Int := do
  check .overflow (-2 ^ 31 ≤ n ∧ n < 2 ^ 31)
  return n

def gpn (m : Int) : Except Fault Int := do
  let a ← int (3 * m)
  let b ← int (a - 1)
  let c ← int (m * b)
  return c.tdiv 2

/-- The loop of `gen`, with what `generalized_pentagonal_numbers` holds. -/
def genLoop (N m : Int) (numbers : List Int) : Except Fault (List Int) := do
  let a ← gpn m
  let b ← gpn (-m)
  if m + 1 < 2 ^ 31 then
    if b < N then genLoop N (m + 1) (numbers ++ [a, b]) else return numbers ++ [a, b]
  else .error .overflow
termination_by (2 ^ 31 - m).toNat

def gen (N : Int) : Except Fault (List Int) := genLoop N 1 []

/-- `partitions[i]` -/
def entry (partitions : List UnsignedInt) (i : Nat) : Except Fault UnsignedInt :=
  match partitions[i]? with
  | some u => .ok u
  | none => .error .outOfRange

/-- The inner loop, from the `i`-th pentagonal number on.  For the number zero `term` would be
`result` itself. -/
def rowLoop (partitions : List UnsignedInt) (k : Nat) :
    List Int → (i : Nat) → (result : UnsignedInt) → Except Fault UnsignedInt
  | [], _, result => .ok result
  | x :: numbers, i, result =>
    if 0 ≤ k - x then do
      let term ← if x = 0 then .ok result else entry partitions (k - x).toNat
      check (.assertion .termNotZero) (term.isZero = false)
      let arg : UnsignedInt.Arg := if x = 0 then .self else .other term
      let result ← (if i / 2 % 2 = 0 then result.add arg else result.sub arg).mapError .unsignedInt
      rowLoop partitions k numbers (i + 1) result
    else .ok result

/-- The outer loop, for `n` more values from `k` on. -/
def tableLoop (numbers : List Int) :
    (n k : Nat) → List UnsignedInt → Except Fault (List UnsignedInt)
  | 0, _, partitions => .ok partitions
  | n + 1, k, partitions => do
    let result ← entry partitions k
    check (.assertion .resultZero) (result.isZero = true)
    let result ← rowLoop partitions k numbers 0 result
    tableLoop numbers n (k + 1) (partitions.set k result)

/-- `main`, up to the output, with the pentagonal numbers and the table. -/
def main (N : Int) : Except Fault (List Int × List UnsignedInt) := do
  let numbers ← gen N
  let size ← int (N + 1)
  let partitions := List.replicate size.toNat (UnsignedInt.ofUInt32 0)
  let first ← entry partitions 0
  let first ← (first.addWord 1).mapError .unsignedInt
  let partitions ← tableLoop numbers N.toNat 1 (partitions.set 0 first)
  return (numbers, partitions)

/-! ## pentagonal numbers -/

/-- The failure of an `int` that gets too large, which needs a large `N`. -/
def TooLarge (N : Int) (fault : Fault) : Prop := fault = .overflow ∧ 10 ^ 9 < N

theorem outcome_int {N n : Int} (h : N ≤ 10 ^ 9 → -2 ^ 31 ≤ n ∧ n < 2 ^ 31) :
    Outcome (· = n) (TooLarge N) (int n) := by
  refine (outcome_check fun hn => ?_).bind fun _ _ => .ok rfl
  exact ⟨rfl, not_le.mp fun hN => hn (h hN)⟩

theorem outcome_gpn {N m : Int} (h : N ≤ 10 ^ 9 → |m| ≤ 26000) :
    Outcome (· = (pentagonal m : Int)) (TooLarge N) (gpn m) := by
  have hbound : N ≤ 10 ^ 9 → -26000 ≤ m ∧ m ≤ 26000 := fun hN => abs_le.mp (h hN)
  refine (outcome_int fun hN => ?_).bind ?_
  · have := hbound hN
    omega
  rintro _ rfl
  refine (outcome_int fun hN => ?_).bind ?_
  · have := hbound hN
    omega
  rintro _ rfl
  refine (outcome_int fun hN => ?_).bind ?_
  · obtain ⟨hlo, hhi⟩ := hbound hN
    constructor <;> nlinarith
  rintro _ rfl
  rw [← two_mul_natCast_pentagonal]
  exact .ok (Int.mul_tdiv_cancel_left _ (by decide))

/-- The first `n` generalized pentagonal numbers. -/
def pentagonals (n : Nat) : List Int := (List.range n).map fun i => (pentagonalAt i : Int)

theorem pentagonals_add_two (j : Nat) :
    pentagonals (2 * (j + 1)) = pentagonals (2 * j) ++
      [(pentagonal (j + 1 : Nat) : Int), (pentagonal (-(j + 1 : Nat)) : Int)] := by
  rw [← pentagonalAt_even, ← pentagonalAt_odd, pentagonals, show 2 * (j + 1) = 2 * j + 1 + 1 by ring,
    range_succ, range_succ]
  simp [pentagonals]

/-- While the last number is below `N`, the index is small. -/
theorem index_le {N : Int} {j : Nat} (hlast : j = 0 ∨ (pentagonal (-j) : Int) < N)
    (hN : N ≤ 10 ^ 9) : j ≤ 25900 := by
  rcases hlast with rfl | hlt
  · omega
  · by_contra hj
    have htwo := two_mul_natCast_pentagonal_neg j
    nlinarith

theorem genLoop_spec (N : Int) (j : Nat) (hj : (j : Int) + 1 < 2 ^ 31)
    (hlast : j = 0 ∨ (pentagonal (-j) : Int) < N) :
    Outcome (fun numbers => ∃ n, numbers = pentagonals n ∧ 0 < n ∧ N < pentagonalAt n) (TooLarge N)
      (genLoop N (j + 1) (pentagonals (2 * j))) := by
  have hsmall := index_le hlast
  rw [genLoop]
  refine (outcome_gpn fun hN => ?_).bind ?_
  · have := hsmall hN
    rw [abs_le]
    omega
  rintro _ rfl
  refine (outcome_gpn fun hN => ?_).bind ?_
  · have := hsmall hN
    rw [abs_le]
    omega
  rintro _ rfl
  by_cases hnext : (j : Int) + 1 + 1 < 2 ^ 31
  · have hnumbers := pentagonals_add_two j
    push_cast at hnumbers
    rw [if_pos hnext, ← hnumbers]
    split
    case isTrue hlt =>
      have hrec := genLoop_spec N (j + 1) (by push_cast; exact hnext)
        (.inr (by push_cast; exact hlt))
      push_cast at hrec
      exact hrec
    case isFalse hge =>
      refine .ok ⟨_, rfl, by omega, ?_⟩
      have hmono := pentagonalAt_strictMono (by omega : 2 * j + 1 < 2 * (j + 1))
      rw [pentagonalAt_odd] at hmono
      push_cast at hmono
      omega
  · rw [if_neg hnext]
    refine .error ⟨rfl, not_le.mp fun hN => ?_⟩
    have := hsmall hN
    omega
termination_by 2 ^ 31 - j

theorem gen_spec (N : Int) :
    Outcome (fun numbers => ∃ n, numbers = pentagonals n ∧ 0 < n ∧ N < pentagonalAt n) (TooLarge N)
      (gen N) := genLoop_spec N 0 (by decide) (.inl rfl)

/-! ## the table -/

/-- A normal number with the value `n`. -/
def Is (u : UnsignedInt) (n : Nat) : Prop := u.isNormal = true ∧ u.val = n

/-- The entries below `k` are the numbers of partitions. -/
def Filled (partitions : List UnsignedInt) (k : Nat) : Prop :=
  ∀ j < k, ∃ u, partitions[j]? = some u ∧ Is u (partitionCount j)

theorem isZero_eq_false {u : UnsignedInt} {n : Nat} (h : Is u n) (hn : 0 < n) : u.isZero = false := by
  rw [Bool.eq_false_iff]
  intro hzero
  have := (UnsignedInt.val_eq_zero_iff h.1).mp hzero
  have := h.2
  omega

theorem term_spec {k i : Nat} {result term : UnsignedInt} (hle : pentagonalAt i ≤ k)
    (hresult : result.isNormal = true) (hsum : (result.val : Int) = partialSum k i)
    (hterm : Is term (partitionCount (k - pentagonalAt i))) :
    ∃ r, (if i / 2 % 2 = 0 then result.add (.other term) else result.sub (.other term)) = .ok r ∧
      r.isNormal = true ∧ (r.val : Int) = partialSum k (i + 1) := by
  have hcount : countBelow k (pentagonalAt i) = (term.val : Int) := by
    rw [countBelow, if_pos hle, hterm.2]
  rw [partialSum_succ, hcount]
  by_cases hi : i / 2 % 2 = 0
  · obtain ⟨r, hr, hval, hnormal⟩ := UnsignedInt.add_spec result (.other term)
    have hget : (UnsignedInt.Arg.get result (.other term)).val = term.val := rfl
    refine ⟨r, by rw [if_pos hi, hr], hnormal hresult hterm.1, ?_⟩
    rw [pentagonalSign_of_even hi, hval, hget, one_mul, ← hsum]
    push_cast
    rfl
  · have hunder := le_partialSum (k := k) hi
    rw [hcount, ← hsum] at hunder
    have hle' : term.val ≤ result.val := by exact_mod_cast hunder
    obtain ⟨r, hr, hval, hnormal⟩ :=
      (UnsignedInt.sub_spec (x := .other term) hresult hterm.1).1 hle'
    have hget : (UnsignedInt.Arg.get result (.other term)).val = term.val := rfl
    refine ⟨r, by rw [if_neg hi, hr], hnormal, ?_⟩
    rw [pentagonalSign_of_odd hi, hval, hget, ← hsum, Nat.cast_sub hle']
    ring

variable {partitions : List UnsignedInt}

/-- **The inner loop** computes the recurrence, and stops in time. -/
theorem rowLoop_spec {k n i : Nat} (hk : 0 < k) (hn : k < pentagonalAt n)
    (hfilled : Filled partitions k) (hin : i ≤ n) {result : UnsignedInt}
    (hresult : result.isNormal = true) (hsum : (result.val : Int) = partialSum k i) :
    ∃ r, rowLoop partitions k ((pentagonals n).drop i) i result = .ok r ∧
      Is r (partitionCount k) := by
  by_cases hend : i = n
  · subst hend
    refine ⟨result, ?_, hresult, ?_⟩
    · rw [drop_of_length_le (by simp [pentagonals]), rowLoop]
    · exact_mod_cast hsum.trans (partialSum_eq hk hn)
  · have hdrop : (pentagonals n).drop i =
        (pentagonalAt i : Int) :: (pentagonals n).drop (i + 1) := by
      rw [drop_eq_getElem_cons (by simp [pentagonals]; omega)]
      simp [pentagonals]
    have hpos := pentagonalAt_pos i
    have hne : ¬ (pentagonalAt i : Int) = 0 := by omega
    rw [hdrop, rowLoop]
    by_cases hle : pentagonalAt i ≤ k
    · obtain ⟨term, hentry, hterm⟩ := hfilled (k - pentagonalAt i) (by omega)
      have hindex : ((k : Int) - pentagonalAt i).toNat = k - pentagonalAt i := by omega
      obtain ⟨r, hr, hnormal, hval⟩ := term_spec hle hresult hsum hterm
      obtain ⟨r', hr', hr'is⟩ := rowLoop_spec hk hn hfilled (by omega : i + 1 ≤ n) hnormal hval
      refine ⟨r', ?_, hr'is⟩
      rw [if_pos (by omega)]
      simp only [hne, if_false, hindex, entry, hentry, bind, Except.bind,
        check_of (isZero_eq_false hterm (partitionCount_pos _)), hr, Except.mapError, hr']
    · refine ⟨result, by rw [if_neg (by omega)], hresult, ?_⟩
      exact_mod_cast hsum.trans (partialSum_eq hk (by omega))
termination_by n - i

/-- The table is as long as it has to be, and what is not computed yet is zero. -/
structure Progress (N k : Nat) (partitions : List UnsignedInt) : Prop where
  length : partitions.length = N + 1
  filled : Filled partitions k
  zero : ∀ j, k ≤ j → j ≤ N → partitions[j]? = some ⟨[]⟩

theorem Progress.set {N k : Nat} (h : Progress N k partitions) (hk : k ≤ N) {r : UnsignedInt}
    (hr : Is r (partitionCount k)) : Progress N (k + 1) (partitions.set k r) where
  length := by rw [length_set, h.length]
  filled j hj := by
    by_cases heq : j = k
    · subst heq
      exact ⟨r, List.getElem?_set_self (by rw [h.length]; omega), hr⟩
    · obtain ⟨u, hu, his⟩ := h.filled j (by omega)
      exact ⟨u, by rw [List.getElem?_set_ne (Ne.symm heq), hu], his⟩
  zero j hj hjN := by
    rw [List.getElem?_set_ne (by omega), h.zero j (by omega) hjN]

theorem tableLoop_spec {N n : Nat} (hn : (N : Int) < pentagonalAt n) {c k : Nat} (hk : 0 < k)
    (hc : k + c = N + 1) (h : Progress N k partitions) :
    ∃ result, tableLoop (pentagonals n) c k partitions = .ok result ∧ Progress N (N + 1) result := by
  induction c generalizing k partitions with
  | zero =>
    obtain rfl : k = N + 1 := by omega
    exact ⟨partitions, rfl, h⟩
  | succ c ih =>
    obtain ⟨r, hr, his⟩ := rowLoop_spec hk (by omega : k < pentagonalAt n) h.filled
      (Nat.zero_le n) (rfl : (⟨[]⟩ : UnsignedInt).isNormal = true)
      (by simp [partialSum, UnsignedInt.val])
    obtain ⟨result, hloop, hprogress⟩ := ih (by omega) (by omega) (h.set (by omega) his)
    refine ⟨result, ?_, hprogress⟩
    rw [drop_zero] at hr
    have hassert : (⟨[]⟩ : UnsignedInt).isZero = true := rfl
    simp only [tableLoop, entry, h.zero k (by omega) (by omega), bind, Except.bind,
      check_of hassert, hr, hloop]

/-- What `main` computes for `N`. -/
structure Computes (N : Nat) (r : List Int × List UnsignedInt) : Prop where
  increasing : r.1.Pairwise (· < ·)
  pentagonal : ∀ j : Int, j ≠ 0 → pentagonal j ≤ N → (pentagonal j : Int) ∈ r.1
  length : r.2.length = N + 1
  count : ∀ k ≤ N, ∃ u, r.2[k]? = some u ∧ u.isNormal = true ∧ u.val = partitionCount k

theorem pentagonals_increasing (n : Nat) : (pentagonals n).Pairwise (· < ·) := by
  rw [pentagonals, pairwise_map]
  exact pairwise_lt_range.imp fun h => by exact_mod_cast pentagonalAt_strictMono h

theorem mem_pentagonals {N n : Nat} (hn : (N : Int) < pentagonalAt n) {j : Int} (hj : j ≠ 0)
    (hle : pentagonal j ≤ N) : (pentagonal j : Int) ∈ pentagonals n := by
  obtain ⟨i, hi⟩ := exists_pentagonalAt hj
  refine mem_map.mpr ⟨i, mem_range.mpr ?_, by rw [hi]⟩
  exact pentagonalAt_strictMono.lt_iff_lt.mp (by omega)

theorem progress_one (N : Nat) :
    Progress N 1 ((List.replicate (N + 1) (UnsignedInt.ofUInt32 0)).set 0 ⟨[1]⟩) := by
  have hprogress : Progress N 0 (List.replicate (N + 1) (UnsignedInt.ofUInt32 0)) := by
    refine ⟨length_replicate, fun j hj => absurd hj (by omega), fun j _ hjN => ?_⟩
    rw [List.getElem?_replicate_of_lt (by omega)]
    rfl
  refine hprogress.set (Nat.zero_le N) ⟨rfl, ?_⟩
  rw [partitionCount_zero]
  rfl

/-- **The table of partitions.**  For every `N` that is not negative, unless an `int` overflows,
which only happens beyond `10 ^ 9`, no assertion and no subtraction fails, and the table holds
the number of partitions of every number up to `N`. -/
theorem main_exact (N : Nat) : Outcome (Computes N) (TooLarge N) (main N) := by
  refine (gen_spec N).bind ?_
  rintro _ ⟨n, rfl, -, hn⟩
  refine (outcome_int fun hN => by omega).bind ?_
  rintro _ rfl
  obtain ⟨result, hloop, hprogress⟩ := tableLoop_spec hn (c := N)
    (by decide : 0 < 1) (by omega) (progress_one N)
  have hsize : ((N : Int) + 1).toNat = N + 1 := by omega
  have hfirst : entry (List.replicate (N + 1) (UnsignedInt.ofUInt32 0)) 0 =
      .ok (UnsignedInt.ofUInt32 0) := by
    rw [entry, List.getElem?_replicate_of_lt (by omega)]
  have hadd : ((UnsignedInt.ofUInt32 0).addWord 1).mapError Fault.unsignedInt = .ok ⟨[1]⟩ := rfl
  rw [hsize, Int.toNat_natCast]
  simp only [hfirst, hadd, bind, Except.bind, hloop]
  refine .ok ⟨pentagonals_increasing n, fun j => mem_pentagonals hn, hprogress.length, fun k hk => ?_⟩
  exact hprogress.filled k (by omega)

end Muduo.Partitions
