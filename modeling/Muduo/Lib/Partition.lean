import Mathlib.Combinatorics.Enumerative.Partition.Glaisher
import Mathlib.Combinatorics.Enumerative.Pentagonal.PowerSeries

/-!
# Muduo.Lib.Partition

The recurrence of the partition numbers over the generalized pentagonal numbers.
-/

namespace Lib

open PowerSeries PowerSeries.WithPiTopology

/-! ## the generating function -/

def partitionCount (n : Nat) : Nat := Fintype.card n.Partition

theorem partitionCount_zero : partitionCount 0 = 1 := Fintype.card_unique

theorem partitionCount_pos (n : Nat) : 0 < partitionCount n := Fintype.card_pos

theorem partitionCount_mono : Monotone partitionCount := by
  refine monotone_nat_of_le_succ fun n => ?_
  have hequiv := Fintype.card_congr
    (Nat.Partition.partitionWithPartEquiv (n := n + 1) (a := 1) le_rfl (by omega))
  calc partitionCount n = _ := hequiv.symm
    _ ≤ partitionCount (n + 1) := Fintype.card_subtype_le _

/-- Euler's product times the generating function of the partitions is one. -/
theorem partitionSeries_mul :
    (PowerSeries.mk fun n => (partitionCount n : ℤ)) * pentagonalSeries ℤ = 1 := by
  have hseries := Nat.Partition.powerSeriesMk_card_restricted_eq_tprod ℤ fun _ => True
  have hmul := Nat.Partition.multipliable_powerSeriesMk_card_restricted ℤ fun _ => True
  simp only [if_true] at hseries hmul
  have hcount : (PowerSeries.mk fun n => (partitionCount n : ℤ)) =
      PowerSeries.mk fun n => ((Nat.Partition.restricted n fun _ => True).card : ℤ) := by
    ext n
    simp [partitionCount, Nat.Partition.restricted]
  rw [hcount, hseries, ← tprod_one_sub_X_pow ℤ,
    ← hmul.tprod_mul (hasProd_one_sub_X_pow ℤ).multipliable]
  -- every factor is a geometric series times its inverse
  refine (tprod_congr fun i => ?_).trans tprod_one
  simp_rw [pow_mul]
  exact tsum_pow_mul_one_sub_of_constantCoeff_eq_zero (by simp)

/-! ## pentagonal numbers -/

/-- The generalized pentagonal numbers in increasing order, without zero. -/
def pentagonalAt (i : Nat) : Nat :=
  if i % 2 = 0 then pentagonal (i / 2 + 1 : Nat) else pentagonal (-(i / 2 + 1 : Nat))

theorem pentagonalAt_even (j : Nat) : pentagonalAt (2 * j) = pentagonal (j + 1 : Nat) := by
  simp [pentagonalAt]

theorem pentagonalAt_odd (j : Nat) : pentagonalAt (2 * j + 1) = pentagonal (-(j + 1 : Nat)) := by
  have hdiv : (2 * j + 1) / 2 = j := by omega
  have hmod : ¬ (2 * j + 1) % 2 = 0 := by omega
  rw [pentagonalAt, if_neg hmod, hdiv]

theorem pentagonalAt_strictMono : StrictMono pentagonalAt := by
  refine strictMono_nat_of_lt_succ fun i => ?_
  obtain ⟨j, rfl | rfl⟩ := Nat.even_or_odd' i
  · rw [pentagonalAt_even, pentagonalAt_odd]
    exact pentagonal_lt_pentagonal_neg (by omega)
  · rw [pentagonalAt_odd, show 2 * j + 1 + 1 = 2 * (j + 1) by ring, pentagonalAt_even]
    have hlt := pentagonal_neg_lt_pentagonal_add_one (k := (j + 1 : Nat)) (by omega)
    exact_mod_cast hlt

theorem pentagonalAt_pos (i : Nat) : 0 < pentagonalAt i := by
  have hone : pentagonalAt 0 = 1 := by decide
  have hle := pentagonalAt_strictMono.monotone (Nat.zero_le i)
  omega

/-- Every generalized pentagonal number but zero has a place. -/
theorem exists_pentagonalAt {j : ℤ} (hj : j ≠ 0) : ∃ i, pentagonalAt i = pentagonal j := by
  obtain ⟨n, hn⟩ : ∃ n : Nat, j = (n + 1 : Nat) ∨ j = -(n + 1 : Nat) :=
    ⟨j.natAbs - 1, by omega⟩
  obtain rfl | rfl := hn
  · exact ⟨2 * n, pentagonalAt_even n⟩
  · exact ⟨2 * n + 1, pentagonalAt_odd n⟩

/-- The sign of the `i`-th term. -/
def pentagonalSign (i : Nat) : ℤ := (-1) ^ (i / 2)

theorem coeff_pentagonalAt (i : Nat) :
    (pentagonalSeries ℤ).coeff (pentagonalAt i) = -pentagonalSign i := by
  obtain ⟨j, rfl | rfl⟩ := Nat.even_or_odd' i
  · rw [pentagonalAt_even, coeff_pentagonalSeries_pentagonal, pentagonalSign]
    simp [Int.negOnePow_succ]
  · have hdiv : (2 * j + 1) / 2 = j := by omega
    rw [pentagonalAt_odd, coeff_pentagonalSeries_pentagonal, pentagonalSign, hdiv,
      Int.negOnePow_neg]
    simp [Int.negOnePow_succ]

/-! ## the recurrence -/

/-- The number of partitions of `k - x`, or zero if that is negative. -/
def countBelow (k x : Nat) : ℤ := if x ≤ k then partitionCount (k - x) else 0

theorem countBelow_nonneg (k x : Nat) : 0 ≤ countBelow k x := by
  unfold countBelow
  split <;> omega

theorem countBelow_anti (k : Nat) {x y : Nat} (hxy : x ≤ y) : countBelow k y ≤ countBelow k x := by
  unfold countBelow
  by_cases hy : y ≤ k
  · rw [if_pos hy, if_pos (hxy.trans hy)]
    exact_mod_cast partitionCount_mono (by omega)
  · rw [if_neg hy]
    exact countBelow_nonneg k x

/-- The first `i` terms of the recurrence for `k`. -/
def partialSum (k i : Nat) : ℤ :=
  ∑ t ∈ Finset.range i, pentagonalSign t * countBelow k (pentagonalAt t)

theorem partialSum_succ (k i : Nat) :
    partialSum k (i + 1) = partialSum k i + pentagonalSign i * countBelow k (pentagonalAt i) :=
  Finset.sum_range_succ _ _

theorem partialSum_eq_image (k n : Nat) :
    -partialSum k n = ∑ x ∈ (Finset.range n).image pentagonalAt,
      (pentagonalSeries ℤ).coeff x * countBelow k x := by
  rw [Finset.sum_image fun i _ j _ h => pentagonalAt_strictMono.injective h, partialSum,
    ← Finset.sum_neg_distrib]
  refine Finset.sum_congr rfl fun i _ => ?_
  rw [coeff_pentagonalAt, neg_mul]

/-- The terms that are not zero are those of the pentagonal numbers up to `k`. -/
theorem sum_coeff_eq {k n : Nat} (hn : k < pentagonalAt n) :
    ∑ x ∈ Finset.Icc 1 k, (pentagonalSeries ℤ).coeff x * countBelow k x = -partialSum k n := by
  rw [partialSum_eq_image]
  refine Finset.sum_congr_of_eq_on_inter (fun x hx hnot => ?_) (fun x hx hnot => ?_)
    fun _ _ _ => rfl
  · obtain ⟨hpos, hle⟩ := Finset.mem_Icc.mp hx
    rw [coeff_pentagonalSeries_eq_zero, zero_mul]
    rintro ⟨j, rfl⟩
    have hj : j ≠ 0 := by
      rintro rfl
      exact absurd hpos (by decide)
    obtain ⟨i, hi⟩ := exists_pentagonalAt hj
    refine hnot (Finset.mem_image.mpr ⟨i, Finset.mem_range.mpr ?_, hi⟩)
    exact pentagonalAt_strictMono.lt_iff_lt.mp (by omega)
  · obtain ⟨i, -, rfl⟩ := Finset.mem_image.mp hx
    have hpos := pentagonalAt_pos i
    have hgt : ¬ pentagonalAt i ≤ k := fun hle => hnot (Finset.mem_Icc.mpr ⟨hpos, hle⟩)
    rw [countBelow, if_neg hgt, mul_zero]

/-- **Euler's recurrence**: all the terms together are the number of partitions. -/
theorem partialSum_eq {k n : Nat} (hk : 0 < k) (hn : k < pentagonalAt n) :
    partialSum k n = partitionCount k := by
  have hcoeff := congrArg (PowerSeries.coeff k) partitionSeries_mul
  rw [mul_comm, PowerSeries.coeff_mul, PowerSeries.coeff_one, if_neg hk.ne',
    Finset.Nat.sum_antidiagonal_eq_sum_range_succ_mk] at hcoeff
  have hzero : (pentagonalSeries ℤ).coeff 0 = 1 := by
    have h := coeff_pentagonalSeries_pentagonal ℤ 0
    rwa [show pentagonal 0 = 0 by decide] at h
  -- the term for zero, and the others
  rw [Finset.sum_range_eq_add_Ico _ (by omega), hzero] at hcoeff
  have hothers : ∑ x ∈ Finset.Ico 1 (k + 1), (pentagonalSeries ℤ).coeff x *
      PowerSeries.coeff (k - x) (PowerSeries.mk fun n => (partitionCount n : ℤ)) =
      -partialSum k n := by
    rw [← sum_coeff_eq hn]
    refine Finset.sum_congr (by ext; simp) fun x hx => ?_
    rw [PowerSeries.coeff_mk, countBelow, if_pos (by simp at hx; omega)]
  rw [hothers] at hcoeff
  simp at hcoeff
  omega

/-! ## no partial sum is too small -/

theorem pentagonalSign_eq (j : Nat) :
    pentagonalSign (4 * j) = 1 ∧ pentagonalSign (4 * j + 1) = 1 ∧
      pentagonalSign (4 * j + 2) = -1 ∧ pentagonalSign (4 * j + 3) = -1 := by
  have hdiv : ∀ r < 4, (4 * j + r) / 2 = 2 * j + r / 2 := by omega
  unfold pentagonalSign
  rw [hdiv 1 (by omega), hdiv 2 (by omega), hdiv 3 (by omega), show 4 * j / 2 = 2 * j by omega]
  simp [pow_succ, pow_mul]

theorem partialSum_group (k j : Nat) :
    partialSum k (4 * j + 2) = partialSum k (4 * j) + countBelow k (pentagonalAt (4 * j)) +
        countBelow k (pentagonalAt (4 * j + 1)) ∧
      partialSum k (4 * j + 3) =
        partialSum k (4 * j + 2) - countBelow k (pentagonalAt (4 * j + 2)) ∧
      partialSum k (4 * j + 4) =
        partialSum k (4 * j + 3) - countBelow k (pentagonalAt (4 * j + 3)) := by
  obtain ⟨h₀, h₁, h₂, h₃⟩ := pentagonalSign_eq j
  rw [partialSum_succ k (4 * j + 3), partialSum_succ k (4 * j + 2), partialSum_succ k (4 * j + 1),
    partialSum_succ k (4 * j), h₀, h₁, h₂, h₃]
  refine ⟨?_, ?_, ?_⟩ <;> ring

theorem countBelow_pentagonalAt_le (k : Nat) {i i' : Nat} (h : i ≤ i') :
    countBelow k (pentagonalAt i') ≤ countBelow k (pentagonalAt i) :=
  countBelow_anti k (pentagonalAt_strictMono.monotone h)

/-- The two terms that are subtracted are not larger than the two that were added. -/
theorem partialSum_nonneg (k j : Nat) : 0 ≤ partialSum k (4 * j) := by
  induction j with
  | zero => simp [partialSum]
  | succ j ih =>
    obtain ⟨h₂, h₃, h₄⟩ := partialSum_group k j
    have hfirst := countBelow_pentagonalAt_le k (by omega : 4 * j ≤ 4 * j + 2)
    have hsecond := countBelow_pentagonalAt_le k (by omega : 4 * j + 1 ≤ 4 * j + 3)
    rw [show 4 * (j + 1) = 4 * j + 4 by ring, h₄, h₃, h₂]
    linarith

/-- **No underflow**: a term is not larger than what it is subtracted from. -/
theorem le_partialSum {k i : Nat} (hi : i / 2 % 2 ≠ 0) :
    countBelow k (pentagonalAt i) ≤ partialSum k i := by
  obtain ⟨j, hj⟩ : ∃ j, i = 4 * j + 2 ∨ i = 4 * j + 3 := ⟨i / 4, by omega⟩
  obtain ⟨h₂, h₃, -⟩ := partialSum_group k j
  have hnonneg := partialSum_nonneg k j
  have hfirst := countBelow_pentagonalAt_le k (by omega : 4 * j ≤ 4 * j + 2)
  have hsecond := countBelow_pentagonalAt_le k (by omega : 4 * j + 1 ≤ 4 * j + 3)
  rcases hj with rfl | rfl
  · have hrest := countBelow_nonneg k (pentagonalAt (4 * j + 1))
    linarith
  · linarith

theorem pentagonalSign_of_even {i : Nat} (h : i / 2 % 2 = 0) : pentagonalSign i = 1 :=
  (Nat.even_iff.mpr h).neg_one_pow

theorem pentagonalSign_of_odd {i : Nat} (h : i / 2 % 2 ≠ 0) : pentagonalSign i = -1 :=
  (Nat.odd_iff.mpr (by omega)).neg_one_pow

end Lib
