import Mathlib.Data.List.Basic

/-!
# Muduo.Lib.FlatArray

Lists read as flat arrays: the elements between two indices (`slice`),
writing a run of elements over a range (`overwrite`), and the forward
element-by-element copy inside one array (`copyForward`).

Everything here is proved once so that the proofs about a particular buffer
never redo `take`/`drop` arithmetic.
-/

namespace Lib

open List

variable {α : Type u}

/-! ## slices -/

/-- The elements at positions `i ≤ k < j`. -/
def slice (v : List α) (i j : Nat) : List α := (v.drop i).take (j - i)

theorem length_slice {v : List α} {i j : Nat} (h : j ≤ v.length) :
    (slice v i j).length = j - i := by
  simp only [slice, length_take, length_drop]
  omega

@[simp] theorem slice_self (v : List α) (i : Nat) : slice v i i = [] := by
  simp [slice]

theorem drop_eq_slice_append (v : List α) (i n : Nat) :
    v.drop i = slice v i (i + n) ++ v.drop (i + n) := by
  rw [slice, Nat.add_sub_cancel_left, ← drop_drop, take_append_drop]

theorem slice_append_slice (v : List α) {i j k : Nat} (hij : i ≤ j) (hjk : j ≤ k) :
    slice v i j ++ slice v j k = slice v i k := by
  unfold slice
  have hk : k - i = (j - i) + (k - j) := by omega
  have hj : v.drop j = (v.drop i).drop (j - i) := by
    rw [drop_drop]
    congr 1
    omega
  rw [hk, take_add, hj]

theorem slice_drop (v : List α) (i j n : Nat) : slice v (i + n) j = (slice v i j).drop n := by
  unfold slice
  rw [drop_take, drop_drop]
  congr 1
  omega

theorem slice_take (v : List α) {i j n : Nat} (h : i + n ≤ j) :
    slice v i (i + n) = (slice v i j).take n := by
  unfold slice
  rw [take_take]
  congr 1
  omega

theorem slice_append_right (v ys : List α) {i j : Nat} (h : j ≤ v.length) :
    slice (v ++ ys) i j = slice v i j := by
  unfold slice
  by_cases hi : i ≤ v.length
  · rw [drop_append_of_le_length hi, take_append_of_le_length]
    rw [length_drop]
    omega
  · have hz : j - i = 0 := by omega
    simp [hz]

/-- A beginning of `a ++ b` ends in `a`, or goes on in `b`. -/
theorem prefix_append_cases {t a b : List α} (h : t <+: a ++ b) :
    (t <+: a ∧ t ≠ a) ∨ ∃ t', t = a ++ t' ∧ t' <+: b := by
  by_cases hlen : t.length < a.length
  · exact .inl ⟨prefix_of_prefix_length_le h (prefix_append a b) (by omega),
      fun heq => by rw [heq] at hlen; omega⟩
  · obtain ⟨t', rfl⟩ := prefix_of_prefix_length_le (prefix_append a b) h (by omega)
    exact .inr ⟨t', rfl, (prefix_append_right_inj a).mp h⟩

/-! ## overwriting a range -/

/-- Write `xs` over the elements that start at position `i`. -/
def overwrite (v : List α) (i : Nat) (xs : List α) : List α :=
  v.take i ++ xs ++ v.drop (i + xs.length)

@[simp] theorem overwrite_nil (v : List α) (i : Nat) : overwrite v i [] = v := by
  simp [overwrite]

variable {i : Nat}

theorem length_overwrite {v xs : List α} (h : i + xs.length ≤ v.length) :
    (overwrite v i xs).length = v.length := by
  simp only [overwrite, length_append, length_take, length_drop]
  omega

theorem overwrite_append {xs ys ys' zs : List α} (hi : xs.length = i)
    (h : ys'.length = ys.length) : overwrite (xs ++ (ys ++ zs)) i ys' = xs ++ (ys' ++ zs) := by
  have hdrop : (xs ++ (ys ++ zs)).drop (i + ys'.length) = zs := by
    rw [← append_assoc]
    exact drop_left' (by rw [length_append, hi, h])
  rw [overwrite, take_left' hi, hdrop, append_assoc]

/-- Two lists that differ in a middle part and at the end agree everywhere else. -/
theorem getElem?_replaced {front mid mid' rest tail tail' : List α}
    (hmid : mid.length = mid'.length) (hi : i < front.length ∨ front.length + mid.length ≤ i)
    (hend : i < front.length + mid.length + rest.length) :
    (front ++ (mid ++ (rest ++ tail)))[i]? = (front ++ (mid' ++ (rest ++ tail')))[i]? := by
  grind

theorem slice_overwrite_self {v xs : List α} (h : i ≤ v.length) :
    slice (overwrite v i xs) i (i + xs.length) = xs := by
  have hlen : (v.take i).length = i := by rw [length_take]; omega
  unfold slice overwrite
  rw [append_assoc, drop_append_of_le_length (by omega),
    drop_of_length_le (by omega), nil_append, Nat.add_sub_cancel_left,
    take_append_of_le_length (Nat.le_refl _), take_length]

theorem slice_overwrite_left {v xs : List α} {i j k : Nat} (hk : k ≤ i) (hi : i ≤ v.length) :
    slice (overwrite v i xs) j k = slice v j k := by
  have hlen : (v.take i).length = i := by rw [length_take]; omega
  unfold overwrite
  rw [append_assoc, slice_append_right _ _ (by omega)]
  unfold slice
  rw [drop_take, take_take]
  congr 1
  omega

theorem slice_overwrite_right {v xs : List α} {i j k : Nat} (hj : i + xs.length ≤ j)
    (hi : i + xs.length ≤ v.length) : slice (overwrite v i xs) j k = slice v j k := by
  have hlen : (v.take i ++ xs).length = i + xs.length := by
    rw [length_append, length_take]
    omega
  unfold slice overwrite
  congr 1
  rw [drop_append, hlen, drop_of_length_le (by omega), nil_append,
    drop_drop]
  congr 1
  omega

theorem slice_overwrite_prepend {v xs : List α} {i w : Nat} (hw : i + xs.length ≤ w)
    (hv : w ≤ v.length) : slice (overwrite v i xs) i w = xs ++ slice v (i + xs.length) w := by
  rw [← slice_append_slice _ (Nat.le_add_right i xs.length) hw,
    slice_overwrite_self (by omega), slice_overwrite_right (Nat.le_refl _) (by omega)]

/-! ## copying inside one array -/

/-- Copy `n` elements from position `src` to position `dst`, one after the
other and lowest first, each read from the array as already modified. -/
def copyForward (v : List α) (src dst : Nat) : Nat → List α
  | 0 => v
  | n + 1 => match v[src]? with
    | some x => copyForward (v.set dst x) (src + 1) (dst + 1) n
    | none => v

theorem set_eq_overwrite {v : List α} {x : α} (h : i < v.length) :
    v.set i x = overwrite v i [x] := by
  simp [overwrite, set_eq_take_append_cons_drop, h]

theorem overwrite_overwrite {v xs ys : List α} (h : i + xs.length ≤ v.length) :
    overwrite (overwrite v i xs) (i + xs.length) ys = overwrite v i (xs ++ ys) := by
  have hlen : (v.take i ++ xs).length = i + xs.length := by
    rw [length_append, length_take]
    omega
  unfold overwrite
  rw [take_append_of_le_length (by omega), take_of_length_le (by omega),
    drop_append, hlen, drop_of_length_le (by omega), nil_append, drop_drop,
    length_append]
  simp only [append_assoc]
  congr 4
  omega

/-- **Overlapping copy.** Copied to a lower position, the elements arrive as
they were before the copy: the source is only overwritten behind the point
that has been read. -/
theorem copyForward_eq_overwrite (v : List α) (src dst n : Nat) (hd : dst ≤ src)
    (hs : src + n ≤ v.length) :
    copyForward v src dst n = overwrite v dst (slice v src (src + n)) := by
  induction n generalizing v src dst with
  | zero => simp [copyForward]
  | succ n ih =>
    have hsrc : src < v.length := by omega
    have hdst : dst < v.length := by omega
    have hlen : (v.set dst v[src]).length = v.length := length_set
    have hone : slice v src (src + 1) = [v[src]] := by
      rw [slice, drop_eq_getElem_cons hsrc, Nat.add_sub_cancel_left]
      rfl
    have hrest : slice (v.set dst v[src]) (src + 1) (src + 1 + n) =
        slice v (src + 1) (src + 1 + n) := by
      rw [set_eq_overwrite hdst]
      exact slice_overwrite_right (Nat.succ_le_succ hd) hdst
    rw [copyForward, List.getElem?_eq_getElem hsrc]
    dsimp only
    rw [ih _ _ _ (by omega) (by omega), hrest, set_eq_overwrite hdst]
    have hjoin : overwrite (overwrite v dst [v[src]]) (dst + 1)
        (slice v (src + 1) (src + 1 + n)) =
          overwrite v dst ([v[src]] ++ slice v (src + 1) (src + 1 + n)) :=
      overwrite_overwrite hdst
    rw [hjoin, ← hone, slice_append_slice v (Nat.le_succ src) (by omega)]
    congr 2
    omega

end Lib
