import Mathlib.Data.Set.Card

/-!
# Muduo.Lib.Slots

A vector whose entries belong to keys, where each key knows the position of
its entry.  Entries are pushed at the end and written in place, and an entry is
removed by moving the last one into its position.

`Slots R index xs` says that every key with a position has there an entry that
`R` relates to it, and that every position has exactly one key.
-/

namespace Lib

open Function

variable {ι : Type u} {β : Type v}

structure Slots (R : ι → β → Prop) (index : ι → Option Nat) (xs : List β) : Prop where
  entry : ∀ {c : ι} {k : Nat}, index c = some k → ∃ x, xs[k]? = some x ∧ R c x
  owner : ∀ {k : Nat}, k < xs.length → ∃ c, index c = some k
  inj : ∀ {c d : ι} {k : Nat}, index c = some k → index d = some k → c = d

namespace Slots

variable {R : ι → β → Prop} {index : ι → Option Nat} {xs : List β} {c : ι} {k : Nat} {x : β}

theorem empty : Slots R (fun _ => none) ([] : List β) :=
  ⟨by simp, by simp, by simp⟩

theorem lt_length (h : Slots R index xs) (hc : index c = some k) : k < xs.length := by
  obtain ⟨x, hx, -⟩ := h.entry hc
  exact (List.getElem?_eq_some_iff.mp hx).1

variable {R' : ι → β → Prop}

theorem congr (h : Slots R index xs)
    (hR : ∀ {c k x}, index c = some k → R c x → R' c x) : Slots R' index xs := by
  refine ⟨fun hc => ?_, h.owner, h.inj⟩
  obtain ⟨x, hx, hRx⟩ := h.entry hc
  exact ⟨x, hx, hR hc hRx⟩

theorem exists_of_mem (h : Slots R index xs) (hx : x ∈ xs) :
    ∃ c k, index c = some k ∧ xs[k]? = some x ∧ R c x := by
  obtain ⟨k, hk, rfl⟩ := List.mem_iff_getElem.mp hx
  obtain ⟨c, hc⟩ := h.owner hk
  obtain ⟨y, hy, hRy⟩ := h.entry hc
  obtain rfl : xs[k] = y := Option.some.inj ((List.getElem?_eq_getElem hk).symm.trans hy)
  exact ⟨c, k, hc, hy, hRy⟩

/-- There are as many keys with a position as entries. -/
theorem encard_keys (h : Slots R index xs) : {c | index c ≠ none}.encard = xs.length := by
  have hinj : Set.InjOn (fun c => (index c).getD 0) {c | index c ≠ none} := by
    intro c hc d hd heq
    obtain ⟨k, hk⟩ := Option.ne_none_iff_exists'.mp hc
    obtain ⟨j, hj⟩ := Option.ne_none_iff_exists'.mp hd
    obtain rfl : k = j := by simpa [hk, hj] using heq
    exact h.inj hk hj
  have himage : (fun c => (index c).getD 0) '' {c | index c ≠ none} =
      (Finset.range xs.length : Set Nat) := by
    ext k
    constructor
    · intro hk
      obtain ⟨c, hc, rfl⟩ := hk
      obtain ⟨j, hj⟩ := Option.ne_none_iff_exists'.mp hc
      simpa [hj] using h.lt_length hj
    · intro hk
      obtain ⟨c, hc⟩ := h.owner (Finset.mem_range.mp hk)
      exact ⟨c, by simp [hc], by simp [hc]⟩
  rw [← hinj.encard_image, himage, Set.encard_coe_eq_coe_finsetCard, Finset.card_range]

theorem set (h : Slots R index xs) (hc : index c = some k) (hx : R' c x)
    (hR : ∀ {d y}, d ≠ c → R d y → R' d y) : Slots R' index (xs.set k x) := by
  refine ⟨fun {d j} hd => ?_, fun {j} hj => h.owner (by rwa [List.length_set] at hj), h.inj⟩
  obtain ⟨y, hy, hRy⟩ := h.entry hd
  by_cases hdc : d = c
  · subst hdc
    obtain rfl : k = j := Option.some.inj (hc.symm.trans hd)
    exact ⟨x, List.getElem?_set_self (h.lt_length hc), hx⟩
  · have hne : k ≠ j := by
      rintro rfl
      exact hdc (h.inj hd hc)
    exact ⟨y, (List.getElem?_set_ne hne).trans hy, hR hdc hRy⟩

variable [DecidableEq ι]

theorem push (h : Slots R index xs) (hc : index c = none) (hx : R c x) :
    Slots R (update index c (some xs.length)) (xs ++ [x]) := by
  have hold : ∀ {d j}, d ≠ c → update index c (some xs.length) d = some j →
      index d = some j := fun hdc hd => (update_of_ne hdc _ _).symm.trans hd
  have hnew : ∀ {j}, update index c (some xs.length) c = some j → xs.length = j :=
    fun hj => by simpa using hj
  refine ⟨fun {d j} hd => ?_, fun {j} hj => ?_, fun {d e j} hd he => ?_⟩
  · by_cases hdc : d = c
    · subst hdc
      obtain rfl := hnew hd
      exact ⟨x, by simp, hx⟩
    · obtain ⟨y, hy, hRy⟩ := h.entry (hold hdc hd)
      exact ⟨y, (List.getElem?_append_left (h.lt_length (hold hdc hd))).trans hy, hRy⟩
  · rw [List.length_append, List.length_singleton] at hj
    rcases Nat.lt_succ_iff_lt_or_eq.mp hj with hlt | rfl
    · obtain ⟨d, hd⟩ := h.owner hlt
      have hdc : d ≠ c := by
        rintro rfl
        rw [hc] at hd
        cases hd
      exact ⟨d, (update_of_ne hdc _ _).trans hd⟩
    · exact ⟨c, update_self ..⟩
  · by_cases hdc : d = c
    · by_cases hec : e = c
      · rw [hdc, hec]
      · subst hdc
        have hlt := h.lt_length (hold hec he)
        rw [hnew hd] at hlt
        exact absurd hlt (Nat.lt_irrefl _)
    · by_cases hec : e = c
      · subst hec
        have hlt := h.lt_length (hold hdc hd)
        rw [hnew he] at hlt
        exact absurd hlt (Nat.lt_irrefl _)
      · exact h.inj (hold hdc hd) (hold hec he)

/-- **Removal.** The entry of the key `c` goes, and the last entry, which is
that of `d`, moves into its position. -/
theorem swapRemove {d : ι} {last : β} (h : Slots R index xs) (hc : index c = some k)
    (hd : index d = some (xs.length - 1)) (hlast : xs[xs.length - 1]? = some last) :
    Slots R (update (update index d (some k)) c none) ((xs.set k last).dropLast) := by
  have hk : k < xs.length := h.lt_length hc
  -- the keys that keep an entry, and where
  have hcases : ∀ {e j}, update (update index d (some k)) c none e = some j →
      e ≠ c ∧ ((e = d ∧ j = k) ∨ (e ≠ d ∧ index e = some j)) := by
    intro e j he
    by_cases hec : e = c
    · subst hec
      simp at he
    · rw [update_of_ne hec] at he
      by_cases hed : e = d
      · subst hed
        rw [update_self] at he
        exact ⟨hec, .inl ⟨rfl, (Option.some.inj he).symm⟩⟩
      · rw [update_of_ne hed] at he
        exact ⟨hec, .inr ⟨hed, he⟩⟩
  have hget : ∀ {j}, j < xs.length - 1 →
      ((xs.set k last).dropLast)[j]? = (xs.set k last)[j]? := by
    intro j hj
    rw [List.getElem?_dropLast, List.length_set, if_pos hj]
  refine ⟨fun {e j} he => ?_, fun {j} hj => ?_, fun {e e' j} he he' => ?_⟩
  · obtain ⟨hec, ⟨rfl, rfl⟩ | ⟨hed, he⟩⟩ := hcases he
    · -- the moved entry
      obtain ⟨y, hy, hRy⟩ := h.entry hd
      obtain rfl : last = y := Option.some.inj (hlast.symm.trans hy)
      have hne : j ≠ xs.length - 1 := by
        rintro rfl
        exact hec (h.inj hd hc)
      exact ⟨last, (hget (by omega)).trans (List.getElem?_set_self hk), hRy⟩
    · obtain ⟨y, hy, hRy⟩ := h.entry he
      have hlt := h.lt_length he
      have hjk : k ≠ j := by
        rintro rfl
        exact hec (h.inj he hc)
      have hne : j ≠ xs.length - 1 := by
        rintro rfl
        exact hed (h.inj he hd)
      exact ⟨y, ((hget (by omega)).trans (List.getElem?_set_ne hjk)).trans hy, hRy⟩
  · rw [List.length_dropLast, List.length_set] at hj
    by_cases hjk : j = k
    · subst hjk
      have hdc : d ≠ c := by
        rintro rfl
        have := Option.some.inj (hc.symm.trans hd)
        omega
      exact ⟨d, by rw [update_of_ne hdc, update_self]⟩
    · obtain ⟨e, he⟩ := h.owner (show j < xs.length by omega)
      have hec : e ≠ c := by
        rintro rfl
        exact hjk (Option.some.inj (he.symm.trans hc))
      have hed : e ≠ d := by
        rintro rfl
        have := Option.some.inj (he.symm.trans hd)
        omega
      exact ⟨e, by rw [update_of_ne hec, update_of_ne hed, he]⟩
  · obtain ⟨hec, ⟨hed, hjk⟩ | ⟨-, hie⟩⟩ := hcases he
    · obtain ⟨hec', ⟨hed', -⟩ | ⟨-, hie'⟩⟩ := hcases he'
      · rw [hed, hed']
      · exact absurd (h.inj hie' (hjk ▸ hc)) hec'
    · obtain ⟨hec', ⟨-, hjk⟩ | ⟨-, hie'⟩⟩ := hcases he'
      · exact absurd (h.inj hie (hjk ▸ hc)) hec
      · exact h.inj hie hie'

end Slots

end Lib
