import Mathlib.Data.List.Perm.Basic
import Muduo.Lib.Outcome

/-!
# Muduo.Lib.KWayMerge

Merging many sorted sequences with a heap.

A program keeps a vector of readers, each with its current entry.  It takes the reader whose
key comes first, deals with the entry and lets the reader go on; a reader at its end is
removed.  Which of several readers with the same key is taken depends on how the heap is
built, so that `Heap` may choose anew in every iteration.
-/

namespace Lib

open List

variable {κ : Type u} {le : κ → κ → Prop}

/-- For the keys of the iteration `n`, the place of one that comes first. -/
structure Heap (le : κ → κ → Prop) where
  top : Nat → List κ → Nat
  top_lt : ∀ (n : Nat) (keys : List κ), keys ≠ [] → top n keys < keys.length
  top_le : ∀ (n : Nat) (keys : List κ) (k : κ), keys[top n keys]? = some k → ∀ k' ∈ keys, le k k'

namespace Heap

section
variable {ρ σ : Type v} {ε : Type w}

/-- `while (!keys.empty())`, for at most `fuel` iterations. -/
def loop (heap : Heap le) (key : ρ → κ) (next : ρ → Except ε (Option ρ))
    (body : σ → ρ → Except ε σ) (diverges : ε) : Nat → Nat → List ρ → σ → Except ε σ
  | 0, _, _, _ => .error diverges
  | fuel + 1, n, keys, s =>
    let i := heap.top n (keys.map key)
    match keys[i]? with
    | none => .ok s
    | some r => do
      let s ← body s r
      match ← next r with
      | some r => loop heap key next body diverges fuel (n + 1) (keys.set i r) s
      | none => loop heap key next body diverges fuel (n + 1) (keys.eraseIdx i) s

end

/-! ## the entries in order -/

variable {α : Type v} (heap : Heap le) (key : α → κ)

/-- The entries of sequences that are not empty, each given by its head and its tail. -/
def merge : Nat → Nat → List (α × List α) → List α
  | 0, _, _ => []
  | fuel + 1, n, cs =>
    let i := heap.top n (cs.map fun c => key c.1)
    match cs[i]? with
    | none => []
    | some (a, []) => a :: merge fuel (n + 1) (cs.eraseIdx i)
    | some (a, b :: rest) => a :: merge fuel (n + 1) (cs.set i (b, rest))

def entries (cs : List (α × List α)) : List α := cs.flatMap fun c => c.1 :: c.2

section
variable {heap key} {cs cs' : List (α × List α)} {a : α} {rest : List α} {i n : Nat}

theorem entries_perm (h : cs.Perm cs') : (entries cs).Perm (entries cs') := h.flatMap_right _

theorem entries_of_getElem? (hi : cs[i]? = some (a, rest)) :
    (entries cs).Perm (a :: (rest ++ entries (cs.eraseIdx i))) := by
  obtain ⟨hlt, hget⟩ := List.getElem?_eq_some_iff.mp hi
  have hperm := entries_perm (getElem_cons_eraseIdx_perm hlt)
  rw [hget] at hperm
  exact hperm.symm

theorem entries_of_cons {b : α} (hi : cs[i]? = some (a, b :: rest)) :
    (entries cs).Perm (a :: entries (cs.set i (b, rest))) := by
  have hset := entries_perm
    (set_perm_cons_eraseIdx (List.getElem?_eq_some_iff.mp hi).1 (b, rest))
  exact (entries_of_getElem? hi).trans (hset.symm.cons a)

theorem entries_of_nil (hi : cs[i]? = some (a, [])) :
    (entries cs).Perm (a :: entries (cs.eraseIdx i)) :=
  entries_of_getElem? hi

theorem eq_nil_of_getElem?_top (h : cs[heap.top n (cs.map fun c => key c.1)]? = none) :
    cs = [] := by
  by_contra hne
  have hlt := heap.top_lt n (cs.map fun c => key c.1) (by simpa using hne)
  rw [length_map] at hlt
  rw [List.getElem?_eq_none_iff] at h
  omega

/-- **All entries are met**, each of them once. -/
theorem merge_perm {fuel : Nat} (hfuel : (entries cs).length ≤ fuel) :
    (heap.merge key fuel n cs).Perm (entries cs) := by
  induction fuel generalizing n cs with
  | zero =>
    rw [length_eq_zero_iff.mp (Nat.le_zero.mp hfuel)]
    exact List.Perm.refl _
  | succ fuel ih =>
    rw [merge]
    split
    next hnone =>
      rw [eq_nil_of_getElem?_top hnone]
      exact List.Perm.refl _
    next a hsome =>
      have hperm := entries_of_nil hsome
      have hlen := hperm.length_eq
      rw [length_cons] at hlen
      exact ((ih (by omega)).cons a).trans hperm.symm
    next a b rest hsome =>
      have hperm := entries_of_cons hsome
      have hlen := hperm.length_eq
      rw [length_cons] at hlen
      exact ((ih (by omega)).cons a).trans hperm.symm

/-- Every sequence is in order. -/
def Ordered (le : κ → κ → Prop) (key : α → κ) (cs : List (α × List α)) : Prop :=
  ∀ c ∈ cs, (c.1 :: c.2).Pairwise fun a b => le (key a) (key b)

theorem Ordered.eraseIdx (h : Ordered le key cs) (i : Nat) : Ordered le key (cs.eraseIdx i) :=
  fun c hc => h c (mem_of_mem_eraseIdx hc)

theorem Ordered.set {b : α} (h : Ordered le key cs) (hi : cs[i]? = some (a, b :: rest)) :
    Ordered le key (cs.set i (b, rest)) := by
  intro c hc
  obtain hc | rfl := mem_or_eq_of_mem_set hc
  · exact h c hc
  · exact (h _ (mem_of_getElem? hi)).of_cons

theorem Ordered.top_le (h : Ordered le key cs) (htrans : ∀ a b c, le a b → le b c → le a c)
    (hi : cs[heap.top n (cs.map fun c => key c.1)]? = some (a, rest)) :
    ∀ x ∈ entries cs, le (key a) (key x) := by
  intro x hx
  obtain ⟨c, hc, hxc⟩ := mem_flatMap.mp hx
  have htop : le (key a) (key c.1) := by
    refine heap.top_le n (cs.map fun c => key c.1) (key a) ?_ _ (mem_map_of_mem hc)
    rw [List.getElem?_map, hi, Option.map_some]
  obtain rfl | hxc := mem_cons.mp hxc
  · exact htop
  · exact htrans _ _ _ htop ((pairwise_cons.mp (h c hc)).1 x hxc)

/-- **The entries are met in order.** -/
theorem merge_pairwise (htrans : ∀ a b c, le a b → le b c → le a c) {fuel : Nat}
    (hfuel : (entries cs).length ≤ fuel) (h : Ordered le key cs) :
    (heap.merge key fuel n cs).Pairwise fun a b => le (key a) (key b) := by
  induction fuel generalizing n cs with
  | zero => exact List.Pairwise.nil
  | succ fuel ih =>
    rw [merge]
    split
    next => exact List.Pairwise.nil
    next a hsome =>
      have hperm := entries_of_nil hsome
      have hlen := hperm.length_eq
      rw [length_cons] at hlen
      refine pairwise_cons.mpr ⟨fun x hx => ?_, ih (by omega) (h.eraseIdx _)⟩
      have hx := (merge_perm (by omega)).subset hx
      exact h.top_le htrans hsome x (hperm.symm.subset (mem_cons_of_mem a hx))
    next a b rest hsome =>
      have hperm := entries_of_cons hsome
      have hlen := hperm.length_eq
      rw [length_cons] at hlen
      refine pairwise_cons.mpr ⟨fun x hx => ?_, ih (by omega) (h.set hsome)⟩
      have hx := (merge_perm (by omega)).subset hx
      exact h.top_le htrans hsome x (hperm.symm.subset (mem_cons_of_mem a hx))

end

/-- The sequences that are not empty. -/
def heads : List (List α) → List (α × List α)
  | [] => []
  | [] :: ls => heads ls
  | (a :: l) :: ls => (a, l) :: heads ls

theorem entries_heads (ls : List (List α)) : entries (heads ls) = ls.flatten := by
  fun_induction heads ls <;> simp_all [entries]

variable {c : α × List α}

variable {ls : List (List α)}

theorem mem_of_mem_heads (h : c ∈ heads ls) : c.1 :: c.2 ∈ ls := by
  fun_induction heads ls <;> grind

theorem ordered_heads
    (h : ∀ l ∈ ls, l.Pairwise fun a b => le (key a) (key b)) : Ordered le key (heads ls) :=
  fun _ hc => h _ (mem_of_mem_heads hc)

/-! ## the loop and the entries -/

section
variable {ρ σ : Type v} {ε : Type w} {reads : ρ → α × List α → Prop} {keys : List ρ}
  {cs : List (α × List α)}

theorem forall₂_set {r : ρ} (h : List.Forall₂ reads keys cs) (i : Nat)
    (hr : reads r c) : List.Forall₂ reads (keys.set i r) (cs.set i c) := by
  induction h generalizing i with
  | nil => exact .nil
  | cons hhead htail ih =>
    cases i with
    | zero => exact .cons hr htail
    | succ i => exact .cons hhead (ih i)

theorem forall₂_eraseIdx (h : List.Forall₂ reads keys cs) (i : Nat) :
    List.Forall₂ reads (keys.eraseIdx i) (cs.eraseIdx i) := by
  induction h generalizing i with
  | nil => exact .nil
  | cons hhead htail ih =>
    cases i with
    | zero => exact htail
    | succ i => exact .cons hhead (ih i)

theorem forall₂_getElem? {i : Nat} (h : List.Forall₂ reads keys cs)
    (hi : cs[i]? = some c) : ∃ r, keys[i]? = some r ∧ reads r c := by
  induction h generalizing i with
  | nil => cases hi
  | cons hhead htail ih =>
    cases i with
    | zero =>
      obtain rfl := Option.some.inj hi
      exact ⟨_, rfl, hhead⟩
    | succ i => exact ih hi

/-- What the loop uses of a reader that has the entries of `c`. -/
structure Reader (reads : ρ → α × List α → Prop) (keyOf : ρ → κ) (key : α → κ)
    (next : ρ → Except ε (Option ρ)) (body : σ → ρ → Except ε σ) (f : σ → α → Except ε σ) :
    Prop where
  key_eq : ∀ {r c}, reads r c → keyOf r = key c.1
  body_eq : ∀ {r c} (s), reads r c → body s r = f s c.1
  next_nil : ∀ {r a}, reads r (a, []) → next r = .ok none
  next_cons : ∀ {r a b rest}, reads r (a, b :: rest) → ∃ r', next r = .ok (some r') ∧
    reads r' (b, rest)

variable {body : σ → ρ → Except ε σ} {f : σ → α → Except ε σ} {keyOf : ρ → κ}
  {next : ρ → Except ε (Option ρ)}

theorem Reader.map_key (hreader : Reader reads keyOf key next body f)
    (h : List.Forall₂ reads keys cs) : keys.map keyOf = cs.map fun c => key c.1 := by
  induction h with
  | nil => rfl
  | cons hhead _ ih => rw [map_cons, map_cons, ih, hreader.key_eq hhead]

/-- **The loop deals with the entries** in the order of `merge`. -/
theorem loop_eq (hreader : Reader reads keyOf key next body f) (diverges : ε) {fuel n : Nat}
    (hfuel : (entries cs).length < fuel) (h : List.Forall₂ reads keys cs) (s : σ) :
    heap.loop keyOf next body diverges fuel n keys s = (heap.merge key fuel n cs).foldlM f s := by
  induction fuel generalizing n keys cs s with
  | zero => omega
  | succ fuel ih =>
    rw [loop, merge, hreader.map_key key h]
    cases hi : cs[heap.top n (cs.map fun c => key c.1)]? with
    | none =>
      obtain rfl := eq_nil_of_getElem?_top hi
      obtain rfl := forall₂_nil_right_iff.mp h
      rfl
    | some c =>
      obtain ⟨a, rest⟩ := c
      obtain ⟨r, hr, hreads⟩ := forall₂_getElem? h hi
      simp only [hr, hreader.body_eq s hreads]
      cases rest with
      | nil =>
        have hlen := (entries_of_nil hi).length_eq
        rw [length_cons] at hlen
        have hrest := ih (n := n + 1) (by omega)
          (forall₂_eraseIdx h (heap.top n (cs.map fun c => key c.1)))
        simp only [foldlM_cons, hreader.next_nil hreads, ok_bind, hrest]
      | cons b rest =>
        obtain ⟨r', hnext, hreads'⟩ := hreader.next_cons hreads
        have hlen := (entries_of_cons hi).length_eq
        rw [length_cons] at hlen
        have hrest := ih (n := n + 1) (by omega)
          (forall₂_set h (heap.top n (cs.map fun c => key c.1)) hreads')
        simp only [foldlM_cons, hnext, ok_bind, hrest]

end

/-! ## a heap -/

/-- The first key that no other key precedes. -/
def firstIdx (le : κ → κ → Prop) [DecidableRel le] (keys : List κ) : Nat :=
  keys.findIdx fun k => keys.all fun k' => le k k'

theorem exists_first (htrans : ∀ a b c, le a b → le b c → le a c) (htotal : ∀ a b, le a b ∨ le b a)
    {keys : List κ} (h : keys ≠ []) : ∃ k ∈ keys, ∀ k' ∈ keys, le k k' := by
  induction keys with
  | nil => exact absurd rfl h
  | cons k keys ih =>
    have hrefl : le k k := (htotal k k).elim id id
    by_cases hnil : keys = []
    · subst hnil
      exact ⟨k, mem_cons_self, by simpa using hrefl⟩
    · obtain ⟨m, hm, hmin⟩ := ih hnil
      obtain hle | hle := htotal k m
      · exact ⟨k, mem_cons_self,
          forall_mem_cons.mpr ⟨hrefl, fun k' hk' => htrans _ _ _ hle (hmin k' hk')⟩⟩
      · exact ⟨m, mem_cons_of_mem k hm, forall_mem_cons.mpr ⟨hle, hmin⟩⟩

/-- The heap that takes the first of several readers with the same key. -/
def first [DecidableRel le] (htrans : ∀ a b c, le a b → le b c → le a c)
    (htotal : ∀ a b, le a b ∨ le b a) : Heap le where
  top _ keys := firstIdx le keys
  top_lt _ keys hne := by
    obtain ⟨k, hk, hmin⟩ := exists_first htrans htotal hne
    exact findIdx_lt_length_of_exists ⟨k, hk, by simpa using hmin⟩
  top_le _ keys k hk := by
    obtain ⟨hlt, hget⟩ := List.getElem?_eq_some_iff.mp hk
    have hfound := findIdx_getElem (w := hlt)
    change (keys.all fun k' => le keys[firstIdx le keys] k') = true at hfound
    rw [hget] at hfound
    simpa using hfound

end Heap

end Lib
