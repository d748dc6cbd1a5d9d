import Mathlib.Data.Finset.Card

/-!
# Muduo.Lib.Atomic

Linearizable objects.

An object is called by threads.  What can be observed of it is its trace: the calls
and the returns, in the order in which they happen.  The object is linearizable when
its trace is one of an atomic object, which applies each operation at one point
between its call and its return.  `AtomicTrace` are the traces of the atomic object
that behaves as `apply` says, with the operations in the order of their points.
-/

namespace Lib

open List Function

variable {θ : Type u} {ω : Type v} {ρ : Type w} {σ : Type x}

/-- What can be observed. -/
inductive Event (θ : Type u) (ω : Type v) (ρ : Type w)
  | call (t : θ) (o : ω)
  | ret (t : θ) (o : ω) (r : ρ)
deriving DecidableEq

/-- How far a thread is with an operation: `done` behind its point. -/
inductive Status (ω : Type v) (ρ : Type w)
  | idle
  | called (o : ω)
  | done (o : ω) (r : ρ)

/-- The result that a return has. -/
def Event.result : Event θ ω ρ → Option (ω × ρ)
  | call _ _ => none
  | ret _ o r => some (o, r)

/-- The results, in the order of the returns. -/
def returns (tr : List (Event θ ω ρ)) : List (ω × ρ) := tr.filterMap Event.result

@[simp] theorem returns_call (tr : List (Event θ ω ρ)) (t : θ) (o : ω) :
    returns (tr ++ [.call t o]) = returns tr := by
  simp [returns, filterMap_append, Event.result]

@[simp] theorem returns_ret (tr : List (Event θ ω ρ)) (t : θ) (o : ω) (r : ρ) :
    returns (tr ++ [.ret t o r]) = returns tr ++ [(o, r)] := by
  simp [returns, filterMap_append, Event.result]

/-- A trace of the atomic object, the state and the threads behind it, and the
operations with their results in the order of their points. -/
inductive AtomicTrace [DecidableEq θ] (apply : ω → σ → ρ × σ) (init : σ) :
    List (Event θ ω ρ) → σ → (θ → Status ω ρ) → List (ω × ρ) → Prop
  | start : AtomicTrace apply init [] init (fun _ => .idle) []
  | call {tr s st h} {t : θ} {o : ω} : AtomicTrace apply init tr s st h → st t = .idle →
      AtomicTrace apply init (tr ++ [.call t o]) s (update st t (.called o)) h
  | point {tr s st h} {t : θ} {o : ω} : AtomicTrace apply init tr s st h → st t = .called o →
      AtomicTrace apply init tr (apply o s).2
        (update st t (.done o (apply o s).1)) (h ++ [(o, (apply o s).1)])
  | ret {tr s st h} {t : θ} {o : ω} {r : ρ} : AtomicTrace apply init tr s st h →
      st t = .done o r →
      AtomicTrace apply init (tr ++ [.ret t o r]) s (update st t .idle) h

/-- The operations are applied one after the other. -/
def applyAll (apply : ω → σ → ρ × σ) : σ → List ω → List ρ × σ
  | s, [] => ([], s)
  | s, o :: os => ((apply o s).1 :: (applyAll apply (apply o s).2 os).1,
      (applyAll apply (apply o s).2 os).2)

theorem applyAll_concat (apply : ω → σ → ρ × σ) (s : σ) (os : List ω) (o : ω) :
    applyAll apply s (os ++ [o]) =
      ((applyAll apply s os).1 ++ [(apply o (applyAll apply s os).2).1],
        (apply o (applyAll apply s os).2).2) := by
  induction os generalizing s with
  | nil => rfl
  | cons o' os ih => simp only [cons_append, applyAll, ih]

section
variable [DecidableEq θ] {apply : ω → σ → ρ × σ} {init s : σ} {tr : List (Event θ ω ρ)}
  {st : θ → Status ω ρ} {h : List (ω × ρ)}

/-- **The sequential history.** -/
theorem AtomicTrace.sequential (htr : AtomicTrace apply init tr s st h) :
    applyAll apply init (h.map Prod.fst) = (h.map Prod.snd, s) := by
  induction htr with
  | start => rfl
  | call _ _ ih => exact ih
  | point _ _ ih => rw [map_append, map_singleton, applyAll_concat, ih, map_append]; rfl
  | ret _ _ ih => exact ih

/-- What every operation keeps of the state and the history. -/
theorem AtomicTrace.invariant {P : σ → List (ω × ρ) → Prop}
    (htr : AtomicTrace apply init tr s st h) (hinit : P init [])
    (hpoint : ∀ s h o, P s h → P (apply o s).2 (h ++ [(o, (apply o s).1)])) : P s h := by
  induction htr with
  | start => exact hinit
  | call _ _ ih => exact ih
  | point _ _ ih => exact hpoint _ _ _ ih
  | ret _ _ ih => exact ih

/-- The threads in `l` are those behind a point with `p`, and not yet back. -/
def Behind (p : ω × ρ → Bool) (st : θ → Status ω ρ) (l : Finset θ) : Prop :=
  ∀ t, t ∈ l ↔ ∃ o r, st t = .done o r ∧ p (o, r)

theorem Behind.update {p : ω × ρ → Bool} {l : Finset θ} (hl : Behind p st l) {t : θ}
    {status : Status ω ρ} {l' : Finset θ} (hne : ∀ t', t' ≠ t → (t' ∈ l' ↔ t' ∈ l))
    (heq : t ∈ l' ↔ ∃ o r, status = .done o r ∧ p (o, r)) : Behind p (update st t status) l' := by
  intro t'
  by_cases ht : t' = t
  · rw [ht, heq, update_self]
  · rw [hne t' ht, hl t', update_of_ne ht]

/-- Each point with `p` has its return, or its thread is on the way to it. -/
theorem AtomicTrace.exists_behind (p : ω × ρ → Bool) (htr : AtomicTrace apply init tr s st h) :
    ∃ l, Behind p st l ∧ (returns tr).countP p + l.card = h.countP p := by
  induction htr with
  | start => exact ⟨∅, by simp [Behind], rfl⟩
  | @call tr s st h t o _ hidle ih =>
    obtain ⟨l, hl, hcount⟩ := ih
    have ht : t ∉ l := by simp [hl t, hidle]
    exact ⟨l, hl.update (fun _ _ => Iff.rfl) (by simp [ht]), by simp [hcount]⟩
  | @point tr s st h t o _ hcalled ih =>
    obtain ⟨l, hl, hcount⟩ := ih
    have ht : t ∉ l := by simp [hl t, hcalled]
    by_cases hp : p (o, (apply o s).1)
    · exact ⟨insert t l, hl.update (by grind) (by simp [hp]), by simp [ht, hp]; omega⟩
    · exact ⟨l, hl.update (fun _ _ => Iff.rfl) (by simp [ht, hp]), by simp [hp, hcount]⟩
  | @ret tr s st h t o r _ hdone ih =>
    obtain ⟨l, hl, hcount⟩ := ih
    by_cases hp : p (o, r)
    · have ht : t ∈ l := (hl t).2 ⟨o, r, hdone, hp⟩
      have hcard := Finset.card_erase_add_one ht
      refine ⟨l.erase t, hl.update (by grind) (by simp), ?_⟩
      simp only [returns_ret, countP_append, countP_singleton, hp, if_true]
      omega
    · have ht : t ∉ l := by simp [hl t, hdone, hp]
      exact ⟨l, hl.update (fun _ _ => Iff.rfl) (by simp [ht]), by simp [hp, hcount]⟩

/-- **A return for each point, at most.** -/
theorem AtomicTrace.count_ret_le (p : ω × ρ → Bool) (htr : AtomicTrace apply init tr s st h) :
    (returns tr).countP p ≤ h.countP p := by
  obtain ⟨l, -, hcount⟩ := htr.exists_behind p
  omega

/-- The result of each return is one in the history. -/
theorem AtomicTrace.result_mem (htr : AtomicTrace apply init tr s st h) {x : ω × ρ}
    (hx : x ∈ returns tr) : x ∈ h := by
  classical
  have hle := htr.count_ret_le (fun y => decide (y = x))
  have hpos : 0 < (returns tr).countP fun y => decide (y = x) :=
    countP_pos_iff.2 ⟨x, hx, by simp⟩
  obtain ⟨y, hy, heq⟩ := countP_pos_iff.1 (lt_of_lt_of_le hpos hle)
  simp only [decide_eq_true_eq] at heq
  rwa [← heq]

end

end Lib
