import Mathlib.Algebra.Order.Ring.Int
import Mathlib.Data.List.Basic

/-!
# Muduo.Lib.Outcome

Pre- and postconditions for code that returns a value or fails, and for the
runs of a machine whose steps are such code.

* `Outcome P E r` — the computation `r` returned a value in `P` or failed
  with an error in `E`.

`Outcome.bind` composes specifications in program order.  The induction over a run
is done once, in `Outcome.run_sim_cost`; `Outcome.run`, `Outcome.run_sim` and
`Outcome.run_cost` are its cases for an invariant and for a simulation, with and
without a bound on a resource.
-/

namespace Lib

variable {ε : Type u} {α β σ τ : Type v}

/-! ## outcomes -/

/-- The computation returned a value that satisfies `P`, or failed with an
error that satisfies `E`. -/
inductive Outcome (P : α → Prop) (E : ε → Prop) : Except ε α → Prop
  | ok {a : α} : P a → Outcome P E (.ok a)
  | error {e : ε} : E e → Outcome P E (.error e)

variable {E : ε → Prop} {e : ε} {x : Except ε α} {p : Prop} {allowed : σ → α → Prop} {as : List α}
  {s : σ} {P : σ → Prop} {I : σ → Prop}

variable {a : α} {f : PUnit.{v + 1} → Except ε α} {R : σ → τ → Prop} {T : σ → α → σ → Prop}

@[simp] theorem outcome_ok {P : α → Prop} : Outcome P E (.ok a) ↔ P a :=
  ⟨fun h => by cases h; assumption, .ok⟩

@[simp] theorem outcome_error {P : α → Prop} : Outcome P E (.error e : Except ε α) ↔ E e :=
  ⟨fun h => by cases h; assumption, .error⟩

theorem Outcome.bind {P : α → Prop} {Q : β → Prop} {f : α → Except ε β} (hx : Outcome P E x)
    (hf : ∀ a, P a → Outcome Q E (f a)) : Outcome Q E (x >>= f) := by
  cases hx with
  | ok h => exact hf _ h
  | error h => exact .error h

theorem Outcome.mono {P Q : α → Prop} {E F : ε → Prop} (hx : Outcome P E x) (hP : ∀ a, P a → Q a)
    (hE : ∀ e, E e → F e) : Outcome Q F x := by
  cases hx with
  | ok h => exact .ok (hP _ h)
  | error h => exact .error (hE _ h)

theorem Outcome.of_ok {P : α → Prop} (hx : Outcome P E x) (h : x = .ok a) : P a := by
  subst h
  exact outcome_ok.mp hx

theorem Outcome.of_error {P : α → Prop} (hx : Outcome P E x) (h : x = .error e) : E e := by
  subst h
  exact outcome_error.mp hx

theorem Outcome.and {P Q : α → Prop} {E F : ε → Prop} (hP : Outcome P E x)
    (hQ : Outcome Q F x) : Outcome (fun a => P a ∧ Q a) (fun e => E e ∧ F e) x := by
  cases hP with
  | ok h => exact .ok ⟨h, outcome_ok.mp hQ⟩
  | error h => exact .error ⟨h, outcome_error.mp hQ⟩

theorem Outcome.exists_ok {P : α → Prop} (hx : Outcome P E x)
    (hE : ∀ e, ¬ E e) : ∃ a, x = .ok a ∧ P a := by
  cases hx with
  | ok h => exact ⟨_, rfl, h⟩
  | error h => exact absurd h (hE _)

theorem Outcome.mapError {δ : Type u} {P : α → Prop} {F : δ → Prop} {f : ε → δ} (hx : Outcome P E x)
    (hE : ∀ e, E e → F (f e)) : Outcome P F (x.mapError f) := by
  cases hx with
  | ok h => exact .ok h
  | error h => exact .error (hE _ h)

theorem ok_bind (a : α) (f : α → Except ε β) : ((.ok a : Except ε α) >>= f) = f a := rfl

/-! ## assertions -/

/-- An assertion of the code: `e` is the failure it raises. -/
def check (e : ε) (p : Prop) [Decidable p] : Except ε PUnit.{v + 1} :=
  if p then .ok ⟨⟩ else .error e

theorem check_of [Decidable p] (h : p) : (check e p : Except ε PUnit.{v + 1}) = .ok ⟨⟩ := if_pos h

theorem check_of_not [Decidable p] (h : ¬ p) :
    (check e p : Except ε PUnit.{v + 1}) = .error e := if_neg h

theorem outcome_check [Decidable p] (h : ¬ p → E e) :
    Outcome (fun _ => p) E (check e p : Except ε PUnit.{v + 1}) := by
  by_cases hp : p
  · rw [check_of hp]
    exact .ok hp
  · rw [check_of_not hp]
    exact .error (h hp)

theorem Outcome.check_bind {P : α → Prop} [Decidable p] (h : p)
    (hf : Outcome P E (f ⟨⟩)) : Outcome P E (check e p >>= f) := by
  rw [check_of h]
  exact hf

/-- Code behind an assertion returns exactly when the assertion holds and the code
returns. -/
theorem check_bind_eq_ok [Decidable p] : (check e p >>= f) = .ok a ↔ p ∧ f ⟨⟩ = .ok a := by
  by_cases hp : p
  · rw [check_of hp, and_iff_right hp]
    rfl
  · rw [check_of_not hp]
    exact iff_of_false nofun fun h => hp h.1

/-- The state after the steps of `as`, or the failure of the first step
that fails. -/
def run (step : σ → α → Except ε σ) : σ → List α → Except ε σ
  | s, [] => .ok s
  | s, a :: as => step s a >>= fun s' => run step s' as

variable {step : σ → α → Except ε σ}

theorem run_cons (s : σ) (a : α) (as : List α) :
    run step s (a :: as) = (step s a >>= fun s' => run step s' as) := rfl

theorem run_append (s : σ) (as bs : List α) :
    run step s (as ++ bs) = (run step s as >>= fun s' => run step s' bs) := by
  induction as generalizing s with
  | nil => rfl
  | cons a as ih =>
    rw [List.cons_append, run_cons, run_cons]
    cases step s a with
    | ok s' => exact ih s'
    | error e => rfl

/-- Every step of the run is taken in a state where `allowed` holds of it. -/
def Meets (step : σ → α → Except ε σ) (allowed : σ → α → Prop) : σ → List α → Prop
  | _, [] => True
  | s, a :: as => allowed s a ∧ ∀ s', step s a = .ok s' → Meets step allowed s' as

/-- A concrete run is checked by running it. -/
instance decidableMeets {allowed : σ → α → Prop} [∀ s a, Decidable (allowed s a)] :
    (s : σ) → (as : List α) → Decidable (Meets step allowed s as)
  | _, [] => .isTrue trivial
  | s, a :: as => match h : step s a with
    | .ok s' =>
      have : Decidable (Meets step allowed s' as) := decidableMeets s' as
      decidable_of_iff (allowed s a ∧ Meets step allowed s' as) (by simp [Meets, h])
    | .error _ => decidable_of_iff (allowed s a) (by simp [Meets, h])

/-- **Simulation rule with a resource.** A relation to an abstract machine that
every allowed step keeps relates the ends of the two runs.  Each step uses at most
`cost a` of a resource that the state measures by `size`; a failure that needs an
amount of it happens only in a run that could use that amount. -/
theorem Outcome.run_sim_cost {E : Nat → ε → Prop} (spec : τ → α → τ)
    (size : σ → Nat) (cost : α → Nat) (hmono : ∀ {m n e}, m ≤ n → E m e → E n e)
    (hstep : ∀ s t a, R s t → allowed s a →
      Outcome (fun s' => R s' (spec t a) ∧ size s' ≤ size s + cost a) (E (size s + cost a))
        (step s a)) {t : τ} (hs : R s t) (has : Meets step allowed s as) :
    Outcome (fun s' => R s' (as.foldl spec t)) (E (size s + (as.map cost).sum))
      (Lib.run step s as) := by
  induction as generalizing s t with
  | nil => exact .ok hs
  | cons a as ih =>
    have hone := hstep s t a hs has.1
    rw [run_cons, List.map_cons, List.sum_cons]
    cases hr : step s a with
    | ok s' =>
      obtain ⟨hR, hsize⟩ := hone.of_ok hr
      refine (ih hR (has.2 s' hr)).mono (fun _ h => h) fun e he => hmono ?_ he
      omega
    | error e =>
      refine .error (hmono ?_ (hone.of_error hr))
      omega

/-- **Run rule with a resource.** -/
theorem Outcome.run_cost {E : Nat → ε → Prop} (size : σ → Nat) (cost : α → Nat)
    (hmono : ∀ {m n e}, m ≤ n → E m e → E n e) (hstep : ∀ s a, P s → allowed s a →
      Outcome (fun s' => P s' ∧ size s' ≤ size s + cost a) (E (size s + cost a)) (step s a))
    (hs : P s) (has : Meets step allowed s as) :
    Outcome P (E (size s + (as.map cost).sum)) (Lib.run step s as) :=
  Outcome.run_sim_cost (R := fun s (_ : PUnit.{v + 1}) => P s) (E := E) (t := ⟨⟩) (fun t _ => t)
    size cost hmono (fun s _ a hP ha => hstep s a hP ha) hs has

/-- **Simulation rule.** -/
theorem Outcome.run_sim (spec : τ → α → τ)
    (hstep : ∀ s t a, R s t → allowed s a → Outcome (fun s' => R s' (spec t a)) E (step s a))
    {t : τ} (hs : R s t) (has : Meets step allowed s as) :
    Outcome (fun s' => R s' (as.foldl spec t)) E (Lib.run step s as) :=
  Outcome.run_sim_cost (E := fun _ => E) spec (fun _ => 0) (fun _ => 0) (fun _ he => he)
    (fun s t a hR ha => (hstep s t a hR ha).mono (fun _ h => ⟨h, Nat.le_refl _⟩) fun _ he => he)
    hs has

/-- **Run rule.** What every allowed step preserves holds at the end of
every run of allowed steps; the failures of a run are failures of steps. -/
theorem Outcome.run (hstep : ∀ s a, P s → allowed s a → Outcome P E (step s a)) (hs : P s)
    (has : Meets step allowed s as) : Outcome P E (Lib.run step s as) :=
  Outcome.run_sim (R := fun s (_ : PUnit.{v + 1}) => P s) (t := ⟨⟩) (fun t _ => t)
    (fun s _ a hP ha => hstep s a hP ha) hs has

/-- **Run rule for steps that do not fail.** -/
theorem exists_run (hstep : ∀ s a, P s → allowed s a → ∃ s', step s a = .ok s' ∧ P s') (hs : P s)
    (has : Meets step allowed s as) : ∃ s', Lib.run step s as = .ok s' ∧ P s' := by
  have hrun : Outcome P (fun _ => False) (Lib.run step s as) := by
    refine Outcome.run (fun t a ht ha => ?_) hs has
    obtain ⟨t', hok, ht'⟩ := hstep t a ht ha
    rw [hok]
    exact .ok ht'
  exact hrun.exists_ok fun _ he => he

/-- **Run rule for steps that do not fail**, with what has been done so far. -/
theorem exists_run_history {R : σ → List α → Prop}
    (hstep : ∀ s h a, R s h → allowed s a → ∃ s', step s a = .ok s' ∧ R s' (h ++ [a]))
    {h as : List α} (hs : R s h) (has : Meets step allowed s as) :
    ∃ s', Lib.run step s as = .ok s' ∧ R s' (h ++ as) := by
  induction as generalizing s h with
  | nil => exact ⟨s, rfl, by rwa [List.append_nil]⟩
  | cons a as ih =>
    obtain ⟨s₁, hok, hs₁⟩ := hstep s h a hs has.1
    obtain ⟨s', hrun, hs'⟩ := ih hs₁ (has.2 s₁ hok)
    refine ⟨s', ?_, by rwa [List.append_cons]⟩
    rw [run_cons, hok]
    exact hrun

theorem meets_true (s : σ) (as : List α) : Meets step (fun _ _ => True) s as := by
  induction as generalizing s with
  | nil => trivial
  | cons a as ih => exact ⟨trivial, fun s' _ => ih s'⟩

theorem Outcome.run_all (hstep : ∀ s a, P s → Outcome P E (step s a)) (hs : P s) (as : List α) :
    Outcome P E (Lib.run step s as) :=
  Outcome.run (fun s a hP _ => hstep s a hP) hs (meets_true s as)

/-- No step of the run fails, and `P` holds in every state of it, the first
and the last included. -/
def Always (step : σ → α → Except ε σ) (P : σ → Prop) : σ → List α → Prop
  | s, [] => P s
  | s, a :: as => P s ∧ ∃ s', step s a = .ok s' ∧ Always step P s' as

theorem Always.head (h : Always step P s as) : P s := by
  cases as with
  | nil => exact h
  | cons a as => exact h.1

theorem Always.exists_run (h : Always step P s as) : ∃ s', Lib.run step s as = .ok s' ∧ P s' := by
  induction as generalizing s with
  | nil => exact ⟨s, rfl, h⟩
  | cons a as ih =>
    obtain ⟨-, s', hok, hrest⟩ := h
    rw [run_cons, hok]
    exact ih hrest

/-- The step of a run that is taken is the one that the machine takes. -/
theorem always_cons {s s' : σ} (h : step s a = .ok s') :
    Always step P s (a :: as) ↔ P s ∧ Always step P s' as := by
  constructor
  · intro hall
    obtain ⟨hs, t, ht, hrest⟩ := hall
    rw [h] at ht
    cases ht
    exact ⟨hs, hrest⟩
  · intro hall
    exact ⟨hall.1, s', h, hall.2⟩

/-- No step of the run fails, and `T` holds of each step, the state before it and
the state after it. -/
def Takes (step : σ → α → Except ε σ) (T : σ → α → σ → Prop) : σ → List α → Prop
  | _, [] => True
  | s, a :: as => ∃ s', step s a = .ok s' ∧ T s a s' ∧ Takes step T s' as

/-- **Exact condition on the steps.** When the allowed steps keep an invariant and
are as `T` says, and a step that is not allowed fails or is not as `T` says, then
every step of a run is as `T` says if and only if every step of it is allowed.  Only
runs of steps that are `given` are looked at. -/
theorem takes_iff_meets_of_given {given allowed : σ → α → Prop}
    (hgood : ∀ s a, I s → given s a → allowed s a → ∃ s', step s a = .ok s' ∧ T s a s' ∧ I s')
    (hbad : ∀ s a s', I s → given s a → ¬ allowed s a → step s a = .ok s' → ¬ T s a s') (hs : I s)
    (has : Meets step given s as) : Takes step T s as ↔ Meets step allowed s as := by
  induction as generalizing s with
  | nil => exact Iff.rfl
  | cons a as ih =>
    by_cases ha : allowed s a
    · obtain ⟨s', hstep, hT, hs'⟩ := hgood s a hs has.1 ha
      simp only [Takes, Meets, ha, hstep, Except.ok.injEq, exists_eq_left', forall_eq',
        true_and, hT, ih hs' (has.2 s' hstep)]
    · refine iff_of_false (fun htakes => ?_) fun hmeets => ha hmeets.1
      obtain ⟨s', hstep, hT, -⟩ := htakes
      exact hbad s a s' hs has.1 ha hstep hT

theorem takes_iff_meets
    (hgood : ∀ s a, I s → allowed s a → ∃ s', step s a = .ok s' ∧ T s a s' ∧ I s')
    (hbad : ∀ s a s', I s → ¬ allowed s a → step s a = .ok s' → ¬ T s a s') (hs : I s)
    (as : List α) : Takes step T s as ↔ Meets step allowed s as :=
  takes_iff_meets_of_given (fun s a hs _ => hgood s a hs)
    (fun s a s' hs _ => hbad s a s' hs) hs (meets_true s as)

/-- A property of all states is one of the first state and of the steps. -/
theorem always_iff_takes : Always step P s as ↔ P s ∧ Takes step (fun _ _ s' => P s') s as := by
  induction as generalizing s with
  | nil => simp [Always, Takes]
  | cons a as ih => simp only [Always, Takes, ih]

/-- **Exact condition.** When the allowed steps keep an invariant that implies
`P`, and a step that is not allowed fails or leaves `P`, then `P` holds all
along a run if and only if every step of it is allowed. -/
theorem always_iff_meets {I P : σ → Prop}
    (hgood : ∀ s a, I s → allowed s a → ∃ s', step s a = .ok s' ∧ I s') (hP : ∀ s, I s → P s)
    (hbad : ∀ s a s', I s → ¬ allowed s a → step s a = .ok s' → ¬ P s') (hs : I s)
    (as : List α) : Always step P s as ↔ Meets step allowed s as := by
  rw [always_iff_takes, and_iff_right (hP s hs)]
  refine takes_iff_meets (fun s a hs ha => ?_) hbad hs as
  obtain ⟨s', hstep, hs'⟩ := hgood s a hs ha
  exact ⟨s', hstep, hP s' hs', hs'⟩

/-- When the allowed steps keep an invariant, what it implies of an allowed step holds of
every step of a run of allowed steps. -/
theorem Meets.of_invariant {allowed T : σ → α → Prop}
    (hstep : ∀ s a s', I s → allowed s a → step s a = .ok s' → I s')
    (hT : ∀ s a, I s → allowed s a → T s a) (hs : I s)
    (has : Meets step allowed s as) : Meets step T s as := by
  induction as generalizing s with
  | nil => trivial
  | cons a as ih =>
    exact ⟨hT s a hs has.1, fun s' hs' => ih (hstep s a s' hs has.1 hs') (has.2 s' hs')⟩

/-- When the allowed steps keep an invariant that implies `P`, then `P` holds all along
a run of allowed steps. -/
theorem always_of_meets {I P : σ → Prop}
    (hgood : ∀ s a, I s → allowed s a → ∃ s', step s a = .ok s' ∧ I s') (hP : ∀ s, I s → P s)
    (hs : I s) (has : Meets step allowed s as) : Always step P s as := by
  induction as generalizing s with
  | nil => exact hP s hs
  | cons a as ih =>
    obtain ⟨s', hstep, hs'⟩ := hgood s a hs has.1
    exact ⟨hP s hs, s', hstep, ih hs' (has.2 s' hstep)⟩

theorem always_of_step {I P : σ → Prop} (hstep : ∀ s a, I s → ∃ s', step s a = .ok s' ∧ I s')
    (hP : ∀ s, I s → P s) (hs : I s) (as : List α) : Always step P s as :=
  always_of_meets (fun s a hs _ => hstep s a hs) hP hs (meets_true s as)

/-- **Decided runs.** When the allowed steps keep `I`, a step that is not allowed
leads to `L`, and no step leaves `L`, then the end of a run tells whether every
step of it was allowed. -/
theorem run_decides {I L : σ → Prop} {given allowed : σ → α → Prop}
    (hgood : ∀ s a, I s → given s a → allowed s a → ∃ s', step s a = .ok s' ∧ I s')
    (hbad : ∀ s a, I s → given s a → ¬ allowed s a → ∃ s', step s a = .ok s' ∧ L s')
    (hlost : ∀ s a, L s → given s a → ∃ s', step s a = .ok s' ∧ L s') (hs : I s)
    (has : Meets step given s as) :
    ∃ s', Lib.run step s as = .ok s' ∧
      (Meets step allowed s as ∧ I s' ∨ ¬ Meets step allowed s as ∧ L s') := by
  induction as generalizing s with
  | nil => exact ⟨s, rfl, .inl ⟨trivial, hs⟩⟩
  | cons a as ih =>
    rw [run_cons]
    by_cases ha : allowed s a
    · obtain ⟨s', hstep, hs'⟩ := hgood s a hs has.1 ha
      have hrest : Meets step allowed s (a :: as) ↔ Meets step allowed s' as := by
        simp [Meets, ha, hstep]
      rw [hrest, hstep]
      exact ih hs' (has.2 s' hstep)
    · obtain ⟨s', hstep, hs'⟩ := hbad s a hs has.1 ha
      obtain ⟨t, hok, ht⟩ := exists_run hlost hs' (has.2 s' hstep)
      rw [hstep]
      exact ⟨t, hok, .inr ⟨fun hmeets => ha hmeets.1, ht⟩⟩

/-- **Decided runs that may fail.** -/
theorem Outcome.run_decides {I L : σ → Prop} {E F : ε → Prop} {given allowed : σ → α → Prop}
    (hgood : ∀ s a, I s → given s a → allowed s a → Outcome I E (step s a))
    (hbad : ∀ s a, I s → given s a → ¬ allowed s a → Outcome L F (step s a))
    (hlost : ∀ s a, L s → given s a → Outcome L F (step s a)) (hEF : ∀ e, E e → F e) (hs : I s)
    (has : Meets step given s as) :
    (Meets step allowed s as → Outcome I E (Lib.run step s as)) ∧
      (¬ Meets step allowed s as → Outcome L F (Lib.run step s as)) := by
  induction as generalizing s with
  | nil => exact ⟨fun _ => .ok hs, fun h => absurd trivial h⟩
  | cons a as ih =>
    rw [run_cons]
    by_cases ha : allowed s a
    · have hone := hgood s a hs has.1 ha
      cases hr : step s a with
      | ok s' =>
        have hrest : Meets step allowed s (a :: as) ↔ Meets step allowed s' as := by
          simp [Meets, ha, hr]
        rw [hrest]
        exact ih (hone.of_ok hr) (has.2 s' hr)
      | error e => exact ⟨fun _ => .error (hone.of_error hr), fun _ => .error (hEF e (hone.of_error hr))⟩
    · refine ⟨fun h => absurd h.1 ha, fun _ => ?_⟩
      have hone := hbad s a hs has.1 ha
      cases hr : step s a with
      | ok s' => exact Outcome.run hlost (hone.of_ok hr) (has.2 s' hr)
      | error e => exact .error (hone.of_error hr)

/-- **Lost runs.** When a step that is not allowed leads to `L`, and no step leaves
`L`, then a run with such a step ends in `L` or fails. -/
theorem Outcome.run_not_meets {I L : σ → Prop}
    (hgood : ∀ s a, I s → allowed s a → Outcome I E (step s a))
    (hbad : ∀ s a, I s → ¬ allowed s a → Outcome L E (step s a))
    (hlost : ∀ s a, L s → Outcome L E (step s a)) (hs : I s)
    (has : ¬ Meets step allowed s as) : Outcome L E (Lib.run step s as) :=
  (Outcome.run_decides (fun s a hs _ ha => hgood s a hs ha) (fun s a hs _ ha => hbad s a hs ha)
    (fun s a hs _ => hlost s a hs) (fun _ he => he) hs (meets_true s as)).2 has

/-- A condition on the steps alone is a condition on the run. -/
theorem meets_of_forall {p : α → Prop} (s : σ) (h : ∀ a ∈ as, p a) :
    Meets step (fun _ a => p a) s as := by
  induction as generalizing s with
  | nil => trivial
  | cons a as ih =>
    exact ⟨h a List.mem_cons_self, fun s' _ => ih s' fun b hb => h b (List.mem_cons_of_mem a hb)⟩

end Lib
