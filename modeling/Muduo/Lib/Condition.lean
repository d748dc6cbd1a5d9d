import Mathlib.Data.List.Perm.Basic

/-!
# Muduo.Lib.Condition

A condition variable: the threads that sleep in `wait()`, and those that were notified
and have not yet got the mutex back.

* `notify pick` wakes one of the sleeping threads, whichever `pick` names; `wake` is a
  wake-up without a notification;
* `Among c inside` — each thread is in `wait()` once, and `inside` knows it;
* `Covers c n` — of `n` things that a thread can wait for, each has a notified thread
  that will look for it, unless nobody sleeps.  One notification for each new thing
  keeps this, whoever takes the things (`Covers.notify`, `Covers.resume`).
-/

namespace Lib

structure Condition (θ : Type u) where
  asleep : List θ
  notified : List θ
deriving DecidableEq, Repr

namespace Condition

variable {θ : Type u}

def empty : Condition θ := ⟨[], []⟩

/-- The thread goes to sleep. -/
def wait (c : Condition θ) (t : θ) : Condition θ := { c with asleep := c.asleep ++ [t] }

def notifyAll (c : Condition θ) : Condition θ := ⟨[], c.notified ++ c.asleep⟩

/-- The threads in `wait()`. -/
def threads (c : Condition θ) : List θ := c.asleep ++ c.notified

/-- Each thread is in `wait()` once, and `inside` holds of it. -/
structure Among (c : Condition θ) (inside : θ → Prop) : Prop where
  nodup : c.threads.Nodup
  inside : ∀ t ∈ c.threads, inside t

/-- Nobody sleeps, or `n` threads are notified. -/
def Covers (c : Condition θ) (n : Nat) : Prop := c.asleep = [] ∨ n ≤ c.notified.length

section
variable {c c' : Condition θ} {p q : θ → Prop} {t : θ} {m n : Nat}

theorem among_empty (p : θ → Prop) : (empty : Condition θ).Among p :=
  ⟨List.nodup_nil, fun _ ht => absurd ht List.not_mem_nil⟩

theorem Among.of_perm (h : c.Among p) (hperm : c'.threads.Perm c.threads) : c'.Among p :=
  ⟨hperm.nodup_iff.mpr h.nodup, fun t ht => h.inside t (hperm.mem_iff.mp ht)⟩

theorem Among.mono (h : c.Among p) (hq : ∀ u ∈ c.threads, p u → q u) : c.Among q :=
  ⟨h.nodup, fun u hu => hq u hu (h.inside u hu)⟩

theorem Among.notifyAll (h : c.Among p) : c.notifyAll.Among p :=
  h.of_perm (by simpa [Condition.notifyAll, threads] using List.perm_append_comm)

theorem Among.wait (h : c.Among p) (ht : t ∉ c.threads) (hq : ∀ u ∈ c.threads, p u → q u)
    (hqt : q t) : (c.wait t).Among q := by
  have hperm : (c.wait t).threads.Perm (t :: c.threads) := by
    simp only [Condition.wait, threads, List.append_assoc, List.singleton_append]
    exact List.perm_middle
  refine ⟨hperm.nodup_iff.mpr (List.nodup_cons.mpr ⟨ht, h.nodup⟩), fun u hu => ?_⟩
  rcases List.mem_cons.mp (hperm.mem_iff.mp hu) with rfl | hu
  · exact hqt
  · exact hq u hu (h.inside u hu)

theorem Among.not_asleep (h : c.Among p) (ht : t ∈ c.notified) : t ∉ c.asleep :=
  fun hmem => (List.nodup_append.mp h.nodup).2.2 t hmem t ht rfl

theorem Covers.mono (h : c.Covers n) (hm : m ≤ n) : c.Covers m :=
  h.imp_right fun hle => Nat.le_trans hm hle

theorem covers_zero (c : Condition θ) : c.Covers 0 := .inr (Nat.zero_le _)

theorem covers_notifyAll (c : Condition θ) (n : Nat) : c.notifyAll.Covers n := .inl rfl

end

variable [DecidableEq θ]

/-- One sleeping thread is notified: `pick` if it sleeps, else another one. -/
def notify (c : Condition θ) (pick : θ) : Condition θ :=
  match c.asleep with
  | [] => c
  | t :: ts =>
    let t' := if pick ∈ t :: ts then pick else t
    ⟨(t :: ts).erase t', c.notified ++ [t']⟩

/-- A thread wakes up without a notification. -/
def wake (c : Condition θ) (t : θ) : Condition θ := { c with asleep := c.asleep.erase t }

/-- A notified thread gets the mutex back. -/
def resume (c : Condition θ) (t : θ) : Condition θ := { c with notified := c.notified.erase t }

section
variable {c : Condition θ} {p q : θ → Prop} {t : θ} {n : Nat}

theorem notify_spec (pick : θ) (h : c.asleep ≠ []) :
    ∃ t ∈ c.asleep, c.notify pick = ⟨c.asleep.erase t, c.notified ++ [t]⟩ := by
  obtain ⟨asleep, notified⟩ := c
  cases asleep with
  | nil => exact absurd rfl h
  | cons t ts =>
    refine ⟨if pick ∈ t :: ts then pick else t, ?_, rfl⟩
    split
    · assumption
    · exact List.mem_cons_self

theorem notify_of_nil (pick : θ) (h : c.asleep = []) : c.notify pick = c := by
  simp [notify, h]

theorem threads_notify (c : Condition θ) (pick : θ) : (c.notify pick).threads.Perm c.threads := by
  by_cases hnil : c.asleep = []
  · rw [notify_of_nil pick hnil]
  · obtain ⟨t, ht, heq⟩ := notify_spec pick hnil
    have hlast : (c.asleep.erase t ++ (c.notified ++ [t])).Perm
        (t :: (c.asleep.erase t ++ c.notified)) := by
      rw [← List.append_assoc]
      exact List.perm_append_singleton ..
    rw [heq]
    exact hlast.trans ((List.perm_cons_erase ht).symm.append_right _)

/-! ## the threads in `wait()` -/

theorem Among.notify (h : c.Among p) (pick : θ) : (c.notify pick).Among p :=
  h.of_perm (threads_notify c pick)

theorem Among.of_erase {c' : Condition θ} (h : c.Among p) (heq : c'.threads = c.threads.erase t)
    (hq : ∀ u, u ≠ t → p u → q u) : c'.Among q ∧ t ∉ c'.threads := by
  have hmem : ∀ {u}, u ∈ c'.threads ↔ u ≠ t ∧ u ∈ c.threads := by
    intro u
    rw [heq, h.nodup.mem_erase_iff]
  refine ⟨⟨heq ▸ h.nodup.erase t, fun u hu => ?_⟩, fun ht => (hmem.mp ht).1 rfl⟩
  exact hq u (hmem.mp hu).1 (h.inside u (hmem.mp hu).2)

theorem Among.wake (h : c.Among p) (ht : t ∈ c.asleep) (hq : ∀ u, u ≠ t → p u → q u) :
    (c.wake t).Among q ∧ t ∉ (c.wake t).threads :=
  h.of_erase (List.erase_append_left _ ht).symm hq

theorem Among.resume (h : c.Among p) (ht : t ∈ c.notified) (hq : ∀ u, u ≠ t → p u → q u) :
    (c.resume t).Among q ∧ t ∉ (c.resume t).threads :=
  h.of_erase (List.erase_append_right _ (h.not_asleep ht)).symm hq

section
variable {κ : Type v} {pc : θ → κ} {P : κ → Prop}

theorem Among.update (h : c.Among fun u => P (pc u)) (ht : t ∉ c.threads) (x : κ) :
    c.Among fun u => P (Function.update pc t x u) := by
  refine h.mono fun u hu hpc => ?_
  have hne : u ≠ t := by
    rintro rfl
    exact ht hu
  rwa [Function.update_of_ne hne]

theorem Among.wait_update (h : c.Among fun u => P (pc u)) (ht : t ∉ c.threads) {x : κ} (hx : P x) :
    (c.wait t).Among fun u => P (Function.update pc t x u) :=
  (h.update ht x).wait ht (fun _ _ hu => hu) (by rwa [Function.update_self])

theorem Among.wake_update (h : c.Among fun u => P (pc u)) (ht : t ∈ c.asleep) (x : κ) :
    (c.wake t).Among fun u => P (Function.update pc t x u) := by
  obtain ⟨hwake, hnot⟩ := h.wake ht fun _ _ hu => hu
  exact hwake.update hnot x

end

/-! ## no lost wake-up -/

theorem Covers.notify (h : c.Covers n) (pick : θ) : (c.notify pick).Covers (n + 1) := by
  by_cases hnil : c.asleep = []
  · rw [notify_of_nil pick hnil]
    exact .inl hnil
  · obtain ⟨t, -, heq⟩ := notify_spec pick hnil
    have hle := h.resolve_left hnil
    rw [heq]
    exact .inr (by simpa using hle)

theorem Covers.resume (h : c.Covers n) (ht : t ∈ c.notified) : (c.resume t).Covers (n - 1) := by
  refine h.imp_right fun hle => ?_
  rw [Condition.resume, List.length_erase_of_mem ht]
  omega

theorem Covers.wake (h : c.Covers n) : (c.wake t).Covers n := by
  refine h.imp_left fun hnil => ?_
  simp [Condition.wake, hnil]

end

end Condition

end Lib
