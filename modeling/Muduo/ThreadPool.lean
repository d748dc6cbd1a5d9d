import Muduo.Lib.Condition
import Muduo.Lib.Outcome

/-!
# Muduo.ThreadPool

The thread pool of `base/ThreadPool.cc` after `start()`: `n` workers in
`runInThread()`, any number of threads that call `run()`, and `stop()`, in any
interleaving.  A label is one critical section, or one step outside the mutex; a label
that is not possible in a state leaves it as it is.

A task is executed between two steps of its worker, and what it does is not modelled;
when it calls `run()` itself, that call is one of the producers.
-/

namespace Muduo

open Lib Function

/-- Where a worker is: at `while (running_)`, before the mutex in `take()`, in
`notEmpty_.wait()`, executing what `take()` returned, or out of `runInThread()`. -/
inductive WorkerPc (τ : Type)
  | testing
  | taking
  | waiting
  | executing (task : Option τ)
  | exited
deriving DecidableEq, Repr

/-- Where a producer is: not in `run()`, before the mutex, or in `notFull_.wait()`. -/
inductive ProducerPc (τ : Type)
  | idle
  | calling (task : τ)
  | waiting (task : τ)
deriving DecidableEq, Repr

/-- The pool with `n` workers, producers `π` and tasks `τ`.  `accepted` and `taken` are
the history: the tasks in the order of `push_back`, and what each `take()` took. -/
structure ThreadPool (n : Nat) (π τ : Type) where
  running : Bool
  queue : List τ
  notEmpty : Condition (Fin n)
  notFull : Condition π
  worker : Fin n → WorkerPc τ
  producer : π → ProducerPc τ
  accepted : List τ
  taken : List (Fin n × τ)

namespace ThreadPool

/-- `assert(!isFull())` in `run()`. -/
inductive Fault
  | assertNotFull
deriving DecidableEq, Repr

variable {n : Nat} {π τ : Type}

section model
variable (maxQueueSize : Nat)

def isFull (s : ThreadPool n π τ) : Prop := 0 < maxQueueSize ∧ maxQueueSize ≤ s.queue.length

instance (s : ThreadPool n π τ) : Decidable (s.isFull maxQueueSize) :=
  inferInstanceAs (Decidable (_ ∧ _))

variable [DecidableEq π]

/-- `ThreadPool::run` of `p` with the mutex held, from the test of the loop on; `pick`
is the worker that `notEmpty_.notify()` wakes. -/
def runLocked (s : ThreadPool n π τ) (p : π) (task : τ) (pick : Fin n) :
    Except Fault (ThreadPool n π τ) :=
  if s.isFull maxQueueSize ∧ s.running then
    .ok { s with
      notFull := s.notFull.wait p
      producer := update s.producer p (.waiting task) }
  else if s.running = false then
    .ok { s with producer := update s.producer p .idle }
  else do
    check .assertNotFull (¬ s.isFull maxQueueSize)
    return { s with
      queue := s.queue ++ [task]
      accepted := s.accepted ++ [task]
      notEmpty := s.notEmpty.notify pick
      producer := update s.producer p .idle }

/-- `ThreadPool::take` of `w` with the mutex held, from the test of the loop on; `pick`
is the producer that `notFull_.notify()` wakes. -/
def takeLocked (s : ThreadPool n π τ) (w : Fin n) (pick : π) : ThreadPool n π τ :=
  match s.queue with
  | [] =>
    if s.running then
      { s with
        notEmpty := s.notEmpty.wait w
        worker := update s.worker w .waiting }
    else { s with worker := update s.worker w (.executing none) }
  | task :: queue =>
    { s with
      queue
      taken := s.taken ++ [(w, task)]
      notFull := if 0 < maxQueueSize then s.notFull.notify pick else s.notFull
      worker := update s.worker w (.executing (some task)) }

inductive Label (n : Nat) (π τ : Type)
  /-- A producer calls `run()`. -/
  | run (p : π) (task : τ)
  /-- It gets the mutex, for the first time or after `notFull_.wait()`. -/
  | lockRun (p : π) (pick : Fin n)
  /-- It wakes up in `notFull_.wait()` without a notification. -/
  | wakeRun (p : π)
  /-- A worker tests `running_`. -/
  | test (w : Fin n)
  /-- It gets the mutex, for the first time or after `notEmpty_.wait()`. -/
  | lockTake (w : Fin n) (pick : π)
  /-- It wakes up in `notEmpty_.wait()` without a notification. -/
  | wakeTake (w : Fin n)
  /-- Its task returns. -/
  | finish (w : Fin n)
  | stop
deriving DecidableEq, Repr

def step (s : ThreadPool n π τ) : Label n π τ → Except Fault (ThreadPool n π τ)
  | .run p task =>
    match s.producer p with
    | .idle =>
      -- without threads the task is executed here
      if n = 0 then .ok s
      else .ok { s with producer := update s.producer p (.calling task) }
    | _ => .ok s
  | .lockRun p pick =>
    match s.producer p with
    | .calling task => s.runLocked maxQueueSize p task pick
    | .waiting task =>
      if p ∈ s.notFull.notified then
        runLocked maxQueueSize { s with notFull := s.notFull.resume p } p task pick
      else .ok s
    | .idle => .ok s
  | .wakeRun p =>
    match s.producer p with
    | .waiting task =>
      if p ∈ s.notFull.asleep then
        .ok { s with
          notFull := s.notFull.wake p
          producer := update s.producer p (.calling task) }
      else .ok s
    | _ => .ok s
  | .test w =>
    match s.worker w with
    | .testing =>
      .ok { s with
        worker := update s.worker w (if s.running then .taking else .exited) }
    | _ => .ok s
  | .lockTake w pick =>
    match s.worker w with
    | .taking => .ok (s.takeLocked maxQueueSize w pick)
    | .waiting =>
      if w ∈ s.notEmpty.notified then
        .ok (takeLocked maxQueueSize { s with notEmpty := s.notEmpty.resume w } w pick)
      else .ok s
    | _ => .ok s
  | .wakeTake w =>
    match s.worker w with
    | .waiting =>
      if w ∈ s.notEmpty.asleep then
        .ok { s with
          notEmpty := s.notEmpty.wake w
          worker := update s.worker w .taking }
      else .ok s
    | _ => .ok s
  | .finish w =>
    match s.worker w with
    | .executing _ => .ok { s with worker := update s.worker w .testing }
    | _ => .ok s
  | .stop =>
    .ok { s with
      running := false
      notEmpty := s.notEmpty.notifyAll
      notFull := s.notFull.notifyAll }

end model

/-- After `start()`. -/
def start : ThreadPool n π τ where
  running := true
  queue := []
  notEmpty := .empty
  notFull := .empty
  worker := fun _ => .testing
  producer := fun _ => .idle
  accepted := []
  taken := []

/-! ## the invariant -/

/-- In `notEmpty_.wait()`. -/
def inTakeWait : WorkerPc τ → Prop
  | .waiting => True
  | _ => False

/-- In `notFull_.wait()`. -/
def inRunWait : ProducerPc τ → Prop
  | .waiting _ => True
  | _ => False

/-- What holds when a thread has the mutex.  That thread may take one task (`d = 1`) or
use one free slot (`e = 1`) for which nobody else need be notified. -/
structure Held (maxQueueSize d e : Nat) (s : ThreadPool n π τ) : Prop where
  direct : n = 0 → s.queue = []
  order : s.accepted = s.taken.map Prod.snd ++ s.queue
  bounded : 0 < maxQueueSize → s.queue.length ≤ maxQueueSize
  workers : s.notEmpty.Among fun w => inTakeWait (s.worker w)
  producers : s.notFull.Among fun p => inRunWait (s.producer p)
  tasks : s.notEmpty.Covers (s.queue.length - d)
  slots : 0 < maxQueueSize → s.notFull.Covers (maxQueueSize - s.queue.length - e)
  unbounded : maxQueueSize = 0 → s.notFull.asleep = []
  stopped : s.running = false → s.notEmpty.asleep = [] ∧ s.notFull.asleep = []

/-- What holds between two critical sections. -/
def Inv (maxQueueSize : Nat) (s : ThreadPool n π τ) : Prop := s.Held maxQueueSize 0 0

variable {maxQueueSize d e : Nat} {s : ThreadPool n π τ}

theorem inv_start : (start : ThreadPool n π τ).Inv maxQueueSize where
  direct _ := rfl
  order := rfl
  bounded _ := Nat.zero_le _
  workers := Condition.among_empty _
  producers := Condition.among_empty _
  tasks := Condition.covers_zero _
  slots _ := .inl rfl
  unbounded _ := rfl
  stopped h := by simp [start] at h

theorem Inv.held (h : s.Inv maxQueueSize) (d e : Nat) : s.Held maxQueueSize d e :=
  { h with
    tasks := h.tasks.mono (Nat.sub_le _ _)
    slots := fun hmax => (h.slots hmax).mono (Nat.sub_le _ _) }

theorem Inv.not_mem_notFull (h : s.Inv maxQueueSize) {p : π} (hp : ¬ inRunWait (s.producer p)) :
    p ∉ s.notFull.threads := fun hmem => hp (h.producers.inside p hmem)

variable {w : Fin n}

theorem Inv.not_mem_notEmpty (h : s.Inv maxQueueSize) (hw : ¬ inTakeWait (s.worker w)) :
    w ∉ s.notEmpty.threads := fun hmem => hw (h.workers.inside w hmem)

/-- A worker outside `wait()` moves to another place outside `wait()`. -/
theorem Inv.setWorker (h : s.Inv maxQueueSize) (hw : ¬ inTakeWait (s.worker w))
    (pc : WorkerPc τ) : Inv maxQueueSize { s with worker := update s.worker w pc } :=
  { h with workers := h.workers.update (h.not_mem_notEmpty hw) pc }

/-- A bounded queue in the order of arrival, and no thread asleep that should not be. -/
structure Safe (maxQueueSize : Nat) (s : ThreadPool n π τ) : Prop where
  bounded : 0 < maxQueueSize → s.queue.length ≤ maxQueueSize
  /-- The tasks taken so far and those in the queue are the tasks accepted, in order. -/
  order : s.accepted = s.taken.map Prod.snd ++ s.queue
  /-- While the queue is not empty some worker is not asleep. -/
  worker : s.queue ≠ [] → ∃ w, w ∉ s.notEmpty.asleep
  /-- While the queue is not full a sleeping producer has a notified one before it. -/
  producer : ¬ s.isFull maxQueueSize → s.notFull.asleep ≠ [] → s.notFull.notified ≠ []
  stopped : s.running = false → s.notEmpty.asleep = [] ∧ s.notFull.asleep = []

theorem Inv.safe (h : s.Inv maxQueueSize) : s.Safe maxQueueSize where
  bounded := h.bounded
  order := h.order
  stopped := h.stopped
  worker hqueue := by
    rcases h.tasks with hnil | hle
    · have hpos : 0 < n := Nat.pos_of_ne_zero fun hn => hqueue (h.direct hn)
      exact ⟨⟨0, hpos⟩, by simp [hnil]⟩
    · have hpos : 0 < s.notEmpty.notified.length := by
        have := List.length_pos_iff.mpr hqueue
        omega
      obtain ⟨w, hw⟩ := List.exists_mem_of_length_pos hpos
      exact ⟨w, h.workers.not_asleep hw⟩
  producer hfull hasleep := by
    have hmax : 0 < maxQueueSize := Nat.pos_of_ne_zero fun hzero => hasleep (h.unbounded hzero)
    have hle := (h.slots hmax).resolve_left hasleep
    have hlt : s.queue.length < maxQueueSize := by
      by_contra hge
      exact hfull ⟨hmax, by omega⟩
    intro hnil
    rw [hnil, List.length_nil] at hle
    omega

variable [DecidableEq π]

/-! ## the critical sections -/

theorem Held.runLocked {p : π} (h : s.Held maxQueueSize 0 1) (hp : p ∉ s.notFull.threads) (task : τ)
    (pick : Fin n) : ∃ s', s.runLocked maxQueueSize p task pick = .ok s' ∧ s'.Inv maxQueueSize := by
  unfold ThreadPool.runLocked
  by_cases hwait : s.isFull maxQueueSize ∧ s.running = true
  · refine ⟨_, if_pos hwait, ?_⟩
    obtain ⟨⟨hmax, hfull⟩, hrunning⟩ := hwait
    exact { h with
      producers := h.producers.wait_update hp trivial
      slots := fun _ => by
        rw [Nat.sub_eq_zero_of_le hfull]
        exact Condition.covers_zero _
      unbounded := fun hzero => by omega
      stopped := fun hstop => by simp [hrunning] at hstop }
  · rw [if_neg hwait]
    by_cases hrunning : s.running = false
    · refine ⟨_, if_pos hrunning, ?_⟩
      exact { h with
        producers := h.producers.update hp _
        slots := fun _ => .inl (h.stopped hrunning).2 }
    · have hnotFull : ¬ s.isFull maxQueueSize := by
        intro hfull
        exact hwait ⟨hfull, by simpa using hrunning⟩
      rw [if_neg hrunning, check_of hnotFull, ok_bind]
      refine ⟨_, rfl, ?_⟩
      exact { h with
        direct := fun hn => absurd pick.isLt (by omega)
        order := by
          simp [h.order]
        bounded := fun hmax => by
          have hlt : s.queue.length < maxQueueSize := by
            by_contra hge
            exact hnotFull ⟨hmax, by omega⟩
          rw [List.length_append, List.length_singleton]
          omega
        workers := h.workers.notify pick
        producers := h.producers.update hp _
        -- one more task, and one notification for it
        tasks := by
          simpa using h.tasks.notify pick
        slots := fun hmax => by
          have hcovers := h.slots hmax
          rw [Nat.sub_sub] at hcovers
          simpa using hcovers
        stopped := fun hstop => absurd hstop hrunning }

theorem takeLocked_wait {pick : π} (hqueue : s.queue = []) (hrunning : s.running = true) :
    s.takeLocked maxQueueSize w pick = { s with
      notEmpty := s.notEmpty.wait w
      worker := update s.worker w .waiting } := by
  simp [takeLocked, hqueue, hrunning]

theorem takeLocked_none {pick : π} (hqueue : s.queue = []) (hrunning : s.running = false) :
    s.takeLocked maxQueueSize w pick = { s with
      worker := update s.worker w (.executing none) } := by
  simp [takeLocked, hqueue, hrunning]

theorem Held.takeLocked (h : s.Held maxQueueSize 1 0) (hw : w ∉ s.notEmpty.threads)
    (pick : π) : (s.takeLocked maxQueueSize w pick).Inv maxQueueSize := by
  cases hqueue : s.queue with
  | nil =>
    cases hrunning : s.running with
    | true =>
      rw [takeLocked_wait hqueue hrunning]
      exact { h with
        workers := h.workers.wait_update hw trivial
        tasks := by
          rw [hqueue]
          exact Condition.covers_zero _
        stopped := fun hstop => by simp [hrunning] at hstop }
    | false =>
      rw [takeLocked_none hqueue hrunning]
      exact { h with
        workers := h.workers.update hw _
        tasks := .inl (h.stopped hrunning).1 }
  | cons task queue =>
    have htake : s.takeLocked maxQueueSize w pick = { s with
        queue
        taken := s.taken ++ [(w, task)]
        notFull := if 0 < maxQueueSize then s.notFull.notify pick else s.notFull
        worker := update s.worker w (.executing (some task)) } := by
      simp [ThreadPool.takeLocked, hqueue]
    have hlen : s.queue.length = queue.length + 1 := by
      simp [hqueue]
    have htasks := h.tasks
    rw [hlen] at htasks
    rw [htake]
    exact { h with
      direct := fun hn => absurd w.isLt (by omega)
      order := by
        simp [h.order, hqueue]
      bounded := fun hmax => by
        have hle := h.bounded hmax
        change queue.length ≤ maxQueueSize
        omega
      workers := h.workers.update hw _
      producers := by
        dsimp only
        split
        · exact h.producers.notify pick
        · exact h.producers
      tasks := htasks
      -- one more free slot, and one notification for it
      slots := fun hmax => by
        have hle := h.bounded hmax
        have hcovers := (h.slots hmax).notify pick
        dsimp only
        rw [if_pos hmax]
        exact hcovers.mono (by omega)
      unbounded := fun hzero => by
        dsimp only
        rw [if_neg (by omega)]
        exact h.unbounded hzero
      stopped := fun hstop => by
        obtain ⟨hworkers, hproducers⟩ := h.stopped hstop
        dsimp only
        rw [Condition.notify_of_nil pick hproducers, ite_self]
        exact ⟨hworkers, hproducers⟩ }

theorem Inv.lockRun (h : s.Inv maxQueueSize) (p : π) (pick : Fin n) :
    ∃ s', s.step maxQueueSize (.lockRun p pick) = .ok s' ∧ s'.Inv maxQueueSize := by
  cases hpc : s.producer p with
  | idle => exact ⟨s, by simp [step, hpc], h⟩
  | calling task =>
    simp only [step, hpc]
    exact (h.held 0 1).runLocked (h.not_mem_notFull (by simp [hpc, inRunWait])) task pick
  | waiting task =>
    by_cases hp : p ∈ s.notFull.notified
    · simp only [step, hpc, if_pos hp]
      obtain ⟨hamong, hnot⟩ := h.producers.resume hp fun _ _ hu => hu
      have hheld : Held maxQueueSize 0 1 { s with notFull := s.notFull.resume p } :=
        { h with
          producers := hamong
          slots := fun hmax => (h.slots hmax).resume hp }
      exact hheld.runLocked hnot task pick
    · exact ⟨s, by simp [step, hpc, hp], h⟩

theorem Inv.lockTake (h : s.Inv maxQueueSize) (w : Fin n) (pick : π) :
    ∃ s', s.step maxQueueSize (.lockTake w pick) = .ok s' ∧ s'.Inv maxQueueSize := by
  cases hpc : s.worker w
  case taking =>
    simp only [step, hpc]
    refine ⟨_, rfl, (h.held 1 0).takeLocked (h.not_mem_notEmpty ?_) pick⟩
    simp [hpc, inTakeWait]
  case waiting =>
    by_cases hw : w ∈ s.notEmpty.notified
    · simp only [step, hpc, if_pos hw]
      obtain ⟨hamong, hnot⟩ := h.workers.resume hw fun _ _ hu => hu
      have hheld : Held maxQueueSize 1 0 { s with notEmpty := s.notEmpty.resume w } :=
        { h with
          workers := hamong
          tasks := h.tasks.resume hw }
      exact ⟨_, rfl, hheld.takeLocked hnot pick⟩
    · exact ⟨s, by simp [step, hpc, hw], h⟩
  all_goals exact ⟨s, by simp [step, hpc], h⟩

/-- Every step keeps the invariant, and none fails.  A label that is not possible at a
thread's place does nothing. -/
theorem Inv.step (h : s.Inv maxQueueSize) (a : Label n π τ) :
    ∃ s', s.step maxQueueSize a = .ok s' ∧ s'.Inv maxQueueSize := by
  cases a with
  | lockRun p pick => exact h.lockRun p pick
  | lockTake w pick => exact h.lockTake w pick
  | run p task =>
    cases hpc : s.producer p
    case idle =>
      by_cases hn : n = 0
      · exact ⟨s, by simp [ThreadPool.step, hpc, hn], h⟩
      · refine ⟨_, by simp [ThreadPool.step, hpc, hn]; rfl, ?_⟩
        have hp := h.not_mem_notFull (p := p) (by simp [hpc, inRunWait])
        exact { h with producers := h.producers.update hp (.calling task) }
    all_goals exact ⟨s, by simp [ThreadPool.step, hpc], h⟩
  | wakeRun p =>
    cases hpc : s.producer p
    case waiting task =>
      by_cases hp : p ∈ s.notFull.asleep
      · refine ⟨_, by simp [ThreadPool.step, hpc, hp]; rfl, ?_⟩
        exact { h with
          producers := h.producers.wake_update hp (.calling task)
          slots := fun hmax => (h.slots hmax).wake
          unbounded := fun hzero => by simp [Condition.wake, h.unbounded hzero]
          stopped := fun hstop => by simp [Condition.wake, h.stopped hstop] }
      · exact ⟨s, by simp [ThreadPool.step, hpc, hp], h⟩
    all_goals exact ⟨s, by simp [ThreadPool.step, hpc], h⟩
  | wakeTake w =>
    cases hpc : s.worker w
    case waiting =>
      by_cases hw : w ∈ s.notEmpty.asleep
      · refine ⟨_, by simp [ThreadPool.step, hpc, hw]; rfl, ?_⟩
        exact { h with
          workers := h.workers.wake_update hw .taking
          tasks := h.tasks.wake
          stopped := fun hstop => by simp [Condition.wake, h.stopped hstop] }
      · exact ⟨s, by simp [ThreadPool.step, hpc, hw], h⟩
    all_goals exact ⟨s, by simp [ThreadPool.step, hpc], h⟩
  | test w =>
    cases hpc : s.worker w
    case testing =>
      exact ⟨_, by simp only [ThreadPool.step, hpc]; rfl,
        h.setWorker (by simp [hpc, inTakeWait]) _⟩
    all_goals exact ⟨s, by simp [ThreadPool.step, hpc], h⟩
  | finish w =>
    cases hpc : s.worker w
    case executing task =>
      exact ⟨_, by simp only [ThreadPool.step, hpc]; rfl,
        h.setWorker (by simp [hpc, inTakeWait]) _⟩
    all_goals exact ⟨s, by simp [ThreadPool.step, hpc], h⟩
  | stop =>
    refine ⟨_, rfl, ?_⟩
    exact { h with
      workers := h.workers.notifyAll
      producers := h.producers.notifyAll
      tasks := Condition.covers_notifyAll _ _
      slots := fun _ => Condition.covers_notifyAll _ _
      unbounded := fun _ => rfl
      stopped := fun _ => ⟨rfl, rfl⟩ }

/-- **The thread pool.** In every interleaving of `run()`, `take()` and `stop()`, with
wake-ups of any kind and notifications that wake any sleeping thread, the queue is
bounded and first-in first-out, `assert(!isFull())` holds, and no wake-up is lost. -/
theorem pool_safe (maxQueueSize : Nat) (as : List (Label n π τ)) :
    Always (step maxQueueSize) (Safe maxQueueSize) start as :=
  always_of_step (fun _ a h => h.step a) (fun _ h => h.safe) inv_start as

end ThreadPool

end Muduo
