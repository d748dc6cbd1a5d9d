import Muduo.Lib.Fifo
import Muduo.Lib.Outcome

/-!
# Muduo.EventLoop

`loop()` and the functor queue of `muduo::net::EventLoop`, with the loop
thread and any number of other threads.

Other threads act between any two steps of the loop thread, so `loop()` is
cut wherever they can be noticed: at the test of `quit_`, inside `poll()`,
around the event callbacks, before the lock in `doPendingFunctors` is taken,
and around each functor.  `queueInLoop` and `quit` are cut before their
`wakeup()`; `waking` and `quitting` are the threads that are there.
-/

namespace Muduo

open Lib

/-- The thread of the loop, and the others. -/
inductive LoopThread
  | loop
  | other (n : Nat)
deriving DecidableEq

def LoopThread.isInLoopThread : LoopThread → Bool
  | .loop => true
  | .other _ => false

/-- Where the loop thread is. -/
inductive LoopPc
  /-- Outside `loop()`. -/
  | stopped
  /-- At `while (!quit_)`. -/
  | checking
  /-- In `poller_->poll()`. -/
  | polling
  /-- In the loop over `activeChannels_`. -/
  | handling
  /-- In `doPendingFunctors`, before the functors are swapped out. -/
  | swapping
  /-- In `doPendingFunctors`, in the loop over `functors`. -/
  | calling
deriving DecidableEq

inductive LoopState.Fault
  /-- `assert(!looping_)` -/
  | looping
deriving DecidableEq

structure LoopState (α : Type) where
  looping : Bool
  quit : Bool
  eventHandling : Bool
  callingPendingFunctors : Bool
  pendingFunctors : List α
  /-- The local vector of `doPendingFunctors`, without the functors called. -/
  functors : List α
  /-- The counter of the eventfd `wakeupFd_`. -/
  wakeupFd : Nat
  /-- `wakeupChannel_` is in `activeChannels_` and has not been handled. -/
  wakeupActive : Bool
  pc : LoopPc
  waking : List LoopThread
  quitting : List LoopThread
  pushed : List α
  executed : List α
deriving DecidableEq

namespace LoopState

variable {α : Type}

def create : LoopState α where
  looping := false
  quit := false
  eventHandling := false
  callingPendingFunctors := false
  pendingFunctors := []
  functors := []
  wakeupFd := 0
  wakeupActive := false
  pc := .stopped
  waking := []
  quitting := []
  pushed := []
  executed := []

/-- The largest value of an eventfd. -/
def eventfdMax : Nat := 2 ^ 64 - 2

/-- `wakeup()`: adds one to the eventfd.  A full eventfd refuses the write. -/
def wakeup (s : LoopState α) : LoopState α :=
  { s with wakeupFd := if s.wakeupFd < eventfdMax then s.wakeupFd + 1 else s.wakeupFd }

/-- `handleRead()`: reads the eventfd, which sets it to zero. -/
def handleRead (s : LoopState α) : LoopState α :=
  { s with wakeupFd := 0, wakeupActive := false }

/-- `queueInLoop(cb)` on the thread `t`, up to its `wakeup()`. -/
def queueInLoop (s : LoopState α) (t : LoopThread) (cb : α) : LoopState α :=
  let s := { s with pendingFunctors := s.pendingFunctors ++ [cb], pushed := s.pushed ++ [cb] }
  if !t.isInLoopThread || s.callingPendingFunctors then { s with waking := t :: s.waking } else s

/-- `quit()` on the thread `t`, up to its `wakeup()`. -/
def requestQuit (s : LoopState α) (t : LoopThread) : LoopState α :=
  let s := { s with quit := true }
  if !t.isInLoopThread then { s with quitting := t :: s.quitting } else s

/-- `doPendingFunctors`, up to the lock. -/
def enterFunctors (s : LoopState α) : LoopState α :=
  { s with eventHandling := false, callingPendingFunctors := true, pc := .swapping }

/-- `functors.swap(pendingFunctors_)` -/
def swapFunctors (s : LoopState α) : LoopState α :=
  { s with functors := s.pendingFunctors, pendingFunctors := [], pc := .calling }

/-- `functor()` for the next one. -/
def callFunctor (s : LoopState α) : LoopState α :=
  match s.functors with
  | [] => s
  | f :: fs => { s with functors := fs, executed := s.executed ++ [f] }

/-- `doPendingFunctors`, after its loop. -/
def leaveFunctors (s : LoopState α) : LoopState α :=
  { s with callingPendingFunctors := false, pc := .checking }

inductive Label (α : Type)
  /-- The loop thread calls `loop()`. -/
  | loop
  /-- The test `!quit_`. -/
  | iterate
  /-- `poll()` returns, with or without `wakeupChannel_` among the active channels. -/
  | poll (wakeupActive : Bool)
  /-- The wake-up channel is handled. -/
  | handleRead
  /-- All active channels have been handled. -/
  | eventsDone
  | swapFunctors
  | callFunctor
  | functorsDone
  | queueInLoop (t : LoopThread) (cb : α)
  | wakeup (t : LoopThread)
  | quit (t : LoopThread)
  | quitWakeup (t : LoopThread)
deriving DecidableEq

/-- The thread is not inside `queueInLoop` or `quit`. -/
def Free (s : LoopState α) (t : LoopThread) : Prop := ¬ t ∈ s.waking ∧ ¬ t ∈ s.quitting

instance (s : LoopState α) (t : LoopThread) : Decidable (s.Free t) :=
  inferInstanceAs (Decidable (_ ∧ _))

/-- The thread can call `queueInLoop` or `quit`.  The loop thread does so from
an event callback or from a functor. -/
def CanCall (s : LoopState α) (t : LoopThread) : Prop :=
  s.Free t ∧ (t = .loop → s.pc = .handling ∨ s.pc = .calling)

instance (s : LoopState α) (t : LoopThread) : Decidable (s.CanCall t) :=
  inferInstanceAs (Decidable (_ ∧ _))

/-- One step of a thread.  A step that the thread cannot take in a state
leaves the state unchanged. -/
def step (s : LoopState α) : Label α → Except Fault (LoopState α)
  | .loop =>
    if s.pc = .stopped then do
      check .looping (s.looping = false)
      return { s with looping := true, quit := false, pc := .checking }
    else .ok s
  | .iterate =>
    if s.pc = .checking then
      if s.quit then .ok { s with looping := false, pc := .stopped }
      else .ok { s with pc := .polling }
    else .ok s
  | .poll wakeupActive =>
    -- an active channel is readable
    if s.pc = .polling ∧ (wakeupActive = true → 0 < s.wakeupFd) then
      .ok { s with eventHandling := true, wakeupActive, pc := .handling }
    else .ok s
  | .handleRead =>
    if s.pc = .handling ∧ s.wakeupActive = true ∧ s.Free .loop then .ok s.handleRead
    else .ok s
  | .eventsDone =>
    if s.pc = .handling ∧ s.wakeupActive = false ∧ s.Free .loop then .ok s.enterFunctors
    else .ok s
  | .swapFunctors => if s.pc = .swapping then .ok s.swapFunctors else .ok s
  | .callFunctor => if s.pc = .calling ∧ s.Free .loop then .ok s.callFunctor else .ok s
  | .functorsDone =>
    if s.pc = .calling ∧ s.functors = [] ∧ s.Free .loop then .ok s.leaveFunctors else .ok s
  | .queueInLoop t cb => if s.CanCall t then .ok (s.queueInLoop t cb) else .ok s
  | .wakeup t =>
    if t ∈ s.waking then .ok { s.wakeup with waking := s.waking.erase t } else .ok s
  | .quit t => if s.CanCall t then .ok (s.requestQuit t) else .ok s
  | .quitWakeup t =>
    if t ∈ s.quitting then .ok { s.wakeup with quitting := s.quitting.erase t } else .ok s

/-! ## the invariant -/

/-- The functor queue, seen as one queue: those called, and those not. -/
def fifo (s : LoopState α) : Fifo α := ⟨s.executed, s.functors ++ s.pendingFunctors⟩

/-- What a step does to the queue. -/
inductive Queues (s s' : LoopState α) : Prop
  | same (hq : s'.fifo = s.fifo) (hp : s'.pushed = s.pushed)
  | push (cb : α) (hq : s'.fifo = s.fifo.push cb) (hp : s'.pushed = s.pushed ++ [cb])
  | pop (hq : s'.fifo = s.fifo.pop) (hp : s'.pushed = s.pushed)

/-- A functor that waits is about to be noticed. -/
def Noticed (s : LoopState α) : Prop :=
  s.pendingFunctors = [] ∨ 0 < s.wakeupFd ∨ s.waking ≠ []

structure LoopInv (s : LoopState α) : Prop where
  looping : s.looping = decide (s.pc ≠ .stopped)
  flag : s.callingPendingFunctors = decide (s.pc = .swapping ∨ s.pc = .calling)
  functors : s.pc ≠ .calling → s.functors = []
  waking : .loop ∈ s.waking → s.pc = .calling
  /-- Between its return from `poll()` and the swap the loop thread will see
  what is pending; at any other time it must be woken. -/
  noticed : s.pc ≠ .handling → s.pc ≠ .swapping → s.Noticed

section
variable {s s' : LoopState α}

/-- The pushes that were recorded are those of the queue. -/
theorem Queues.history (h : s.Queues s') (hs : s.fifo.pushed = s.pushed) :
    s'.fifo.pushed = s'.pushed := by
  cases h with
  | same hq hp => rw [hq, hp, hs]
  | push cb hq hp => rw [hq, hp, Fifo.pushed_push, hs]
  | pop hq hp => rw [hq, hp, Fifo.pushed_pop, hs]

theorem wakeup_pos (s : LoopState α) : 0 < s.wakeup.wakeupFd := by
  unfold wakeup eventfdMax
  dsimp only
  split <;> omega

/-- The loop thread moves on; the queue and the wake-up are as before. -/
theorem LoopInv.move (h : s.LoopInv) {pc : LoopPc} {looping quit eventHandling active : Bool}
    (hlooping : looping = decide (pc ≠ .stopped)) (hold : s.callingPendingFunctors = false)
    (hnew : pc ≠ .swapping ∧ pc ≠ .calling)
    (hwake : (s.pc ≠ .handling ∧ s.pc ≠ .swapping) ∨ pc = .handling) :
    LoopInv { s with looping, quit, eventHandling, wakeupActive := active, pc } := by
  have hpc : ¬ (s.pc = .swapping ∨ s.pc = .calling) := by simpa [hold] using h.flag
  refine ⟨hlooping, ?_, fun _ => h.functors fun hc => hpc (.inr hc), ?_, ?_⟩
  · simpa [hnew.1, hnew.2] using hold
  · intro hmem
    exact absurd (h.waking hmem) fun hc => hpc (.inr hc)
  · intro hh _
    rcases hwake with hwake | heq
    · exact h.noticed hwake.1 hwake.2
    · exact absurd heq hh

theorem LoopInv.enterFunctors (h : s.LoopInv) (hpc : s.pc = .handling) :
    s.enterFunctors.LoopInv := by
  refine ⟨?_, rfl, fun _ => h.functors (by simp [hpc]), ?_, ?_⟩
  · have := h.looping
    simpa [hpc, LoopState.enterFunctors] using this
  · intro hmem
    have := h.waking hmem
    rw [hpc] at this
    cases this
  · intro _ hne
    exact absurd rfl hne

theorem LoopInv.swapFunctors (h : s.LoopInv) (hpc : s.pc = .swapping) : s.swapFunctors.LoopInv := by
  refine ⟨?_, ?_, fun hne => absurd rfl hne, fun _ => rfl, fun _ _ => .inl rfl⟩
  · have := h.looping
    simpa [hpc, LoopState.swapFunctors] using this
  · have := h.flag
    simpa [hpc, LoopState.swapFunctors] using this

/-- The local vector is empty before the swap, so the order is kept. -/
theorem LoopInv.queues_swap (h : s.LoopInv) (hpc : s.pc = .swapping) : s.Queues s.swapFunctors := by
  have hempty : s.functors = [] := h.functors (by simp [hpc])
  refine .same ?_ rfl
  simp [fifo, hempty, LoopState.swapFunctors]

theorem LoopInv.callFunctor (h : s.LoopInv) (hpc : s.pc = .calling) : s.callFunctor.LoopInv := by
  unfold LoopState.callFunctor
  split
  · exact h
  · exact { h with functors := fun hne => absurd hpc hne }

theorem queues_callFunctor (s : LoopState α) : s.Queues s.callFunctor := by
  unfold LoopState.callFunctor
  split
  · exact .same rfl rfl
  · rename_i f fs hfs
    refine .pop ?_ rfl
    simp [fifo, Fifo.pop, hfs]

theorem LoopInv.leaveFunctors (h : s.LoopInv) (hpc : s.pc = .calling) (hfs : s.functors = [])
    (hfree : s.Free .loop) : s.leaveFunctors.LoopInv := by
  refine ⟨?_, rfl, fun _ => hfs, fun hmem => absurd hmem hfree.1, fun _ _ => ?_⟩
  · have := h.looping
    simpa [hpc, LoopState.leaveFunctors] using this
  · exact h.noticed (by simp [hpc]) (by simp [hpc])

/-- A push.  Unless the loop thread will swap later in the same iteration,
the thread that pushes goes on to `wakeup()`. -/
theorem LoopInv.queueInLoop (h : s.LoopInv) {t : LoopThread} (hcall : s.CanCall t) (cb : α) :
    (s.queueInLoop t cb).LoopInv := by
  unfold LoopState.queueInLoop
  dsimp only
  split
  · rename_i hwake
    refine ⟨h.looping, h.flag, h.functors, ?_, fun _ _ => .inr (.inr (by simp))⟩
    intro hmem
    rcases List.mem_cons.mp hmem with hloop | hmem
    · -- the loop thread wakes itself only while it calls functors
      have hflag : s.callingPendingFunctors = true := by
        simpa [← hloop, LoopThread.isInLoopThread] using hwake
      have hpc := h.flag
      rw [hflag] at hpc
      rcases hcall.2 hloop.symm with hhandling | hcalling
      · simp [hhandling] at hpc
      · exact hcalling
    · exact h.waking hmem
  · rename_i hwake
    refine { h with noticed := fun hh _ => ?_ }
    have hloop : t = .loop := by
      cases t with
      | loop => rfl
      | other n => simp [LoopThread.isInLoopThread] at hwake
    rcases hcall.2 hloop with hhandling | hcalling
    · exact absurd hhandling hh
    · simp [h.flag, hcalling] at hwake

theorem queues_queueInLoop (s : LoopState α) (t : LoopThread) (cb : α) :
    s.Queues (s.queueInLoop t cb) := by
  unfold LoopState.queueInLoop
  dsimp only
  split
  · exact .push cb (by simp [fifo, Fifo.push]) rfl
  · exact .push cb (by simp [fifo, Fifo.push]) rfl

theorem LoopInv.wakeup (h : s.LoopInv) {waking quitting : List LoopThread}
    (hwaking : ∀ t ∈ waking, t ∈ s.waking) : LoopInv { s.wakeup with waking, quitting } :=
  ⟨h.looping, h.flag, h.functors, fun hmem => h.waking (hwaking _ hmem),
    fun _ _ => .inr (.inl s.wakeup_pos)⟩

theorem LoopInv.requestQuit (h : s.LoopInv) (t : LoopThread) : (s.requestQuit t).LoopInv := by
  unfold LoopState.requestQuit
  dsimp only
  split
  · exact { h with }
  · exact { h with }

theorem queues_requestQuit (s : LoopState α) (t : LoopThread) : s.Queues (s.requestQuit t) := by
  unfold LoopState.requestQuit
  dsimp only
  split
  · exact .same rfl rfl
  · exact .same rfl rfl

/-- **Step.** Whatever a thread does, the invariant is kept, and the queue is
left alone, gets a functor at its end or loses its first one. -/
theorem step_loop (h : s.LoopInv) (a : Label α) :
    Outcome (fun s' => s'.LoopInv ∧ s.Queues s') (fun _ => False) (s.step a) := by
  have hskip : s.LoopInv ∧ s.Queues s := ⟨h, .same rfl rfl⟩
  have hflag := h.flag
  cases a with
  | loop =>
    simp only [step]
    split
    · rename_i hpc
      have hlooping : s.looping = false := by simp [h.looping, hpc]
      have hoff : s.callingPendingFunctors = false := by simpa [hpc] using hflag
      rw [check_of hlooping]
      exact .ok ⟨h.move (by simp) hoff (by simp) (.inl (by simp [hpc])), .same rfl rfl⟩
    · exact .ok hskip
  | iterate =>
    simp only [step]
    split
    · rename_i hpc
      have hoff : s.callingPendingFunctors = false := by simpa [hpc] using hflag
      split
      · exact .ok ⟨h.move (by simp) hoff (by simp) (.inl (by simp [hpc])), .same rfl rfl⟩
      · exact .ok ⟨h.move (by simp [h.looping, hpc]) hoff (by simp) (.inl (by simp [hpc])),
          .same rfl rfl⟩
    · exact .ok hskip
  | poll wakeupActive =>
    simp only [step]
    split
    · rename_i hcond
      have hoff : s.callingPendingFunctors = false := by simpa [hcond.1] using hflag
      exact .ok ⟨h.move (by simp [h.looping, hcond.1]) hoff (by simp) (.inr rfl), .same rfl rfl⟩
    · exact .ok hskip
  | handleRead =>
    simp only [step]
    split
    · rename_i hcond
      exact .ok ⟨{ h with noticed := fun hne => absurd hcond.1 hne }, .same rfl rfl⟩
    · exact .ok hskip
  | eventsDone =>
    simp only [step]
    split
    · rename_i hcond
      exact .ok ⟨h.enterFunctors hcond.1, .same rfl rfl⟩
    · exact .ok hskip
  | swapFunctors =>
    simp only [step]
    split
    · rename_i hpc
      exact .ok ⟨h.swapFunctors hpc, h.queues_swap hpc⟩
    · exact .ok hskip
  | callFunctor =>
    simp only [step]
    split
    · rename_i hcond
      exact .ok ⟨h.callFunctor hcond.1, s.queues_callFunctor⟩
    · exact .ok hskip
  | functorsDone =>
    simp only [step]
    split
    · rename_i hcond
      exact .ok ⟨h.leaveFunctors hcond.1 hcond.2.1 hcond.2.2, .same rfl rfl⟩
    · exact .ok hskip
  | queueInLoop t cb =>
    simp only [step]
    split
    · rename_i hcall
      exact .ok ⟨h.queueInLoop hcall cb, s.queues_queueInLoop t cb⟩
    · exact .ok hskip
  | wakeup t =>
    simp only [step]
    split
    · exact .ok ⟨h.wakeup fun _ hmem => List.mem_of_mem_erase hmem, .same rfl rfl⟩
    · exact .ok hskip
  | quit t =>
    simp only [step]
    split
    · exact .ok ⟨h.requestQuit t, s.queues_requestQuit t⟩
    · exact .ok hskip
  | quitWakeup t =>
    simp only [step]
    split
    · exact .ok ⟨h.wakeup fun _ hmem => hmem, .same rfl rfl⟩
    · exact .ok hskip

theorem loopInv_create : (create : LoopState α).LoopInv :=
  ⟨rfl, rfl, fun _ => rfl, fun h => absurd h List.not_mem_nil, fun _ _ => .inl rfl⟩

end

/-- The functors that were executed are the first ones that were pushed, in
the order of the pushes; the others wait, in that order too, in the batch
being called and then in `pendingFunctors_`. -/
def InOrder (s : LoopState α) : Prop :=
  s.executed ++ s.functors ++ s.pendingFunctors = s.pushed

/-- A loop thread that waits in `poll()` while functors are pending is about
to be woken: the eventfd is readable, or another thread has pushed and has its
`wakeup()` still to do. -/
def WokenInPoll (s : LoopState α) : Prop :=
  s.pc = .polling → s.pendingFunctors ≠ [] → 0 < s.wakeupFd ∨ ∃ n, .other n ∈ s.waking

theorem LoopInv.wokenInPoll {s : LoopState α} (h : s.LoopInv) : s.WokenInPoll := by
  intro hpc hpending
  rcases h.noticed (by simp [hpc]) (by simp [hpc]) with hempty | hreadable | hwaking
  · exact absurd hempty hpending
  · exact .inl hreadable
  · obtain ⟨t, ht⟩ := List.exists_mem_of_ne_nil _ hwaking
    cases t with
    | loop =>
      have := h.waking ht
      rw [hpc] at this
      cases this
    | other n => exact .inr ⟨n, ht⟩

/-- **Functors are executed in order, and no wake-up is lost**, for any
interleaving of the loop thread with any number of other threads. -/
theorem functors_in_order_and_woken (as : List (Label α)) :
    Outcome (fun s => s.InOrder ∧ s.WokenInPoll) (fun _ => False)
      (run step (create : LoopState α) as) := by
  have hstep : ∀ (s : LoopState α) (a : Label α), s.LoopInv ∧ s.fifo.pushed = s.pushed →
      Outcome (fun s' => s'.LoopInv ∧ s'.fifo.pushed = s'.pushed) (fun _ => False) (s.step a) :=
    fun s a h => (step_loop h.1 a).mono (fun s' hs' => ⟨hs'.1, hs'.2.history h.2⟩) fun _ hf => hf
  have hrun := Outcome.run_all hstep ⟨loopInv_create, rfl⟩ as
  refine hrun.mono (fun s hs => ⟨?_, hs.1.wokenInPoll⟩) fun _ hf => hf
  rw [InOrder, List.append_assoc]
  exact hs.2

/-- A loop thread that waits in `poll()` while `quit_` is set is about to be woken: the eventfd is
readable, or another thread has the `wakeup()` of its `quit()` still to do. -/
def QuitNoticed (s : LoopState α) : Prop :=
  s.pc = .polling → s.quit = true → 0 < s.wakeupFd ∨ ∃ n, .other n ∈ s.quitting

theorem QuitNoticed.step {s : LoopState α} (h : s.QuitNoticed) (a : Label α) :
    Outcome QuitNoticed (fun _ => True) (s.step a) := by
  have hwake := s.wakeup_pos
  cases a with
  | loop =>
    simp only [LoopState.step]
    split
    · exact (outcome_check fun _ => trivial).bind fun _ _ => .ok nofun
    · exact .ok h
  | quit t =>
    simp only [LoopState.step]
    split
    · rename_i hcall
      cases t with
      | loop => exact .ok fun (hpc : s.pc = .polling) => by simpa [hpc] using hcall.2 rfl
      | other n => exact .ok fun _ _ => .inr ⟨n, List.mem_cons_self⟩
    · exact .ok h
  | _ =>
    simp only [LoopState.step]
    split_ifs <;> refine .ok ?_ <;>
      simp_all [QuitNoticed, handleRead, enterFunctors, swapFunctors, callFunctor, leaveFunctors,
        queueInLoop]
    all_goals grind [LoopState.wakeup]

/-- **`quit()` is noticed**: no interleaving leaves a loop asleep that has been told to quit. -/
theorem quit_noticed (as : List (Label α)) :
    Outcome QuitNoticed (fun _ => False) (run step (create : LoopState α) as) := by
  have hstep : ∀ (s : LoopState α) (a : Label α), s.LoopInv ∧ s.QuitNoticed →
      Outcome (fun s' => s'.LoopInv ∧ s'.QuitNoticed) (fun _ => False) (s.step a) :=
    fun s a h => ((step_loop h.1 a).and (h.2.step a)).mono (fun s' hs' => ⟨hs'.1.1, hs'.2⟩)
      fun _ hf => hf.1
  exact (Outcome.run_all hstep ⟨loopInv_create, nofun⟩ as).mono (fun s hs => hs.2) fun _ hf => hf

end LoopState

end Muduo
