import Muduo.TimerQueue.Invariant

/-!
# Muduo.TimerQueue.Wakeup

When the loop is woken for its timers, and what it runs then.

The timerfd is set when a timer becomes the first of the queue and after a
batch; it is not set when a timer is cancelled, and not after a batch whose
queue begins with a time that is not `valid()`.
-/

namespace Muduo

open Lib List

/-- The timerfd has expired, or will have by the time `limit`. -/
def Timerfd.WakesBy (fd : Timerfd) (limit : Int) : Prop :=
  fd.readable = true ∨ ∃ d, fd.deadline = some d ∧ d ≤ limit

theorem Timerfd.WakesBy.mono {fd : Timerfd} {l l' : Int} (h : fd.WakesBy l) (hle : l ≤ l') :
    fd.WakesBy l' := by
  rcases h with h | ⟨d, hd, hdl⟩
  · exact .inl h
  · exact .inr ⟨d, hd, le_trans hdl hle⟩

theorem Timerfd.WakesBy.elapse {fd : Timerfd} {l : Int} (h : fd.WakesBy l) (t : Int) :
    (fd.elapse t).WakesBy l := by
  rcases h with h | ⟨d, hd, hdl⟩
  · left
    unfold Timerfd.elapse
    split
    · split
      · rfl
      · exact h
    · exact h
  · simp only [Timerfd.elapse, hd]
    split
    · exact .inl rfl
    · exact .inr ⟨d, hd, hdl⟩

theorem Timerfd.elapse_lastSet (fd : Timerfd) (t : Int) : (fd.elapse t).lastSet = fd.lastSet := by
  unfold Timerfd.elapse
  split
  · split <;> rfl
  · rfl

/-- The `timespec` of a positive number of microseconds arms the timerfd. -/
theorem Timerfd.settime_microseconds (fd : Timerfd) (clock : Int) {us : Int} (h : 0 < us) :
    fd.settime clock ⟨us / kMicroSecondsPerSecond, us % kMicroSecondsPerSecond * 1000⟩ =
      ⟨some (clock + us), false, clock⟩ := by
  have hk : kMicroSecondsPerSecond = 1000000 := rfl
  rw [Timerfd.settime, hk, if_pos (by dsimp only; omega), if_neg (by dsimp only; omega)]
  congr 2
  dsimp only
  omega

namespace TimerQueue

variable {a : Label}

section
variable {q q' : TimerQueue}

/-- `resetTimerfd` asks for a valid time that is not zero, so the timerfd is
armed: for the expiration, or 100 microseconds from now if that is later. -/
theorem resetTimerfd_timerfd (q : TimerQueue) (when : Int) :
    (q.resetTimerfd when).timerfd = ⟨some (max when (q.clock + 100)), false, q.clock⟩ := by
  have hmax : max when (q.clock + 100) =
      q.clock + (if when - q.clock < 100 then 100 else when - q.clock) := by
    split <;> omega
  have hpos : 0 < (if when - q.clock < 100 then 100 else when - q.clock) := by
    split <;> omega
  rw [hmax]
  exact q.timerfd.settime_microseconds q.clock hpos

/-! ## the timerfd is set in time -/

/-- For each timer of the queue the timerfd wakes the loop when it is due, or
100 microseconds after it was last set.  While the callbacks of a batch run
this is so for the timers that `reset` will not see as `valid()`. -/
structure Woken (q : TimerQueue) : Prop where
  queue : q.QueueInv
  clock : Timestamp.valid q.clock
  batch : ∀ b ∈ q.batch, Timestamp.valid b.now
  timerfd : ∀ e ∈ q.timers, q.batch = none ∨ e.when ≤ 0 →
    q.timerfd.WakesBy (max e.when (q.timerfd.lastSet + 100))

/-- The clock does not go back. -/
def Forward (q : TimerQueue) : Label → Prop
  | .clock t => q.clock ≤ t
  | _ => True

instance (q : TimerQueue) : (a : Label) → Decidable (q.Forward a)
  | .clock t => inferInstanceAs (Decidable (q.clock ≤ t))
  | .addTimer .. | .otherTimer | .addTimerInLoop _ | .cancelInLoop _ | .handleRead | .runCallback
  | .finishRead => .isTrue trivial

variable {e : Entry} {when : Int}

/-- Once it is set for the first timer, it is set for all. -/
theorem wakesBy_resetTimerfd (q : TimerQueue) (hle : when ≤ e.when) :
    (q.resetTimerfd when).timerfd.WakesBy
      (max e.when ((q.resetTimerfd when).timerfd.lastSet + 100)) := by
  rw [resetTimerfd_timerfd]
  exact .inr ⟨_, rfl, max_le_max hle (le_refl _)⟩

/-- A step that adds no timer and does not set the timerfd. -/
theorem Woken.of_frame (h : q.Woken) (hqueue : q'.QueueInv) (hclock : q'.clock = q.clock)
    (hbatch : q'.batch = q.batch) (hfd : q'.timerfd = q.timerfd)
    (htimers : ∀ e, e ∈ q'.timers → e ∈ q.timers) : q'.Woken := by
  refine ⟨hqueue, hclock ▸ h.clock, hbatch ▸ h.batch, fun e he hcond => ?_⟩
  rw [hfd]
  exact h.timerfd e (htimers e he) (hbatch ▸ hcond)

/-- A timer that comes first is due no later than the others. -/
theorem le_when_of_earliestChanged (h : q.earliestChanged when = true)
    (he : e ∈ q.timers) : when ≤ e.when := by
  cases hfirst : q.timers.begin with
  | none => exact absurd he (SortedSet.begin_eq_none.mp hfirst e)
  | some e₀ =>
    have hlt : when < e₀.when := by simpa [earliestChanged, hfirst] using h
    have hfirst_le := Entry.when_le_of_le (SortedSet.begin_le hfirst he)
    omega

/-- Before a timer that does not come first there is another one. -/
theorem exists_when_le (h : ¬ q.earliestChanged when = true) : ∃ e ∈ q.timers, e.when ≤ when := by
  cases hfirst : q.timers.begin with
  | none => simp [earliestChanged, hfirst] at h
  | some e₀ =>
    exact ⟨e₀, SortedSet.mem_of_begin hfirst, by simpa [earliestChanged, hfirst] using h⟩

/-- `addTimerInLoop` sets the timerfd when the first timer has changed; else
the old first timer is due no later than the new one. -/
theorem Woken.add (h : q.Woken) {id : TimerId} {t : Timer}
    (hstep : QueueInv (if q.earliestChanged t.expiration then
      ((q.collect id).link id.timer t).resetTimerfd t.expiration
      else (q.collect id).link id.timer t)) :
    Woken (if q.earliestChanged t.expiration then
      ((q.collect id).link id.timer t).resetTimerfd t.expiration
      else (q.collect id).link id.timer t) := by
  by_cases hchanged : q.earliestChanged t.expiration = true
  · rw [if_pos hchanged] at hstep ⊢
    refine ⟨hstep, h.clock, h.batch, fun e he _ => wakesBy_resetTimerfd _ ?_⟩
    rcases SortedSet.mem_insert.mp he with heq | hold
    · exact le_of_eq (congrArg Entry.when heq).symm
    · exact le_when_of_earliestChanged hchanged hold
  · rw [if_neg hchanged] at hstep ⊢
    refine ⟨hstep, h.clock, h.batch, fun e he hcond => ?_⟩
    rcases SortedSet.mem_insert.mp he with heq | hold
    · obtain ⟨e₀, hmem, hle⟩ := exists_when_le hchanged
      have hwhen : e.when = t.expiration := congrArg Entry.when heq
      have hwake := h.timerfd e₀ hmem (hcond.imp (fun hb => hb) fun hle => by omega)
      exact hwake.mono (max_le_max (by omega) (le_refl _))
    · exact h.timerfd e hold hcond

/-- A timer that `reset` has put back has a valid expiration; the others were
in the queue before. -/
theorem Rearmed.mem_timers {now : Int} {es : List Entry} (h : q.Rearmed now es q')
    (hlinked : q.Linked) (he : e ∈ q'.timers) : e ∈ q.timers ∨ now ≤ e.when := by
  obtain ⟨t, ht, hw, hact⟩ := h.inv.linked.entry e he
  rcases (h.active _).mp hact with hold | ⟨e', he', hreturns, heq⟩
  · left
    have hkept := h.heap _ hold
    obtain ⟨t', ht', -, hent⟩ := hlinked.active _ hold
    obtain rfl : t = t' := Option.some.inj (ht.symm.trans (hkept.trans ht'))
    rw [hw] at hent
    exact hent
  · right
    obtain ⟨t', ht', hrepeats, -⟩ := id hreturns
    have haddr : e'.timer = e.timer := congrArg ActiveTimer.timer heq
    have hback := h.back e' he' t' ht' hreturns
    rw [haddr, ht] at hback
    rw [← hw, Option.some.inj hback, Timer.restart, if_pos hrepeats]
    show now ≤ now + (t'.interval : Int)
    omega

/-- After a batch the timerfd is set for the first timer, or that timer was
added by a callback with an invalid expiration, and then it was set for it. -/
theorem Woken.finish (h : q.Woken) {b : Batch} (hb : q.batch = some b)
    (hrearmed : q.ended.Rearmed b.now b.expired q') : q'.setForFirst.Woken := by
  have hclock : q'.clock = q.clock := (congrArg TimerQueue.clock hrearmed.frame :)
  have hfd : q'.timerfd = q.timerfd := (congrArg TimerQueue.timerfd hrearmed.frame :)
  have hidle : q'.setForFirst.batch = none :=
    (q'.setForFirst_proj TimerQueue.batch fun _ => rfl).trans
      (congrArg TimerQueue.batch hrearmed.frame :)
  refine ⟨hrearmed.queueInv, ?_, by simp [hidle], fun e he _ => ?_⟩
  · rw [q'.setForFirst_proj TimerQueue.clock fun _ => rfl, hclock]
    exact h.clock
  · rw [q'.setForFirst_proj TimerQueue.timers fun _ => rfl] at he
    unfold setForFirst
    cases hfirst : q'.timers.begin with
    | none => exact absurd he (SortedSet.begin_eq_none.mp hfirst e)
    | some e₀ =>
      have hle : e₀.when ≤ e.when := Entry.when_le_of_le (SortedSet.begin_le hfirst he)
      dsimp only
      split
      · exact wakesBy_resetTimerfd q' hle
      · rename_i hinvalid
        have hnow := h.batch b hb
        have hold : e₀ ∈ q.timers := by
          rcases hrearmed.mem_timers (h.queue.inv.linked.congr rfl rfl fun _ _ => rfl)
            (SortedSet.mem_of_begin hfirst) with hold | hge
          · exact hold
          · omega
        rw [hfd]
        exact (h.timerfd e₀ hold (.inr (by omega))).mono (max_le_max hle (le_refl _))

/-- **Step.** The timerfd stays set in time. -/
theorem Stepped.woken (hstep : q.Stepped a q') (h : q.Woken) (hforward : q.Forward a) :
    q'.Woken := by
  have hqueue := hstep.queueInv h.queue
  cases hstep with
  | skip => exact h
  | newTimer | otherTimer => exact h.of_frame hqueue rfl rfl rfl fun _ he => he
  | add => exact h.add hqueue
  | cancelActive =>
    exact h.of_frame hqueue rfl rfl rfl fun _ he => (SortedSet.mem_erase.mp he).2
  | cancelOther =>
    split at hqueue
    · rename_i hcalling
      rw [if_pos hcalling]
      exact h.of_frame hqueue rfl rfl rfl fun _ he => he
    · rename_i hcalling
      rw [if_neg hcalling]
      exact h.of_frame hqueue rfl rfl rfl fun _ he => he
  | clock t =>
    refine ⟨hqueue, lt_of_lt_of_le h.clock hforward, h.batch, fun e he hcond => ?_⟩
    show (q.timerfd.elapse t).WakesBy (max e.when ((q.timerfd.elapse t).lastSet + 100))
    rw [Timerfd.elapse_lastSet]
    exact (h.timerfd e he hcond).elapse t
  | @begun A hidle hperm =>
    refine ⟨hqueue, h.clock, ?_, fun e he hcond => ?_⟩
    · intro b hb
      cases hb
      exact h.clock
    · -- what is left in the queue is later than a positive clock
      have hlate : q.clock < e.when := 
        ((mem_expire (A := A) h.queue.inv.linked h.queue.inv.bound).mp he).2
      have hclock := h.clock
      rcases hcond with hb | hle
      · cases hb
      · omega
  | @run b e es hb hes =>
    refine ⟨hqueue, h.clock, ?_, fun e' he' hcond => ?_⟩
    · intro b' hb'
      cases hb'
      exact h.batch b hb
    · rcases hcond with hb' | hle
      · cases hb'
      · exact h.timerfd e' he' (.inr hle)
  | finish hb hes hrearmed => exact h.finish hb hrearmed

/-! ## one call of handleRead -/

/-- The timers whose callbacks were started, in order. -/
def startedIds (log : List Event) : List TimerId :=
  log.filterMap fun
    | .started id => some id
    | .cancelled _ => none

theorem startedIds_started (log : List Event) (id : TimerId) :
    startedIds (log ++ [.started id]) = startedIds log ++ [id] := by
  simp [startedIds]

theorem startedIds_cancelled (log : List Event) (id : TimerId) :
    startedIds (log ++ [.cancelled id]) = startedIds log := by
  simp [startedIds]

/-- What a call of `handleRead` in the state `q` has done when it returns;
`body` are the steps taken while its loop ran. -/
structure Fired (q : TimerQueue) (body : List Label) (q' : TimerQueue) : Prop where
  idle : q'.batch = none
  /-- The callbacks of the timers that were due were started, each once, in
  the order of the queue. -/
  started : startedIds q'.log = startedIds q.log ++ (q.due q.clock).map q.idOf
  /-- A repeating timer that was not cancelled meanwhile is in the queue
  again. -/
  back : ∀ e ∈ q.due q.clock, ∀ t, q.heap e.timer = some t → t.repeats = true →
    ¬ .cancelInLoop (q.idOf e) ∈ body →
    (⟨q.clock + t.interval, e.timer⟩ : Entry) ∈ q'.timers ∧
      q'.heap e.timer = some { t with expiration := q.clock + t.interval }

/-- The loop of the `handleRead` that was called in the state `q₀`, with at
most `n` callbacks to start and the steps of `body` taken or to be taken. -/
structure InBatch (q₀ : TimerQueue) (body : List Label) (n : Nat) (q : TimerQueue) : Prop where
  queue : q.QueueInv
  batch : ∃ b, q.batch = some b ∧ b.now = q₀.clock ∧ b.expired = q₀.due q₀.clock ∧
    b.remaining.length ≤ n ∧ startedIds q.log ++ b.remaining.map q₀.idOf =
      startedIds q₀.log ++ (q₀.due q₀.clock).map q₀.idOf
  heap : ∀ e ∈ q₀.due q₀.clock, q.heap e.timer = q₀.heap e.timer
  canceling : ∀ id ∈ q.cancelingTimers, .cancelInLoop id ∈ body

section
variable {q₀ : TimerQueue} {body : List Label} {n m : Nat}

theorem InBatch.hand_eq (h : InBatch q₀ body n q) : q.hand = q₀.due q₀.clock := by
  obtain ⟨b, hb, -, hexpired, -⟩ := h.batch
  rw [hand_of_batch hb, hexpired]

theorem InBatch.of_frame (h : InBatch q₀ body n q) (hqueue : q'.QueueInv)
    (hbatch : q'.batch = q.batch) (hlog : startedIds q'.log = startedIds q.log)
    (hheap : ∀ e ∈ q.hand, q'.heap e.timer = q.heap e.timer)
    (hcanceling : ∀ id ∈ q'.cancelingTimers, id ∈ q.cancelingTimers ∨ .cancelInLoop id ∈ body) :
    InBatch q₀ body n q' := by
  refine ⟨hqueue, ?_, ?_, ?_⟩
  · rw [hbatch, hlog]
    exact h.batch
  · intro e he
    rw [hheap e (h.hand_eq ▸ he), h.heap e he]
  · intro id hid
    rcases hcanceling id hid with hold | hnew
    · exact h.canceling id hold
    · exact hnew

/-- **Step.** The loop of `handleRead` goes on: a callback may add and cancel
timers, and `runCallback` starts the next one. -/
theorem InBatch.step (h : InBatch q₀ body n q) (hstep : q.Stepped a q')
    (ha : a ∈ body) (hread : a ≠ .handleRead) (hfinish : a ≠ .finishRead)
    (hn : n ≤ m + if a = .runCallback then 1 else 0) : InBatch q₀ body m q' := by
  have hqueue := hstep.queueInv h.queue
  obtain ⟨b, hb, hnow, hexpired, hlen, hlog⟩ := h.batch
  have hmore : a ≠ .runCallback → InBatch q₀ body m q := fun hne => by
    rw [if_neg hne] at hn
    exact ⟨h.queue, ⟨b, hb, hnow, hexpired, Nat.le_trans hlen hn, hlog⟩, h.heap, h.canceling⟩
  cases hstep with
  | skip hne hrun =>
    by_cases hcallback : a = .runCallback
    · have hdone : b.remaining = [] := hrun hcallback b hb
      exact ⟨h.queue, ⟨b, hb, hnow, hexpired, by simp [hdone], hlog⟩, h.heap, h.canceling⟩
    · exact hmore hcallback
  | newTimer when interval repeats hfree _ =>
    exact (hmore (by simp)).of_frame hqueue rfl rfl
      (fun e he => newTimer_heap (h.queue.inv.held e he) hfree _ _ _) fun _ hid => .inl hid
  | otherTimer =>
    exact (hmore (by simp)).of_frame hqueue rfl rfl (fun _ _ => rfl) fun _ hid => .inl hid
  | add =>
    refine (hmore (by simp)).of_frame hqueue ?_ ?_ (fun e he => ?_) (fun id hid => .inl ?_)
    · split <;> rfl
    · split <;> rfl
    · split <;> rfl
    · split at hid
      · exact hid
      · exact hid
  | @cancelActive id t hid hlinked =>
    have hinv : Inv q.hand (q.record (.cancelled id)) := h.queue.inv.congr rfl
    exact (hmore (by simp)).of_frame hqueue rfl (startedIds_cancelled _ _)
      (fun e he => hinv.unlink_heap hid t he) fun _ hid => .inl hid
  | @cancelOther id hid =>
    refine (hmore (by simp)).of_frame hqueue ?_ ?_ (fun e he => ?_) (fun id' hid' => ?_)
    · split <;> rfl
    · split <;> exact startedIds_cancelled _ _
    · split <;> rfl
    · split at hid'
      · rcases SortedSet.mem_insert.mp hid' with heq | hold
        · exact .inr (heq ▸ ha)
        · exact .inl hold
      · exact .inl hid'
  | clock t =>
    exact (hmore (by simp)).of_frame hqueue rfl rfl (fun _ _ => rfl) fun _ hid => .inl hid
  | begun => exact absurd rfl hread
  | finish => exact absurd rfl hfinish
  | @run b' e es hb' hes =>
    obtain rfl : b = b' := Option.some.inj (hb.symm.trans hb')
    have hmem : e ∈ q₀.due q₀.clock := by
      rw [← hexpired]
      exact (h.queue.remaining b hb).subset (hes ▸ mem_cons_self)
    refine ⟨hqueue, ⟨_, rfl, hnow, hexpired, ?_, ?_⟩, h.heap, h.canceling⟩
    · rw [hes, length_cons] at hlen
      simp only [if_true] at hn
      show es.length ≤ m
      omega
    · show startedIds (q.log ++ [.started (q.idOf e)]) ++ es.map q₀.idOf = _
      rw [startedIds_started, idOf_congr (h.heap e hmem), ← hlog, hes, append_assoc]
      rfl

/-- **Run.** The loop of `handleRead` starts all the callbacks of the batch. -/
theorem InBatch.run (as : List Label) (h : InBatch q₀ body (as.count .runCallback) q)
    (has : ∀ a ∈ as, a ∈ body ∧ a ≠ .handleRead ∧ a ≠ .finishRead) :
    ∃ q', Lib.run TimerQueue.step q as = .ok q' ∧ InBatch q₀ body 0 q' := by
  induction as generalizing q with
  | nil => exact ⟨q, rfl, h⟩
  | cons a as ih =>
    obtain ⟨ha, hread, hfinish⟩ := has a mem_cons_self
    obtain ⟨q₁, hstep, hstepped⟩ := step_spec h.queue a
    have hn : (a :: as).count .runCallback ≤
        as.count .runCallback + if a = .runCallback then 1 else 0 := by
      rw [count_cons]
      simp only [beq_iff_eq]
      exact Nat.le_refl _
    obtain ⟨q', hrun, hdone⟩ := ih (h.step hstepped ha hread hfinish hn) fun b hb =>
      has b (mem_cons_of_mem a hb)
    refine ⟨q', ?_, hdone⟩
    rw [run_cons, hstep]
    exact hrun

theorem InBatch.finish (h : InBatch q₀ body 0 q) {b : Batch} (hb : q.batch = some b)
    (hrearmed : q.ended.Rearmed b.now b.expired q') : Fired q₀ body q'.setForFirst := by
  obtain ⟨b', hb', hnow, hexpired, hlen, hlog⟩ := h.batch
  obtain rfl : b = b' := Option.some.inj (hb.symm.trans hb')
  have hdone : b.remaining = [] := eq_nil_of_length_eq_zero (Nat.le_zero.mp hlen)
  have hlog' : q'.log = q.log := (congrArg TimerQueue.log hrearmed.frame :)
  constructor
  · exact (q'.setForFirst_proj TimerQueue.batch fun _ => rfl).trans
      (congrArg TimerQueue.batch hrearmed.frame :)
  · rw [q'.setForFirst_proj TimerQueue.log fun _ => rfl, hlog', ← hlog, hdone]
    simp
  · intro e he t ht hrepeats hbody
    have hheap : q.heap e.timer = some t := (h.heap e he).trans ht
    have hid : q.ended.idOf e = q₀.idOf e := idOf_congr (h.heap e he)
    have hreturns : q.ended.Returns e := ⟨t, hheap, hrepeats, fun hmem =>
      hbody (h.canceling _ (hid ▸ hmem))⟩
    have hback := hrearmed.back e (hexpired ▸ he) t hheap hreturns
    have hactive : q.ended.idOf e ∈ q'.activeTimers :=
      (hrearmed.active _).mpr (.inr ⟨e, hexpired ▸ he, hreturns, rfl⟩)
    obtain ⟨t', ht', -, hent⟩ := hrearmed.inv.linked.active _ hactive
    obtain rfl : t.restart b.now = t' := Option.some.inj (hback.symm.trans ht')
    rw [Timer.restart, if_pos hrepeats, hnow] at hback hent
    rw [q'.setForFirst_proj TimerQueue.timers fun _ => rfl,
      q'.setForFirst_proj TimerQueue.heap fun _ => rfl]
    exact ⟨hent, hback⟩

end

/-- A call of `handleRead` whose loop has come to the end of the batch. -/
theorem handleRead_fires (h : q.QueueInv) (hidle : q.batch = none) {body : List Label}
    (hbody : ∀ a ∈ body, a ≠ .handleRead ∧ a ≠ .finishRead)
    (hcount : (q.due q.clock).length ≤ body.count .runCallback) :
    ∃ q', run step q (.handleRead :: body ++ [.finishRead]) = .ok q' ∧ q.Fired body q' := by
  obtain ⟨A, hread, hperm⟩ := h.step_handleRead hidle
  have hbegun : InBatch q body (body.count .runCallback) (q.begun A) :=
    ⟨(Stepped.begun hidle hperm).queueInv h, ⟨_, rfl, rfl, rfl, hcount, rfl⟩, fun _ _ => rfl,
      fun id hid => absurd hid (SortedSet.not_mem_empty id)⟩
  obtain ⟨q₁, hrun, hdone⟩ := hbegun.run body fun a ha => ⟨ha, hbody a ha⟩
  obtain ⟨b, hb, -, -, hlen, -⟩ := id hdone.batch
  have hend : b.remaining = [] := eq_nil_of_length_eq_zero (Nat.le_zero.mp hlen)
  obtain ⟨q', hfinish, hrearmed⟩ := hdone.queue.step_finish hb hend
  refine ⟨q'.setForFirst, ?_, hdone.finish hb hrearmed⟩
  rw [cons_append, run_cons, hread]
  show run step (q.begun A) (body ++ [.finishRead]) = _
  rw [run_append, hrun]
  show (q₁.step .finishRead >>= _) = _
  rw [hfinish]
  rfl

end

/-- When no step is executing, the loop will be woken for the first timer. -/
def WakesInTime (q : TimerQueue) : Prop :=
  q.batch = none → ∀ e, q.timers.begin = some e →
    q.timerfd.WakesBy (max e.when (q.timerfd.lastSet + 100))

/-- `q.due now` is what should be run at the time `now`: exactly the timers
that have expired, each once, the earliest first. -/
def DueInOrder (q : TimerQueue) : Prop :=
  (∀ e, e ∈ q.due q.clock ↔ e ∈ q.timers ∧ e.when ≤ q.clock) ∧
    (q.due q.clock).Pairwise (fun e e' => e.when ≤ e'.when) ∧
    ((q.due q.clock).map q.idOf).Nodup

/-- A call of `handleRead`, whatever its callbacks do, runs what is due. -/
def FiresDue (q : TimerQueue) : Prop :=
  q.batch = none → q.DueInOrder ∧
    ∀ body : List Label, (∀ a ∈ body, a ≠ .handleRead ∧ a ≠ .finishRead) →
      (q.due q.clock).length ≤ body.count .runCallback →
      ∃ q', run step q (.handleRead :: body ++ [.finishRead]) = .ok q' ∧ q.Fired body q'

theorem QueueInv.dueInOrder {q : TimerQueue} (h : q.QueueInv) : q.DueInOrder := by
  refine ⟨fun e => mem_due, ?_, h.inv.linked.nodup_due q.clock⟩
  have hsorted : (q.due q.clock).Pairwise (· < ·) := q.timers.sorted.sublist filter_sublist
  exact hsorted.imp fun hlt => Entry.when_le_of_le (le_of_lt hlt)

theorem QueueInv.firesDue {q : TimerQueue} (h : q.QueueInv) : q.FiresDue := fun hidle =>
  ⟨h.dueInOrder, fun _ hbody hcount => handleRead_fires h hidle hbody hcount⟩

theorem Woken.wakesInTime {q : TimerQueue} (h : q.Woken) : q.WakesInTime := fun hidle e he =>
  h.timerfd e (SortedSet.mem_of_begin he) (.inl hidle)

theorem step_woken {q : TimerQueue} (h : q.Woken) (hforward : q.Forward a) :
    Outcome Woken (fun _ => False) (q.step a) := by
  obtain ⟨q', hstep, hstepped⟩ := step_spec h.queue a
  rw [hstep]
  exact .ok (hstepped.woken h hforward)

theorem woken_create {clock : Int} (hclock : Timestamp.valid clock) : (create clock).Woken := by
  refine ⟨queueInv_create clock, hclock, ?_, ?_⟩
  · intro b hb
    cases hb
  · intro e he
    exact absurd he (SortedSet.not_mem_empty e)

/-- **No wake-up is lost, and no timer fires early or twice.**  The clock is
`gettimeofday`, which counts from the Epoch; it does not go back. -/
theorem timers_wake_and_fire {clock : Int} (hclock : Timestamp.valid clock) (as : List Label)
    (has : Meets step Forward (create clock) as) :
    Outcome (fun q => q.WakesInTime ∧ q.FiresDue) (fun _ => False)
      (run step (create clock) as) := by
  have hrun := Outcome.run (fun q a h hforward => step_woken (q := q) (a := a) h hforward)
    (woken_create hclock) has
  exact hrun.mono (fun q h => ⟨h.wakesInTime, h.queue.firesDue⟩) fun _ h => h

/-- A callback adds a timer with a time before the Epoch; the batch ends, and
the timerfd that `addTimerInLoop` has set expires. -/
def addsInvalid : List Label :=
  [.addTimer 4096 1000 500 true, .addTimerInLoop ⟨4096, 1⟩, .clock 1000, .handleRead,
    .runCallback, .addTimer 8192 (-7) 0 false, .addTimerInLoop ⟨8192, 2⟩, .finishRead, .clock 1100,
    .handleRead, .runCallback, .finishRead]

theorem timers_wake_and_fire_addsInvalid :
    Timestamp.valid 1 ∧ Meets step Forward (create 1) addsInvalid ∧
      Outcome (fun q => q.WakesInTime ∧ q.FiresDue) (fun _ => False)
        (run step (create 1) addsInvalid) := by
  have hmeets : Meets step Forward (create 1) addsInvalid := by decide +kernel
  exact ⟨by decide, hmeets, timers_wake_and_fire (by decide) addsInvalid hmeets⟩

end TimerQueue

end Muduo
