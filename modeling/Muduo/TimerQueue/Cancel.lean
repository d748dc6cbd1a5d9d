import Muduo.TimerQueue.Invariant

/-!
# Muduo.TimerQueue.Cancel

What `cancelInLoop` stops.

A timer is found by `cancelInLoop` when it is in the queue.  One whose
callback runs, or has run, in the present batch is remembered in
`cancelingTimers_`, which `reset` consults before it inserts the timer again.
The loop of `handleRead` does not consult it: a timer of the batch whose
callback has not been started is started all the same.  Neither is a timer
found that its `addTimerInLoop` has yet to insert.
-/

namespace Muduo.TimerQueue

open Lib List

/-- `ev'` starts the timer that `ev` cancels. -/
def Event.restarts : Event → Event → Bool
  | .cancelled i, .started j => decide (i = j)
  | _, _ => false

/-- No callback is started after the cancellation of its timer. -/
def CancelFinal (log : List Event) : Prop :=
  log.Pairwise fun ev ev' => ev.restarts ev' = false

instance (log : List Event) : Decidable (CancelFinal log) :=
  inferInstanceAs (Decidable (log.Pairwise _))

/-- The timers of the batch whose callback has not been started. -/
def notStarted (q : TimerQueue) : List TimerId :=
  match q.batch with
  | some b => b.remaining.map q.idOf
  | none => []

/-- The id is of a timer that has been created, has been added, and is not
waiting for its callback in the present batch. -/
def Settled (q : TimerQueue) (id : TimerId) : Prop :=
  id.sequence ≤ q.numCreated ∧ ¬ id ∈ q.awaiting ∧ ¬ id ∈ q.notStarted

instance (q : TimerQueue) (id : TimerId) : Decidable (q.Settled id) :=
  inferInstanceAs (Decidable (_ ∧ _ ∧ _))

/-- The condition on the steps of a run: what is cancelled is settled. -/
def CancelsSettled (q : TimerQueue) : Label → Prop
  | .cancelInLoop id => q.Settled id
  | _ => True

instance (q : TimerQueue) : (a : Label) → Decidable (q.CancelsSettled a)
  | .cancelInLoop id => inferInstanceAs (Decidable (q.Settled id))
  | .addTimer .. | .otherTimer | .addTimerInLoop _ | .clock _ | .handleRead | .runCallback
  | .finishRead => .isTrue trivial

/-- No later step starts the timer: it is not in the queue, and if it is in
the batch, its callback has been started and `reset` will delete it. -/
structure Gone (q : TimerQueue) (id : TimerId) : Prop where
  settled : q.Settled id
  inactive : ¬ id ∈ q.activeTimers
  canceling : ∀ e ∈ q.hand, q.idOf e = id → id ∈ q.cancelingTimers

structure CancelInv (q : TimerQueue) : Prop where
  queue : q.QueueInv
  ordered : CancelFinal q.log
  gone : ∀ id, .cancelled id ∈ q.log → q.Gone id

section
variable {q q' : TimerQueue}

variable {id : TimerId}

variable {b : Batch} {a : Label}

theorem mem_notStarted (hb : q.batch = some b) :
    id ∈ q.notStarted ↔ ∃ e ∈ b.remaining, q.idOf e = id := by
  simp [notStarted, hb]

theorem notStarted_of_idle (hb : q.batch = none) : q.notStarted = [] := by
  simp [notStarted, hb]

/-- The ids of a batch depend on the memory of its timers only. -/
theorem notStarted_congr (h : q.QueueInv) (hbatch : q'.batch = q.batch)
    (hheap : ∀ e ∈ q.hand, q'.heap e.timer = q.heap e.timer) : q'.notStarted = q.notStarted := by
  unfold notStarted
  rw [hbatch]
  cases hb : q.batch with
  | none => rfl
  | some b =>
    apply map_congr_left
    intro e he
    apply idOf_congr
    apply hheap
    rw [hand_of_batch hb]
    exact (h.remaining b hb).subset he

/-- A step that leaves the batch alone and adds nothing to the queue. -/
theorem Gone.of_frame (hgone : q.Gone id) (h : q.QueueInv) (hbatch : q'.batch = q.batch)
    (hheap : ∀ e ∈ q.hand, q'.heap e.timer = q.heap e.timer) (hnum : q.numCreated ≤ q'.numCreated)
    (hawaiting : id ∈ q'.awaiting → id ∈ q.awaiting)
    (hactive : id ∈ q'.activeTimers → id ∈ q.activeTimers)
    (hcanceling : id ∈ q.cancelingTimers → id ∈ q'.cancelingTimers) : q'.Gone id := by
  have hhand : q'.hand = q.hand := by simp [hand, hbatch]
  refine ⟨⟨?_, ?_, ?_⟩, ?_, ?_⟩
  · exact Nat.le_trans hgone.settled.1 hnum
  · exact fun hmem => hgone.settled.2.1 (hawaiting hmem)
  · rw [notStarted_congr h hbatch hheap]
    exact hgone.settled.2.2
  · exact fun hmem => hgone.inactive (hactive hmem)
  · intro e he heq
    rw [hhand] at he
    rw [idOf_congr (hheap e he)] at heq
    exact hcanceling (hgone.canceling e he heq)

/-- The batch that `handleRead` takes has no timer that is gone. -/
theorem Gone.begun (hgone : q.Gone id) (h : q.QueueInv) {A : SortedSet ActiveTimer}
    (hperm : q.activeTimers.elems.Perm ((q.due q.clock).map q.idOf ++ A.elems)) :
    (q.begun A).Gone id := by
  have hdue : ∀ e ∈ q.due q.clock, q.idOf e ≠ id := fun e he heq =>
    hgone.inactive (heq ▸ (h.inv.linked.alive_idOf (mem_due.mp he).1).2)
  refine ⟨⟨hgone.settled.1, hgone.settled.2.1, ?_⟩, ?_, fun e he heq => absurd heq (hdue e he)⟩
  · intro hmem
    obtain ⟨e, he, heq⟩ := (mem_notStarted rfl).mp hmem
    exact hdue e he heq
  · intro hmem
    apply hgone.inactive
    rw [SortedSet.mem_def, hperm.mem_iff]
    exact mem_append_right _ hmem

/-- `reset` puts no timer back that is gone. -/
theorem Gone.finish (hgone : q.Gone id) (hb : q.batch = some b)
    (hrearmed : q.ended.Rearmed b.now b.expired q') : q'.setForFirst.Gone id := by
  have hidle : q'.setForFirst.batch = none :=
    (q'.setForFirst_proj TimerQueue.batch fun _ => rfl).trans (congrArg TimerQueue.batch hrearmed.frame :)
  have hnum : q'.setForFirst.numCreated = q.numCreated :=
    (q'.setForFirst_proj TimerQueue.numCreated fun _ => rfl).trans
      (congrArg TimerQueue.numCreated hrearmed.frame :)
  have hawaiting : q'.setForFirst.awaiting = q.awaiting :=
    (q'.setForFirst_proj TimerQueue.awaiting fun _ => rfl).trans
      (congrArg TimerQueue.awaiting hrearmed.frame :)
  have hactive : q'.setForFirst.activeTimers = q'.activeTimers :=
    q'.setForFirst_proj TimerQueue.activeTimers fun _ => rfl
  refine ⟨⟨?_, ?_, ?_⟩, ?_, ?_⟩
  · rw [hnum]
    exact hgone.settled.1
  · rw [hawaiting]
    exact hgone.settled.2.1
  · simp [notStarted_of_idle hidle]
  · rw [hactive, hrearmed.active]
    intro hmem
    rcases hmem with hmem | ⟨e, he, hreturns, heq⟩
    · exact hgone.inactive hmem
    · obtain ⟨t, -, -, hnot⟩ := hreturns
      have hcanceling := hgone.canceling e (hand_of_batch hb ▸ he) heq
      exact hnot (heq ▸ hcanceling)
  · simp [hand_of_idle hidle]

/-- **Step.** What is gone stays gone. -/
theorem Stepped.gone (hstep : q.Stepped a q') (h : q.QueueInv)
    (hgone : q.Gone id) : q'.Gone id := by
  cases hstep with
  | skip => exact hgone
  | @newTimer timer when interval repeats hfree ha =>
    refine hgone.of_frame h rfl (fun e he => newTimer_heap (h.inv.held e he) hfree _ _ _)
      (Nat.le_succ _) (fun hmem => ?_) (fun hmem => hmem) fun hmem => hmem
    -- the new timer has a sequence number of its own
    rcases mem_append.mp hmem with hmem | hmem
    · exact hmem
    · have hle := hgone.settled.1
      rw [mem_singleton.mp hmem] at hle
      exact absurd hle (Nat.not_succ_le_self _)
  | otherTimer =>
    exact hgone.of_frame h rfl (fun _ _ => rfl) (Nat.le_succ _) (fun hmem => hmem)
      (fun hmem => hmem) fun hmem => hmem
  | @add id' t hid ht hs =>
    have hlink : ((q.collect id').link id'.timer t).Gone id := by
      refine hgone.of_frame h rfl (fun _ _ => rfl) (Nat.le_refl _) mem_of_mem_erase
        (fun hmem => ?_) fun hmem => hmem
      rcases SortedSet.mem_insert.mp hmem with heq | hmem
      · rw [hs] at heq
        exact absurd (heq ▸ hid) hgone.settled.2.1
      · exact hmem
    split
    · exact ⟨hlink.settled, hlink.inactive, hlink.canceling⟩
    · exact hlink
  | @cancelActive id' t hid hlinked =>
    have hinv : Inv q.hand (q.record (.cancelled id')) := h.inv.congr rfl
    exact hgone.of_frame h rfl (fun e he => hinv.unlink_heap hid t he) (Nat.le_refl _)
      (fun hmem => hmem) (fun hmem => (SortedSet.mem_erase.mp hmem).2) fun hmem => hmem
  | cancelOther hid =>
    split
    · exact hgone.of_frame h rfl (fun _ _ => rfl) (Nat.le_refl _) (fun hmem => hmem)
        (fun hmem => hmem) fun hmem => SortedSet.mem_insert.mpr (.inr hmem)
    · exact ⟨hgone.settled, hgone.inactive, hgone.canceling⟩
  | clock t => exact ⟨hgone.settled, hgone.inactive, hgone.canceling⟩
  | begun hidle hperm => exact hgone.begun h hperm
  | @run b e es hb hes =>
    refine ⟨⟨hgone.settled.1, hgone.settled.2.1, ?_⟩, hgone.inactive,
      fun e' he' => hgone.canceling e' (hand_of_batch hb ▸ he')⟩
    intro hmem
    obtain ⟨e', he', heq⟩ := (mem_notStarted rfl).mp hmem
    exact hgone.settled.2.2 ((mem_notStarted hb).mpr ⟨e', hes ▸ mem_cons_of_mem e he', heq⟩)
  | finish hb hes hrearmed => exact hgone.finish hb hrearmed

/-- A settled timer is gone once it is cancelled. -/
theorem Stepped.gone_of_cancel (hstep : q.Stepped (.cancelInLoop id) q') (h : q.QueueInv)
    (hsettled : q.Settled id) : q'.Gone id := by
  cases hstep with
  | skip hne => exact absurd rfl (hne id)
  | @cancelActive _ t hid hlinked =>
    have hinv : Inv q.hand (q.record (.cancelled id)) := h.inv.congr rfl
    have hheap : ∀ e ∈ q.hand, ((q.record (.cancelled id)).unlink id t).heap e.timer =
        q.heap e.timer := fun e he => hinv.unlink_heap hid t he
    refine ⟨⟨hsettled.1, hsettled.2.1, ?_⟩, ?_, ?_⟩
    · have hsame : ((q.record (.cancelled id)).unlink id t).notStarted = q.notStarted :=
        notStarted_congr h rfl hheap
      rw [hsame]
      exact hsettled.2.2
    · exact fun hmem => (SortedSet.mem_erase.mp hmem).1 rfl
    · intro e he heq
      rw [idOf_congr (hheap e he)] at heq
      exact absurd heq.symm (h.inv.disjoint.2.2.1 id hid e he)
  | cancelOther hid =>
    split
    · exact ⟨hsettled, hid, fun _ _ _ => SortedSet.mem_insert.mpr (.inl rfl)⟩
    · rename_i hcalling
      refine ⟨hsettled, hid, fun e he => ?_⟩
      -- no callback is running, so there is no batch
      have hidle : q.batch = none := by
        have := h.calling
        cases hb : q.batch with
        | none => rfl
        | some b => simp_all
      have hhand : (q.record (.cancelled id)).hand = [] := hand_of_idle hidle
      simp [hhand] at he

theorem cancelFinal_snoc {log : List Event} {ev : Event} :
    CancelFinal (log ++ [ev]) ↔ CancelFinal log ∧ ∀ ev' ∈ log, ev'.restarts ev = false := by
  simp [CancelFinal, pairwise_append]

theorem CancelInv.of_cancel (h : q.CancelInv) (hstep : q.Stepped (.cancelInLoop id) q')
    (hlog : q'.log = q.log ++ [.cancelled id]) (hsettled : q.Settled id) : q'.CancelInv := by
  refine ⟨hstep.queueInv h.queue, ?_, ?_⟩
  · rw [hlog, cancelFinal_snoc]
    exact ⟨h.ordered, fun ev' _ => by cases ev' <;> rfl⟩
  · intro id' hid'
    rw [hlog] at hid'
    rcases mem_append.mp hid' with hid' | hid'
    · exact hstep.gone h.queue (h.gone id' hid')
    · cases mem_singleton.mp hid'
      exact hstep.gone_of_cancel h.queue hsettled

/-- The callback that is started belongs to a timer that was not cancelled. -/
theorem CancelInv.not_cancelled (h : q.CancelInv) (hb : q.batch = some b) {e : Entry}
    {es : List Entry} (hes : b.remaining = e :: es) : ¬ .cancelled (q.idOf e) ∈ q.log := by
  intro hmem
  apply (h.gone _ hmem).settled.2.2
  exact (mem_notStarted hb).mpr ⟨e, hes ▸ mem_cons_self, rfl⟩

/-- **Step.** Steps that cancel settled timers only keep the order. -/
theorem CancelInv.step (h : q.CancelInv) (hstep : q.Stepped a q')
    (hallowed : q.CancelsSettled a) : q'.CancelInv := by
  have hquiet : q'.log = q.log → q'.CancelInv := fun hlog =>
    ⟨hstep.queueInv h.queue, hlog ▸ h.ordered, fun id hid =>
      hstep.gone h.queue (h.gone id (hlog ▸ hid))⟩
  have hstep' := hstep
  cases hstep with
  | skip | newTimer | otherTimer | clock | begun => exact hquiet rfl
  | add => exact hquiet (by split <;> rfl)
  | cancelActive => exact h.of_cancel hstep' rfl hallowed
  | cancelOther => exact h.of_cancel hstep' (by split <;> rfl) hallowed
  | @run b e es hb hes =>
    refine ⟨hstep'.queueInv h.queue, ?_, ?_⟩
    · show CancelFinal (q.log ++ [.started (q.idOf e)])
      rw [cancelFinal_snoc]
      refine ⟨h.ordered, fun ev' hev' => ?_⟩
      cases ev' with
      | started id => rfl
      | cancelled id =>
        have hne : id ≠ q.idOf e := fun heq => h.not_cancelled hb hes (heq ▸ hev')
        simp [Event.restarts, hne]
    · intro id hid
      rcases mem_append.mp hid with hid | hid
      · exact hstep'.gone h.queue (h.gone id hid)
      · cases mem_singleton.mp hid
  | @finish b q₁ hb hes hrearmed =>
    have hframe : q₁.log = q.log := (congrArg TimerQueue.log hrearmed.frame :)
    exact hquiet ((q₁.setForFirst_proj TimerQueue.log fun _ => rfl).trans hframe)

theorem step_cancelInv (h : q.CancelInv) (hallowed : q.CancelsSettled a) :
    Outcome CancelInv (fun _ => False) (q.step a) := by
  obtain ⟨q', hstep, hstepped⟩ := step_spec h.queue a
  rw [hstep]
  exact .ok (h.step hstepped hallowed)

end

/-- **Cancellation is final** in a run that cancels settled timers only: a
timer in the queue, one whose callback is running or has run in this batch,
one that has fired or has been cancelled before. -/
theorem cancel_final_of_settled (clock : Int) (as : List Label)
    (has : Meets step CancelsSettled (create clock) as) :
    Outcome (fun q => CancelFinal q.log) (fun _ => False) (run step (create clock) as) := by
  have hcreate : (create clock).CancelInv :=
    ⟨queueInv_create clock, .nil, fun id hid => by cases hid⟩
  have hrun := Outcome.run (fun q a h hallowed => step_cancelInv (q := q) (a := a) h hallowed)
    hcreate has
  exact hrun.mono (fun q h => h.ordered) fun _ h => h

/-- A repeating timer cancels itself in its second callback. -/
def selfCancelling : List Label :=
  [.addTimer 4096 1000 500 true, .addTimerInLoop ⟨4096, 1⟩, .clock 1000, .handleRead, .runCallback,
    .finishRead, .clock 1500, .handleRead, .runCallback, .cancelInLoop ⟨4096, 1⟩, .finishRead,
    .clock 2000, .handleRead, .runCallback, .finishRead]

theorem cancel_final_of_settled_selfCancelling :
    Meets step CancelsSettled (create 1) selfCancelling ∧
      Outcome (fun q => CancelFinal q.log) (fun _ => False)
        (run step (create 1) selfCancelling) := by
  have hmeets : Meets step CancelsSettled (create 1) selfCancelling := by decide +kernel
  exact ⟨hmeets, cancel_final_of_settled 1 selfCancelling hmeets⟩

/-- Two timers expire together, and the callback of the first cancels the
second. -/
def cancelWithinBatch : List Label :=
  [.addTimer 4096 1000 0 false, .addTimerInLoop ⟨4096, 1⟩, .addTimer 8192 1000 0 false,
    .addTimerInLoop ⟨8192, 2⟩, .clock 1000, .handleRead, .runCallback, .cancelInLoop ⟨8192, 2⟩,
    .runCallback, .finishRead]

/-- The second callback is started after its cancellation. -/
theorem cancel_within_batch :
    (run step (create 1) cancelWithinBatch).map TimerQueue.log =
        .ok [.started ⟨4096, 1⟩, .cancelled ⟨8192, 2⟩, .started ⟨8192, 2⟩] ∧
      ¬ CancelFinal [.started ⟨4096, 1⟩, .cancelled ⟨8192, 2⟩, .started ⟨8192, 2⟩] := by
  constructor
  · rfl
  · decide

end Muduo.TimerQueue
