import Muduo.TimerQueue.Spec

/-!
# Muduo.TimerQueue.Invariant

The two sets of the queue and the ownership of the timers, in every state of
every run, also between two callbacks of `handleRead`.
-/

namespace Muduo.TimerQueue

open Lib

section
variable {q q' : TimerQueue}

theorem QueueInv.of_inv (h : q.QueueInv) (hinv : Inv q.hand q') (hbatch : q'.batch = q.batch)
    (hcalling : q'.callingExpiredTimers = q.callingExpiredTimers) : q'.QueueInv := by
  have hhand : q'.hand = q.hand := by simp [hand, hbatch]
  constructor
  · rw [hhand]
    exact hinv
  · rw [hcalling, hbatch]
    exact h.calling
  · rw [hbatch]
    exact h.remaining

theorem Rearmed.queueInv {now : Int} {es : List Entry} (h : q.ended.Rearmed now es q') :
    q'.setForFirst.QueueInv := by
  have hidle : q'.setForFirst.batch = none :=
    (q'.setForFirst_proj TimerQueue.batch fun _ => rfl).trans (congrArg TimerQueue.batch h.frame :)
  have hoff : q'.setForFirst.callingExpiredTimers = false :=
    (q'.setForFirst_proj TimerQueue.callingExpiredTimers fun _ => rfl).trans
      (congrArg TimerQueue.callingExpiredTimers h.frame :)
  constructor
  · rw [hand_of_idle hidle]
    exact h.inv.congr (q'.setForFirst_proj core fun _ => rfl)
  · rw [hidle, hoff]
    rfl
  · rw [hidle]
    simp

/-- **Step.** Every step keeps the invariant. -/
theorem Stepped.queueInv (h : q.QueueInv) {a : Label} (hstep : q.Stepped a q') : q'.QueueInv := by
  cases hstep with
  | skip => exact h
  | newTimer when interval repeats hfree ha =>
    exact h.of_inv (h.inv.newTimer hfree ha when interval repeats) rfl rfl
  | otherTimer =>
    refine h.of_inv ?_ rfl rfl
    exact ⟨h.inv.linked.congr rfl rfl fun _ _ => rfl, h.inv.awaiting, h.inv.held, h.inv.ledger,
      h.inv.nodup, fun i hi => Nat.le_succ_of_le (h.inv.fresh i hi), h.inv.bound⟩
  | add hid ht hs =>
    have hinv := h.inv.add hid ht hs
    split
    · exact h.of_inv (hinv.congr rfl) rfl rfl
    · exact h.of_inv hinv rfl rfl
  | @cancelActive id _ hid hlinked =>
    have hinv : Inv q.hand (q.record (.cancelled id)) := h.inv.congr rfl
    exact h.of_inv (hinv.unlink hid hlinked) rfl rfl
  | cancelOther hid =>
    split
    · exact h.of_inv (h.inv.congr rfl) rfl rfl
    · exact h.of_inv (h.inv.congr rfl) rfl rfl
  | clock t => exact h.of_inv (h.inv.congr rfl) rfl rfl
  | begun hidle hperm =>
    refine ⟨((h.inv_idle hidle).expire hperm).congr rfl, rfl, ?_⟩
    intro b hb
    cases hb
    exact List.suffix_refl _
  | @run b e es hb hes =>
    refine ⟨(h.inv_batch hb).congr rfl, h.calling.trans (by rw [hb]; rfl), ?_⟩
    intro b' hb'
    cases hb'
    exact (List.suffix_cons e es).trans (hes ▸ h.remaining b hb)
  | finish hb hes hrearmed => exact hrearmed.queueInv

theorem queueInv_create (clock : Int) : (create clock).QueueInv := by
  refine ⟨⟨⟨?_, ?_, rfl⟩, ?_, ?_, .refl _, .nil, ?_, ?_⟩, rfl, ?_⟩ <;>
    simp [create, hand]

theorem step_queue (h : q.QueueInv) (a : Label) : Outcome QueueInv (fun _ => False) (q.step a) := by
  obtain ⟨q', hstep, hstepped⟩ := step_spec h a
  rw [hstep]
  exact .ok (hstepped.queueInv h)

/-- **Runs.** No step of a run fails, and the invariant holds at its end. -/
theorem reachable_queueInv (clock : Int) (as : List Label) :
    Outcome QueueInv (fun _ => False) (run step (create clock) as) :=
  Outcome.run_all (fun _ a h => step_queue h a) (queueInv_create clock) as

/-! ## what the invariant says -/

/-- The representation of the queue is consistent. -/
structure Consistent (q : TimerQueue) : Prop where
  /-- `timers_` holds the timers of `activeTimers_`, under their expiration. -/
  timers : ∀ e, e ∈ q.timers ↔ ∃ t, q.heap e.timer = some t ∧ t.expiration = e.when ∧
    (⟨e.timer, t.sequence⟩ : ActiveTimer) ∈ q.activeTimers
  /-- `activeTimers_` holds the timers of `timers_`, under their sequence number. -/
  activeTimers : ∀ i, i ∈ q.activeTimers ↔ ∃ t, q.heap i.timer = some t ∧
    t.sequence = i.sequence ∧ (⟨t.expiration, i.timer⟩ : Entry) ∈ q.timers
  /-- Each timer is in each set once. -/
  once : (q.timers.elems.map Entry.timer).Nodup ∧
    (q.activeTimers.elems.map ActiveTimer.timer).Nodup
  /-- Every timer created is in exactly one place: with the functor that will
  add it, in the queue, in the batch being run, or among the deleted ones. -/
  owned : (q.awaiting ++ q.activeTimers.elems ++ q.hand.map q.idOf ++ q.deleted).Perm q.issued ∧
    q.issued.Nodup
  /-- Cancelling with the id of an earlier timer changes nothing for the timer
  that is now at the address, neither at once nor in `reset`. -/
  stale : ∀ id t, q.heap id.timer = some t → t.sequence ≠ id.sequence →
    ∃ c, q.cancelInLoop id = .ok { q with cancelingTimers := c } ∧
      ∀ e, e.timer = id.timer → (Returns { q with cancelingTimers := c } e ↔ q.Returns e)

/-- A timer whose sequence number is another one is not the one that `id` names. -/
theorem QueueInv.stale_cancel (h : q.QueueInv) {id : TimerId} {t : Timer}
    (ht : q.heap id.timer = some t) (hs : t.sequence ≠ id.sequence) :
    ∃ c, q.cancelInLoop id = .ok { q with cancelingTimers := c } ∧
      ∀ e, e.timer = id.timer → (Returns { q with cancelingTimers := c } e ↔ q.Returns e) := by
  have hid : ¬ id ∈ q.activeTimers := by
    intro hmem
    obtain ⟨t', ht', hs'⟩ := h.inv.linked.alive hmem
    obtain rfl : t = t' := Option.some.inj (ht.symm.trans ht')
    exact hs hs'
  rw [cancelInLoop_of_not_active h.inv.linked hid]
  split
  · refine ⟨_, rfl, fun e he => ?_⟩
    have hne : q.idOf e ≠ id := by
      rw [idOf_of_heap (he ▸ ht)]
      exact fun heq => hs (congrArg ActiveTimer.sequence heq)
    have hmem : q.idOf e ∈ (q.cancelingTimers.insert id).1 ↔ q.idOf e ∈ q.cancelingTimers := by
      rw [SortedSet.mem_insert]
      exact or_iff_right hne
    show (∃ t, _ ∧ _ ∧ ¬ q.idOf e ∈ (q.cancelingTimers.insert id).1) ↔ _
    rw [hmem]
    rfl
  · exact ⟨q.cancelingTimers, rfl, fun _ _ => Iff.rfl⟩

theorem QueueInv.consistent (h : q.QueueInv) : q.Consistent := by
  have hlinked := h.inv.linked
  refine ⟨fun e => ⟨hlinked.entry e, ?_⟩, fun i => ⟨hlinked.active i, ?_⟩, ⟨?_, ?_⟩,
    ⟨h.inv.ledger, h.inv.nodup⟩, fun id t ht hs => h.stale_cancel ht hs⟩
  · intro he
    obtain ⟨t, ht, hw, hact⟩ := he
    obtain ⟨t', ht', -, hent⟩ := hlinked.active _ hact
    obtain rfl : t = t' := Option.some.inj (ht.symm.trans ht')
    rw [hw] at hent
    exact hent
  · intro hi
    obtain ⟨t, ht, hs, hent⟩ := hi
    obtain ⟨t', ht', -, hact⟩ := hlinked.entry _ hent
    obtain rfl : t = t' := Option.some.inj (ht.symm.trans ht')
    rw [hs] at hact
    exact hact
  · exact q.timers.nodup.map_on fun e he e' he' heq => hlinked.entry_eq he he' heq
  · exact q.activeTimers.nodup.map_on fun i hi j hj heq =>
      (hlinked.alive hi).eq (hlinked.alive hj) heq

/-- **The queue is consistent in every state of every run.**  The run is any
sequence of steps, the clock may do anything, the callbacks may add timers
and cancel with any `TimerId`, and addresses are used again; no assertion
fails, no deleted timer is used, none is deleted twice. -/
theorem timerQueue_consistent (clock : Int) (as : List Label) :
    Outcome Consistent (fun _ => False) (run step (create clock) as) :=
  (reachable_queueInv clock as).mono (fun _ h => h.consistent) fun _ h => h

end

end Muduo.TimerQueue
