import Mathlib.Data.List.Nodup
import Mathlib.Data.List.Perm.Basic
import Muduo.TimerQueue

/-!
# Muduo.TimerQueue.Spec

What the functions of the timer queue do, in the states that occur.

`Inv hand` accounts for every timer ever created once: not yet added, in the
queue, among the entries `hand` that the loop of `handleRead` or of `reset`
still has, or deleted.

The results about whole runs are read off `Stepped`.
-/

namespace Muduo.TimerQueue

open Lib List Function

/-- The timer that `id` names exists. -/
def Alive (q : TimerQueue) (id : TimerId) : Prop :=
  ∃ t, q.heap id.timer = some t ∧ t.sequence = id.sequence

/-- The timer that an entry points to. -/
def idOf (q : TimerQueue) (e : Entry) : TimerId :=
  ⟨e.timer, match q.heap e.timer with
    | some t => t.sequence
    | none => 0⟩

/-- The entries that `handleRead` has taken out of the queue. -/
def hand (q : TimerQueue) : List Entry :=
  match q.batch with
  | some b => b.expired
  | none => []

/-- The two sets hold the same timers. -/
structure Linked (q : TimerQueue) : Prop where
  entry : ∀ e ∈ q.timers, ∃ t, q.heap e.timer = some t ∧ t.expiration = e.when ∧
    (⟨e.timer, t.sequence⟩ : ActiveTimer) ∈ q.activeTimers
  active : ∀ i ∈ q.activeTimers, ∃ t, q.heap i.timer = some t ∧ t.sequence = i.sequence ∧
    (⟨t.expiration, i.timer⟩ : Entry) ∈ q.timers
  size : q.timers.size = q.activeTimers.size

structure Inv (hand : List Entry) (q : TimerQueue) : Prop where
  linked : q.Linked
  awaiting : ∀ i ∈ q.awaiting, q.Alive i
  held : ∀ e ∈ hand, q.Alive (q.idOf e)
  ledger : (q.awaiting ++ q.activeTimers.elems ++ hand.map q.idOf ++ q.deleted).Perm q.issued
  nodup : q.issued.Nodup
  fresh : ∀ i ∈ q.issued, i.sequence ≤ q.numCreated
  bound : ∀ a t, q.heap a = some t → a < UINTPTR_MAX

section
variable {q : TimerQueue}

/-! ## identities -/

variable {t : Timer} {i : TimerId} {q' : TimerQueue} {a : Nat} {id : TimerId} {now : Int}
  {A : SortedSet ActiveTimer} {b : Batch}

theorem idOf_of_heap {e : Entry} (h : q.heap e.timer = some t) :
    q.idOf e = ⟨e.timer, t.sequence⟩ := by
  simp [idOf, h]

theorem idOf_timer (e : Entry) : (q.idOf e).timer = e.timer := rfl

theorem Alive.eq {i j : TimerId} (hi : q.Alive i) (hj : q.Alive j) (h : i.timer = j.timer) :
    i = j := by
  obtain ⟨t, ht, hs⟩ := hi
  obtain ⟨t', ht', hs'⟩ := hj
  cases i
  cases j
  grind

theorem Alive.congr (hi : q.Alive i) (h : q'.heap i.timer = q.heap i.timer) : q'.Alive i := by
  obtain ⟨t, ht, hs⟩ := hi
  exact ⟨t, h.trans ht, hs⟩

theorem idOf_congr {e : Entry} (h : q'.heap e.timer = q.heap e.timer) : q'.idOf e = q.idOf e := by
  simp [idOf, h]

theorem Linked.alive (h : q.Linked) {i : ActiveTimer} (hi : i ∈ q.activeTimers) : q.Alive i := by
  obtain ⟨t, ht, hs, -⟩ := h.active i hi
  exact ⟨t, ht, hs⟩

/-! ## the two sets -/

/-- The queue is not concerned by a change at an address it does not hold. -/
theorem Linked.congr (h : q.Linked) (ht : q'.timers = q.timers)
    (ha : q'.activeTimers = q.activeTimers)
    (hheap : ∀ i ∈ q.activeTimers, q'.heap i.timer = q.heap i.timer) : q'.Linked := by
  constructor
  · intro e he
    obtain ⟨t, hte, hw, hact⟩ := h.entry e (ht ▸ he)
    exact ⟨t, (hheap _ hact).trans hte, hw, ha ▸ hact⟩
  · intro i hi
    obtain ⟨t, hti, hs, hent⟩ := h.active i (ha ▸ hi)
    exact ⟨t, (hheap i (ha ▸ hi)).trans hti, hs, ht ▸ hent⟩
  · rw [ht, ha]
    exact h.size

theorem Linked.entry_not_mem (h : q.Linked) (ht : q.heap a = some t)
    (hnew : ¬ (⟨a, t.sequence⟩ : ActiveTimer) ∈ q.activeTimers) :
    ¬ (⟨t.expiration, a⟩ : Entry) ∈ q.timers := by
  intro hmem
  obtain ⟨t', ht', -, hact⟩ := h.entry _ hmem
  obtain rfl : t = t' := Option.some.inj (ht.symm.trans ht')
  exact hnew hact

theorem Linked.link (h : q.Linked) (ht : q.heap a = some t)
    (hnew : ¬ (⟨a, t.sequence⟩ : ActiveTimer) ∈ q.activeTimers) : (q.link a t).Linked := by
  constructor
  · intro e he
    rcases SortedSet.mem_insert.mp he with heq | hold
    · exact ⟨t, heq ▸ ht, heq ▸ rfl, SortedSet.mem_insert.mpr (.inl (heq ▸ rfl))⟩
    · obtain ⟨t', ht', hw, hact⟩ := h.entry e hold
      exact ⟨t', ht', hw, SortedSet.mem_insert.mpr (.inr hact)⟩
  · intro i hi
    rcases SortedSet.mem_insert.mp hi with heq | hold
    · exact ⟨t, heq ▸ ht, heq ▸ rfl, SortedSet.mem_insert.mpr (.inl (heq ▸ rfl))⟩
    · obtain ⟨t', ht', hs, hent⟩ := h.active i hold
      exact ⟨t', ht', hs, SortedSet.mem_insert.mpr (.inr hent)⟩
  · show (q.timers.insert _).1.size = (q.activeTimers.insert _).1.size
    rw [SortedSet.size_insert (h.entry_not_mem ht hnew), SortedSet.size_insert hnew, h.size]

theorem insert_spec (h : q.Linked) (ht : q.heap a = some t)
    (hnew : ¬ (⟨a, t.sequence⟩ : ActiveTimer) ∈ q.activeTimers) :
    q.insert a = .ok (q.link a t, q.earliestChanged t.expiration) := by
  have hderef : q.deref a = .ok t := by simp [deref, ht]
  rw [insert, check_of h.size, hderef]
  show (check _ _ >>= _) = _
  rw [check_of (SortedSet.insert_new.mpr (h.entry_not_mem ht hnew))]
  show (check _ _ >>= _) = _
  rw [check_of (SortedSet.insert_new.mpr hnew)]
  show (check _ _ >>= _) = _
  rw [check_of (h.link ht hnew).size]
  rfl

theorem addTimerInLoop_spec (h : q.Linked) (ht : q.heap a = some t)
    (hnew : ¬ (⟨a, t.sequence⟩ : ActiveTimer) ∈ q.activeTimers) :
    q.addTimerInLoop a = .ok (if q.earliestChanged t.expiration then
      (q.link a t).resetTimerfd t.expiration else q.link a t) := by
  have hderef : (q.link a t).deref a = .ok t := by simp [deref, TimerQueue.link, ht]
  rw [addTimerInLoop, insert_spec h ht hnew]
  show ((q.link a t).deref a >>= _) = _
  rw [hderef]
  rfl

/-! ## cancelling -/

/-- The queue without the timer `t` that `id` names, which is deleted. -/
def unlink (q : TimerQueue) (id : TimerId) (t : Timer) : TimerQueue :=
  { q.release id with timers := (q.timers.erase ⟨t.expiration, id.timer⟩).1,
                      activeTimers := (q.activeTimers.erase id).1 }

theorem Linked.entry_eq (h : q.Linked) {e e' : Entry} (he : e ∈ q.timers) (he' : e' ∈ q.timers)
    (hne : e.timer = e'.timer) : e = e' := by
  obtain ⟨t, ht, hw, -⟩ := h.entry e he
  obtain ⟨t', ht', hw', -⟩ := h.entry e' he'
  cases e
  cases e'
  grind

theorem Linked.unlink (h : q.Linked) (hid : id ∈ q.activeTimers)
    (hent : (⟨t.expiration, id.timer⟩ : Entry) ∈ q.timers) : (q.unlink id t).Linked := by
  -- the other timers of the queue are at other addresses
  have hheap : ∀ a, a ≠ id.timer → (q.unlink id t).heap a = q.heap a := fun a ha =>
    update_of_ne ha _ _
  constructor
  · intro e he
    obtain ⟨hne, hold⟩ := SortedSet.mem_erase.mp he
    have haddr : e.timer ≠ id.timer := fun heq => hne (h.entry_eq hold hent heq)
    obtain ⟨t', ht', hw, hact⟩ := h.entry e hold
    have hact' : (⟨e.timer, t'.sequence⟩ : ActiveTimer) ≠ id := fun heq =>
      haddr (congrArg ActiveTimer.timer heq)
    exact ⟨t', (hheap _ haddr).trans ht', hw, SortedSet.mem_erase.mpr ⟨hact', hact⟩⟩
  · intro i hi
    obtain ⟨hne, hold⟩ := SortedSet.mem_erase.mp hi
    have haddr : i.timer ≠ id.timer := fun heq => hne ((h.alive hold).eq (h.alive hid) heq)
    obtain ⟨t', ht', hs, hent'⟩ := h.active i hold
    have hent'' : (⟨t'.expiration, i.timer⟩ : Entry) ≠ ⟨t.expiration, id.timer⟩ := fun heq =>
      haddr (congrArg Entry.timer heq)
    exact ⟨t', (hheap _ haddr).trans ht', hs, SortedSet.mem_erase.mpr ⟨hent'', hent'⟩⟩
  · have hsize := h.size
    have htimers := SortedSet.size_erase hent
    have hactive := SortedSet.size_erase hid
    show (q.timers.erase _).1.size = (q.activeTimers.erase _).1.size
    omega

theorem cancelActive_spec (ht : q.heap id.timer = some t) (hs : t.sequence = id.sequence)
    (hent : (⟨t.expiration, id.timer⟩ : Entry) ∈ q.timers) :
    q.cancelActive id = .ok (q.unlink id t) := by
  have hderef : q.deref id.timer = .ok t := by simp [deref, ht]
  have hdelete : delete { q with timers := (q.timers.erase ⟨t.expiration, id.timer⟩).1 } id.timer =
      .ok (release { q with timers := (q.timers.erase ⟨t.expiration, id.timer⟩).1 } id) := by
    simp [delete, ht, hs]
  rw [cancelActive, hderef]
  show (check _ _ >>= _) = _
  rw [check_of (SortedSet.erase_count hent)]
  show (delete _ _ >>= _) = _
  rw [hdelete]
  rfl

theorem cancelInLoop_of_active (h : q.Linked) (hid : id ∈ q.activeTimers) :
    ∃ t, q.heap id.timer = some t ∧ q.cancelInLoop id = .ok (q.unlink id t) ∧
      (q.unlink id t).Linked := by
  obtain ⟨t, ht, hs, hent⟩ := h.active id hid
  have hlinked := h.unlink hid hent
  refine ⟨t, ht, ?_, hlinked⟩
  rw [cancelInLoop, check_of h.size, if_pos hid, cancelActive_spec ht hs hent]
  show (check _ _ >>= _) = _
  rw [check_of hlinked.size]
  rfl

/-- `cancelInLoop` of a timer that is not in the queue is remembered while
the callbacks run. -/
theorem cancelInLoop_of_not_active (h : q.Linked) (hid : ¬ id ∈ q.activeTimers) :
    q.cancelInLoop id = .ok (if q.callingExpiredTimers then
      { q with cancelingTimers := (q.cancelingTimers.insert id).1 } else q) := by
  rw [cancelInLoop, check_of h.size, if_neg hid]
  split
  · show (check _ _ >>= _) = _
    rw [check_of h.size]
    rfl
  · show (check _ _ >>= _) = _
    rw [check_of h.size]
    rfl

/-! ## expiring -/

/-- The entries of the queue that are due at `now`, in order. -/
def due (q : TimerQueue) (now : Int) : List Entry := q.timers.elems.filter (·.when ≤ now)

/-- The sentry of `getExpired` is behind every entry that is due: no timer
has the largest address. -/
theorem below_sentry (h : q.Linked) (hbound : ∀ a t, q.heap a = some t → a < UINTPTR_MAX)
    (now : Int) : q.timers.below ⟨now, UINTPTR_MAX⟩ = q.due now := by
  rw [SortedSet.below_eq_filter, due]
  apply filter_congr
  intro e he
  obtain ⟨t, ht, -⟩ := h.entry e he
  have hlt := hbound e.timer t ht
  simp only [Entry.lt_iff, decide_eq_decide]
  omega

theorem eraseActive_spec {es : List Entry} (hmem : ∀ e ∈ es, q.Alive (q.idOf e))
    (hactive : ∀ e ∈ es, q.idOf e ∈ q.activeTimers) (hnodup : (es.map q.idOf).Nodup) :
    ∃ A, q.eraseActive es = .ok { q with activeTimers := A } ∧
      q.activeTimers.elems.Perm (es.map q.idOf ++ A.elems) := by
  induction es generalizing q with
  | nil => exact ⟨q.activeTimers, rfl, .refl _⟩
  | cons e es ih =>
    obtain ⟨hne, hnodup'⟩ := nodup_cons.mp hnodup
    obtain ⟨t, ht, hs⟩ := hmem e mem_cons_self
    have hid : q.idOf e ∈ q.activeTimers := hactive e mem_cons_self
    have hderef : q.deref e.timer = .ok t := by
      rw [idOf_timer] at ht
      simp [deref, ht]
    have herase : ∀ e' ∈ es, q.idOf e' ∈ (q.activeTimers.erase (q.idOf e)).1 := by
      intro e' he'
      rw [SortedSet.mem_erase]
      constructor
      · intro heq
        exact hne (heq ▸ mem_map_of_mem he')
      · exact hactive e' (mem_cons_of_mem e he')
    obtain ⟨A, hA, hperm⟩ := ih (q := { q with activeTimers := (q.activeTimers.erase (q.idOf e)).1 })
      (fun e' he' => hmem e' (mem_cons_of_mem e he')) herase hnodup'
    refine ⟨A, ?_, (SortedSet.erase_perm hid).trans (hperm.cons _)⟩
    rw [eraseActive, hderef]
    show (check _ _ >>= _) = _
    rw [idOf_of_heap ht] at hid hA
    rw [check_of (SortedSet.erase_count hid)]
    exact hA

theorem mem_due {e : Entry} : e ∈ q.due now ↔ e ∈ q.timers ∧ e.when ≤ now := by
  simp [due, SortedSet.mem_def]

theorem Linked.alive_idOf (h : q.Linked) {e : Entry} (he : e ∈ q.timers) :
    q.Alive (q.idOf e) ∧ q.idOf e ∈ q.activeTimers := by
  obtain ⟨t, ht, -, hact⟩ := h.entry e he
  rw [idOf_of_heap ht]
  exact ⟨⟨t, ht, rfl⟩, hact⟩

theorem Linked.nodup_due (h : q.Linked) (now : Int) : ((q.due now).map q.idOf).Nodup := by
  apply List.Nodup.map_on
  · intro e he e' he' heq
    exact h.entry_eq (mem_due.mp he).1 (mem_due.mp he').1 (congrArg ActiveTimer.timer heq)
  · exact q.timers.nodup.filter _

/-- The queue once the entries that are due are gone, and `A` is what their
removal leaves of the other set. -/
def expire (q : TimerQueue) (now : Int) (A : SortedSet ActiveTimer) : TimerQueue :=
  { q with timers := q.timers.notBelow ⟨now, UINTPTR_MAX⟩, activeTimers := A }

theorem mem_expire (h : q.Linked) (hbound : ∀ a t, q.heap a = some t → a < UINTPTR_MAX)
    {e : Entry} : e ∈ (q.expire now A).timers ↔ e ∈ q.timers ∧ now < e.when := by
  have hdue : e ∈ q.timers.below ⟨now, UINTPTR_MAX⟩ ↔ e ∈ q.timers ∧ e.when ≤ now := by
    rw [below_sentry h hbound, mem_due]
  rw [SortedSet.mem_below] at hdue
  show e ∈ q.timers.notBelow _ ↔ _
  rw [SortedSet.mem_notBelow]
  grind

theorem Linked.expire (h : q.Linked) (hbound : ∀ a t, q.heap a = some t → a < UINTPTR_MAX)
    (hperm : q.activeTimers.elems.Perm ((q.due now).map q.idOf ++ A.elems)) :
    (q.expire now A).Linked := by
  have hactive : ∀ i, i ∈ q.activeTimers ↔ i ∈ (q.due now).map q.idOf ∨ i ∈ A := by
    intro i
    rw [SortedSet.mem_def, hperm.mem_iff, mem_append, ← SortedSet.mem_def]
  constructor
  · intro e he
    obtain ⟨hold, hlate⟩ := (mem_expire h hbound).mp he
    obtain ⟨t, ht, hw, hact⟩ := h.entry e hold
    refine ⟨t, ht, hw, ?_⟩
    rcases (hactive _).mp hact with hdue | hA
    · -- a due entry of the same timer would be the same entry
      obtain ⟨e', he', heq⟩ := mem_map.mp hdue
      obtain ⟨hold', hearly⟩ := mem_due.mp he'
      have := h.entry_eq hold' hold (congrArg ActiveTimer.timer heq)
      grind
    · exact hA
  · intro i hi
    obtain ⟨t, ht, hs, hent⟩ := h.active i ((hactive i).mpr (.inr hi))
    refine ⟨t, ht, hs, (mem_expire h hbound).mpr ⟨hent, ?_⟩⟩
    by_contra hearly
    have hdue : (⟨t.expiration, i.timer⟩ : Entry) ∈ q.due now := mem_due.mpr ⟨hent, not_lt.mp hearly⟩
    have hid : q.idOf ⟨t.expiration, i.timer⟩ = i := by rw [idOf_of_heap ht, hs]
    have hnodup := hperm.nodup_iff.mp q.activeTimers.nodup
    exact (nodup_append.mp hnodup).2.2 i (hid ▸ mem_map_of_mem hdue) i hi rfl
  · have hsize := h.size
    have htimers := q.timers.size_notBelow ⟨now, UINTPTR_MAX⟩
    have hlength := hperm.length_eq
    rw [below_sentry h hbound] at htimers
    rw [length_append, length_map] at hlength
    show (q.timers.notBelow _).size = A.elems.length
    have hold : q.activeTimers.size = q.activeTimers.elems.length := rfl
    omega

theorem getExpired_spec (h : q.Linked) (hbound : ∀ a t, q.heap a = some t → a < UINTPTR_MAX)
    (now : Int) :
    ∃ A, q.getExpired now = .ok (q.expire now A, q.due now) ∧
      q.activeTimers.elems.Perm ((q.due now).map q.idOf ++ A.elems) := by
  have hin : ∀ e ∈ q.due now, q.Alive (q.idOf e) ∧ q.idOf e ∈ q.activeTimers := fun e he =>
    h.alive_idOf (mem_due.mp he).1
  obtain ⟨A, herase, hperm⟩ := eraseActive_spec
    (q := { q with timers := q.timers.notBelow ⟨now, UINTPTR_MAX⟩ })
    (fun e he => (hin e he).1) (fun e he => (hin e he).2) (h.nodup_due now)
  refine ⟨A, ?_, hperm⟩
  have hA : eraseActive { q with timers := q.timers.notBelow ⟨now, UINTPTR_MAX⟩ } (q.due now) =
      .ok (q.expire now A) := herase
  have hsentry : ∀ e ∈ (q.timers.notBelow ⟨now, UINTPTR_MAX⟩).begin, now < e.when := fun e he =>
    ((mem_expire h hbound (A := A)).mp (SortedSet.mem_of_begin he)).2
  rw [getExpired, check_of h.size]
  show (check _ _ >>= _) = _
  rw [check_of hsentry, below_sentry h hbound]
  show (eraseActive _ _ >>= _) = _
  rw [hA]
  show (check _ ((q.expire now A).timers.size = (q.expire now A).activeTimers.size) >>= _) = _
  rw [check_of (h.expire hbound hperm).size]
  rfl

/-! ## the ledger -/

/-- The part of the state that the invariant speaks about. -/
def core (q : TimerQueue) : TimerQueue :=
  { q with callingExpiredTimers := false, cancelingTimers := .empty,
           timerfd := ⟨none, false, 0⟩, clock := 0, batch := none, log := [] }

theorem Inv.congr {hand : List Entry} (h : Inv hand q)
    (hcore : q'.core = q.core) : Inv hand q' := by
  have hq : Inv hand q.core := { h with linked := h.linked.congr rfl rfl fun _ _ => rfl }
  rw [← hcore] at hq
  exact { hq with linked := hq.linked.congr rfl rfl fun _ _ => rfl }

section
variable {es : List Entry}

/-- The places where a timer may be are disjoint. -/
theorem Inv.disjoint (h : Inv es q) :
    (∀ i ∈ q.awaiting, ¬ i ∈ q.activeTimers) ∧ (∀ i ∈ q.awaiting, ∀ e ∈ es, i ≠ q.idOf e) ∧
      (∀ i ∈ q.activeTimers, ∀ e ∈ es, i ≠ q.idOf e) ∧ (es.map q.idOf).Nodup := by
  have hnodup := h.ledger.nodup_iff.mpr h.nodup
  simp only [append_assoc, nodup_append] at hnodup
  obtain ⟨-, ⟨-, ⟨hes, -⟩, hactive⟩, hawaiting⟩ := hnodup
  refine ⟨fun i hi hact => hawaiting i hi i (by simp [SortedSet.mem_def.mp hact]) rfl,
    fun i hi e he heq => hawaiting i hi i ?_ rfl, fun i hi e he heq => hactive i hi i ?_ rfl, hes⟩
  · have := mem_map_of_mem (f := q.idOf) he
    grind
  · have := mem_map_of_mem (f := q.idOf) he
    grind

theorem Alive.timer_ne (hi : q.Alive i) (hfree : q.heap a = none) : i.timer ≠ a := by
  intro heq
  obtain ⟨t, ht, -⟩ := hi
  rw [heq, hfree] at ht
  cases ht

theorem newTimer_heap (hi : q.Alive i) (hfree : q.heap a = none) (when : Int) (interval : Nat)
    (repeats : Bool) : (q.newTimer a when interval repeats).heap i.timer = q.heap i.timer :=
  update_of_ne (hi.timer_ne hfree) _ _

theorem Inv.newTimer (h : Inv es q) (hfree : q.heap a = none) (ha : a < UINTPTR_MAX) (when : Int)
    (interval : Nat) (repeats : Bool) : Inv es (q.newTimer a when interval repeats) := by
  have hsame : ∀ i, q.Alive i → (q.newTimer a when interval repeats).heap i.timer =
      q.heap i.timer := fun i hi => newTimer_heap hi hfree when interval repeats
  have hids : es.map (q.newTimer a when interval repeats).idOf = es.map q.idOf :=
    map_congr_left fun e he => idOf_congr (hsame _ (h.held e he))
  constructor
  · exact h.linked.congr rfl rfl fun i hi => hsame i (h.linked.alive hi)
  · intro i hi
    rcases mem_append.mp hi with hi | hi
    · exact (h.awaiting i hi).congr (hsame i (h.awaiting i hi))
    · obtain rfl := mem_singleton.mp hi
      exact ⟨_, update_self _ _ _, rfl⟩
  · intro e he
    have halive := h.held e he
    rw [idOf_congr (hsame _ halive)]
    exact halive.congr (hsame _ halive)
  · rw [hids, perm_iff_count]
    intro i
    have hcount := perm_iff_count.mp h.ledger i
    simp only [TimerQueue.newTimer, store, count_append] at hcount ⊢
    omega
  · rw [show (q.newTimer a when interval repeats).issued = q.issued ++ [⟨a, q.numCreated + 1⟩] from rfl,
      nodup_append]
    refine ⟨h.nodup, nodup_singleton _, fun i hi j hj heq => ?_⟩
    have hle := h.fresh i hi
    rw [heq, mem_singleton.mp hj] at hle
    exact absurd hle (Nat.not_succ_le_self _)
  · intro i hi
    rcases mem_append.mp hi with hi | hi
    · exact Nat.le_succ_of_le (h.fresh i hi)
    · rw [mem_singleton.mp hi]
      exact Nat.le_refl _
  · intro b t hb
    by_cases heq : b = a
    · exact heq ▸ ha
    · exact h.bound b t ((update_of_ne heq _ _).symm.trans hb)

theorem Inv.add (h : Inv es q) (hi : i ∈ q.awaiting) (ht : q.heap i.timer = some t)
    (hs : t.sequence = i.sequence) :
    Inv es (link { q with awaiting := q.awaiting.erase i } i.timer t) := by
  have hid : (⟨i.timer, t.sequence⟩ : ActiveTimer) = i := by rw [hs]
  have hnew : ¬ (⟨i.timer, t.sequence⟩ : ActiveTimer) ∈ q.activeTimers :=
    hid ▸ h.disjoint.1 i hi
  have hlinked : Linked { q with awaiting := q.awaiting.erase i } :=
    h.linked.congr rfl rfl fun _ _ => rfl
  refine { h with
    linked := hlinked.link ht hnew
    awaiting := fun j hj => h.awaiting j (mem_of_mem_erase hj)
    ledger := ?_ }
  rw [perm_iff_count]
  intro j
  have hcount := perm_iff_count.mp h.ledger j
  have herase := perm_iff_count.mp (perm_cons_erase hi) j
  have hinsert := perm_iff_count.mp (SortedSet.insert_perm hnew) j
  rw [hid] at hinsert
  simp only [TimerQueue.link, hid, count_append, count_cons] at hcount herase hinsert ⊢
  show _ + _ + List.count j (es.map q.idOf) + _ = _
  omega

/-- The timers of the hand are not those of the queue. -/
theorem Inv.unlink_heap (h : Inv es q) (hid : id ∈ q.activeTimers) (t : Timer) {e : Entry}
    (he : e ∈ es) : (q.unlink id t).heap e.timer = q.heap e.timer := by
  have hne : e.timer ≠ id.timer := fun heq =>
    h.disjoint.2.2.1 id hid e he ((h.linked.alive hid).eq (h.held e he) heq.symm)
  exact update_of_ne hne _ _

theorem Inv.unlink (h : Inv es q) (hid : id ∈ q.activeTimers)
    (hlinked : (q.unlink id t).Linked) : Inv es (q.unlink id t) := by
  have hother : ∀ b, b ≠ id.timer → (q.unlink id t).heap b = q.heap b := fun b hb =>
    update_of_ne hb _ _
  have hes : ∀ e ∈ es, (q.unlink id t).heap e.timer = q.heap e.timer := fun e he =>
    h.unlink_heap hid t he
  have hids : es.map (q.unlink id t).idOf = es.map q.idOf :=
    map_congr_left fun e he => idOf_congr (hes e he)
  constructor
  · exact hlinked
  · intro i hi
    have hne : i.timer ≠ id.timer := fun heq => by
      have hsame := (h.awaiting i hi).eq (h.linked.alive hid) heq
      exact h.disjoint.1 i hi (hsame ▸ hid)
    exact (h.awaiting i hi).congr (hother _ hne)
  · intro e he
    rw [idOf_congr (hes e he)]
    exact (h.held e he).congr (hes e he)
  · rw [hids, perm_iff_count]
    intro i
    have hcount := perm_iff_count.mp h.ledger i
    have herase := perm_iff_count.mp (SortedSet.erase_perm hid) i
    simp only [TimerQueue.unlink, release, count_append, count_cons, count_nil]
      at hcount herase ⊢
    omega
  · exact h.nodup
  · exact h.fresh
  · intro b t' hb
    by_cases heq : b = id.timer
    · obtain ⟨t₀, ht₀, -⟩ := h.linked.alive hid
      exact heq ▸ h.bound _ t₀ ht₀
    · exact h.bound b t' ((hother b heq).symm.trans hb)

theorem Inv.expire (h : Inv [] q)
    (hperm : q.activeTimers.elems.Perm ((q.due now).map q.idOf ++ A.elems)) :
    Inv (q.due now) (q.expire now A) := by
  refine ⟨h.linked.expire h.bound hperm, h.awaiting,
    fun e he => (h.linked.alive_idOf (mem_due.mp he).1).1, ?_, h.nodup, h.fresh, h.bound⟩
  rw [perm_iff_count]
  intro i
  have hcount := perm_iff_count.mp h.ledger i
  have hactive := perm_iff_count.mp hperm i
  simp only [map_nil, count_append, count_nil] at hcount hactive ⊢
  show _ + _ + List.count i ((q.due now).map q.idOf) + List.count i q.deleted = _
  show List.count i q.awaiting + List.count i A.elems + _ + _ = List.count i q.issued
  omega

/-! ## reset -/

/-- The part of the state that the loop of `reset` leaves alone. -/
def frame (q : TimerQueue) : TimerQueue :=
  { q with timers := .empty, activeTimers := .empty, heap := fun _ => none, deleted := [] }

/-- `reset` puts the timer of the entry back into the queue. -/
def Returns (q : TimerQueue) (e : Entry) : Prop :=
  ∃ t, q.heap e.timer = some t ∧ t.repeats = true ∧ ¬ q.idOf e ∈ q.cancelingTimers

variable {e : Entry}

theorem Inv.tail_ne (h : Inv (e :: es) q) {e' : Entry} (he' : e' ∈ es) : e'.timer ≠ e.timer := by
  intro heq
  have hsame := (h.held e' (mem_cons_of_mem e he')).eq (h.held e mem_cons_self) heq
  exact (nodup_cons.mp h.disjoint.2.2.2).1 (hsame ▸ mem_map_of_mem he')

theorem Inv.active_ne (h : Inv (e :: es) q) {i : ActiveTimer} (hi : i ∈ q.activeTimers) :
    i.timer ≠ e.timer := fun heq =>
  h.disjoint.2.2.1 i hi e mem_cons_self
    ((h.linked.alive hi).eq (h.held e mem_cons_self) heq)

theorem Inv.awaiting_ne (h : Inv (e :: es) q) (hi : i ∈ q.awaiting) : i.timer ≠ e.timer := fun heq =>
  h.disjoint.2.1 i hi e mem_cons_self
    ((h.awaiting i hi).eq (h.held e mem_cons_self) heq)

/-- The first entry of the hand is dealt with: its timer is now in the queue
or deleted, nothing else has changed. -/
theorem Inv.play (h : Inv (e :: es) q) (hother : ∀ b, b ≠ e.timer → q'.heap b = q.heap b)
    (hlinked : q'.Linked) (hawaiting : q'.awaiting = q.awaiting) (hissued : q'.issued = q.issued)
    (hnum : q'.numCreated = q.numCreated)
    (hcount : ∀ i, q'.activeTimers.elems.count i + q'.deleted.count i =
      (q.idOf e :: q.activeTimers.elems).count i + q.deleted.count i) : Inv es q' := by
  have hids : es.map q'.idOf = es.map q.idOf :=
    map_congr_left fun e' he' => idOf_congr (hother _ (h.tail_ne he'))
  constructor
  · exact hlinked
  · intro i hi
    rw [hawaiting] at hi
    exact (h.awaiting i hi).congr (hother _ (h.awaiting_ne hi))
  · intro e' he'
    rw [idOf_congr (hother _ (h.tail_ne he'))]
    exact (h.held e' (mem_cons_of_mem e he')).congr (hother _ (h.tail_ne he'))
  · rw [hids, hawaiting, hissued, perm_iff_count]
    intro i
    have hledger := perm_iff_count.mp h.ledger i
    have hone := hcount i
    simp only [map_cons, count_append, count_cons] at hledger hone ⊢
    omega
  · rw [hissued]
    exact h.nodup
  · rw [hissued, hnum]
    exact h.fresh
  · intro b t hb
    by_cases heq : b = e.timer
    · obtain ⟨t₀, ht₀, -⟩ := h.held e mem_cons_self
      exact heq ▸ h.bound _ t₀ ht₀
    · exact h.bound b t ((hother b heq).symm.trans hb)

/-- What the loop of `reset` does with one entry. -/
structure Played (q : TimerQueue) (now : Int) (e : Entry) (q' : TimerQueue) : Prop where
  frame : q'.frame = q.frame
  other : ∀ b, b ≠ e.timer → q'.heap b = q.heap b
  active : ∀ i, i ∈ q'.activeTimers ↔ i ∈ q.activeTimers ∨ q.Returns e ∧ q.idOf e = i
  back : ∀ t, q.heap e.timer = some t → q.Returns e → q'.heap e.timer = some (t.restart now)

theorem rearm_returns (h : Inv (e :: es) q) (ht : q.heap e.timer = some t) (hreturns : q.Returns e)
    (now : Int) :
    ∃ q', (q.store e.timer (t.restart now)).insert e.timer =
        .ok (q', (q.store e.timer (t.restart now)).earliestChanged (t.restart now).expiration) ∧
      Inv es q' ∧ q.Played now e q' := by
  have hid : q.idOf e = ⟨e.timer, (t.restart now).sequence⟩ := by
    rw [idOf_of_heap ht, Timer.restart_sequence]
  have hnew : ¬ (⟨e.timer, (t.restart now).sequence⟩ : ActiveTimer) ∈ q.activeTimers := fun hmem =>
    h.active_ne hmem rfl
  have hheap : (q.store e.timer (t.restart now)).heap e.timer = some (t.restart now) :=
    update_self _ _ _
  have hother : ∀ b, b ≠ e.timer → (q.store e.timer (t.restart now)).heap b = q.heap b :=
    fun b hb => update_of_ne hb _ _
  have hlinked : (q.store e.timer (t.restart now)).Linked :=
    h.linked.congr rfl rfl fun i hi => hother _ (h.active_ne hi)
  refine ⟨_, insert_spec hlinked hheap hnew, h.play hother (hlinked.link hheap hnew) rfl rfl rfl ?_,
    rfl, hother, ?_, ?_⟩
  · intro i
    have hperm := perm_iff_count.mp (SortedSet.insert_perm hnew) i
    rw [hid]
    exact congrArg (· + q.deleted.count i) hperm
  · intro i
    show i ∈ (q.activeTimers.insert _).1 ↔ _
    rw [SortedSet.mem_insert, hid]
    grind
  · intro t' ht' _
    obtain rfl : t = t' := Option.some.inj (ht.symm.trans ht')
    exact hheap

theorem rearm_deletes (h : Inv (e :: es) q) (hreturns : ¬ q.Returns e) (now : Int) :
    Inv es (q.release (q.idOf e)) ∧ q.Played now e (q.release (q.idOf e)) := by
  have hother : ∀ b, b ≠ e.timer → (q.release (q.idOf e)).heap b = q.heap b :=
    fun b hb => update_of_ne hb _ _
  refine ⟨h.play hother (h.linked.congr rfl rfl fun i hi => hother _ (h.active_ne hi)) rfl rfl rfl ?_,
    rfl, hother, ?_, fun _ _ hr => absurd hr hreturns⟩
  · intro i
    simp only [release, count_append, count_cons, count_nil]
    omega
  · intro i
    simp only [hreturns, false_and, or_false]
    rfl

theorem rearm_cons (h : Inv (e :: es) q) (now : Int) :
    ∃ q', q.rearm now (e :: es) = q'.rearm now es ∧ Inv es q' ∧ q.Played now e q' := by
  obtain ⟨t, ht, -⟩ := h.held e mem_cons_self
  rw [idOf_timer] at ht
  have hderef : q.deref e.timer = .ok t := by simp [deref, ht]
  by_cases hreturns : q.Returns e
  · obtain ⟨q', hinsert, hinv, hplayed⟩ := rearm_returns h ht hreturns now
    refine ⟨q', ?_, hinv, hplayed⟩
    have hcond : t.repeats = true ∧ ¬ (⟨e.timer, t.sequence⟩ : ActiveTimer) ∈ q.cancelingTimers := by
      obtain ⟨t', ht', hr, hc⟩ := hreturns
      obtain rfl : t = t' := Option.some.inj (ht.symm.trans ht')
      exact ⟨hr, idOf_of_heap ht ▸ hc⟩
    rw [rearm, hderef]
    show ite _ _ _ = _
    rw [if_pos hcond, hinsert]
    rfl
  · refine ⟨_, ?_, rearm_deletes h hreturns now⟩
    have hcond : ¬ (t.repeats = true ∧
        ¬ (⟨e.timer, t.sequence⟩ : ActiveTimer) ∈ q.cancelingTimers) := fun hc =>
      hreturns ⟨t, ht, hc.1, (idOf_of_heap ht).symm ▸ hc.2⟩
    have hdelete : q.delete e.timer = .ok (q.release (q.idOf e)) := by
      simp [delete, ht, idOf_of_heap ht]
    rw [rearm, hderef]
    show ite _ _ _ = _
    rw [if_neg hcond, hdelete]
    rfl

/-- What the loop of `reset` does. -/
structure Rearmed (q : TimerQueue) (now : Int) (es : List Entry) (q' : TimerQueue) : Prop where
  inv : Inv [] q'
  frame : q'.frame = q.frame
  active : ∀ i, i ∈ q'.activeTimers ↔ i ∈ q.activeTimers ∨ ∃ e ∈ es, q.Returns e ∧ q.idOf e = i
  heap : ∀ i ∈ q.activeTimers, q'.heap i.timer = q.heap i.timer
  back : ∀ e ∈ es, ∀ t, q.heap e.timer = some t → q.Returns e →
    q'.heap e.timer = some (t.restart now)

/-- Whether a timer returns depends on it and on `cancelingTimers_`. -/
theorem Played.returns_iff (h : q.Played now e q') {e' : Entry}
    (hne : e'.timer ≠ e.timer) : q'.Returns e' ↔ q.Returns e' := by
  have hcanceling : q'.cancelingTimers = q.cancelingTimers :=
    (congrArg TimerQueue.cancelingTimers h.frame :)
  simp only [Returns, h.other _ hne, hcanceling, idOf_congr (h.other _ hne)]

theorem rearm_spec (h : Inv es q) (now : Int) :
    ∃ q', q.rearm now es = .ok q' ∧ q.Rearmed now es q' := by
  induction es generalizing q with
  | nil => exact ⟨q, rfl, h, rfl, by simp, fun _ _ => rfl, by simp⟩
  | cons e es ih =>
    obtain ⟨q₁, hcons, hinv, hplayed⟩ := rearm_cons h now
    obtain ⟨q', hrun, hrest⟩ := ih hinv
    refine ⟨q', hcons.trans hrun, hrest.inv, hrest.frame.trans hplayed.frame, ?_, ?_, ?_⟩
    · intro i
      have hes : (∃ e' ∈ es, q₁.Returns e' ∧ q₁.idOf e' = i) ↔
          ∃ e' ∈ es, q.Returns e' ∧ q.idOf e' = i := by
        apply exists_congr
        intro e'
        apply and_congr_right
        intro he'
        rw [hplayed.returns_iff (h.tail_ne he'), idOf_congr (hplayed.other _ (h.tail_ne he'))]
      rw [hrest.active, hplayed.active, hes]
      simp only [exists_mem_cons_iff, or_assoc]
    · intro i hi
      rw [hrest.heap i ((hplayed.active i).mpr (.inl hi)), hplayed.other _ (h.active_ne hi)]
    · intro e' he' t ht hreturns
      rcases mem_cons.mp he' with rfl | he'
      · have hkept := hrest.heap (q.idOf e') ((hplayed.active _).mpr (.inr ⟨hreturns, rfl⟩))
        exact hkept.trans (hplayed.back t ht hreturns)
      · exact hrest.back e' he' t ((hplayed.other _ (h.tail_ne he')).trans ht)
          ((hplayed.returns_iff (h.tail_ne he')).mpr hreturns)

/-- The last part of `reset`: the timerfd is set for the first entry. -/
def setForFirst (q : TimerQueue) : TimerQueue :=
  match q.timers.begin with
  | none => q
  | some e => if Timestamp.valid e.when then q.resetTimerfd e.when else q

theorem setForFirst_eq (q : TimerQueue) :
    q.setForFirst = { q with timerfd := q.setForFirst.timerfd } := by
  unfold setForFirst
  split
  · rfl
  · split <;> rfl

/-- Setting the timerfd changes nothing else. -/
theorem setForFirst_proj {α : Type} (q : TimerQueue) (f : TimerQueue → α)
    (hf : ∀ fd, f { q with timerfd := fd } = f q) : f q.setForFirst = f q := by
  rw [setForFirst_eq]
  exact hf _

theorem reset_spec (h : Inv es q) (now : Int) :
    ∃ q', q.reset es now = .ok q'.setForFirst ∧ q.Rearmed now es q' := by
  obtain ⟨q', hrun, hrearmed⟩ := rearm_spec h now
  refine ⟨q', ?_, hrearmed⟩
  rw [reset, hrun]
  show (match q'.timers.begin with
    | none => pure q'
    | some e => q'.deref e.timer >>= _) = _
  unfold setForFirst
  cases hfirst : q'.timers.begin with
  | none => rfl
  | some e =>
    obtain ⟨t, ht, hwhen, -⟩ := hrearmed.inv.linked.entry e (SortedSet.mem_of_begin hfirst)
    have hderef : q'.deref e.timer = .ok t := by simp [deref, ht]
    show (q'.deref e.timer >>= _) = .ok (if Timestamp.valid e.when then q'.resetTimerfd e.when else q')
    rw [hderef, ← hwhen]
    rfl

end

/-- The state in which the callbacks of a batch start. -/
def begun (q : TimerQueue) (A : SortedSet ActiveTimer) : TimerQueue :=
  { q.readTimerfd.expire q.clock A with
    callingExpiredTimers := true, cancelingTimers := .empty,
    batch := some ⟨q.clock, q.due q.clock, q.due q.clock⟩ }

/-- The state in which `reset` is called. -/
def ended (q : TimerQueue) : TimerQueue :=
  { q with callingExpiredTimers := false, batch := none }

/-- A timer is no longer waiting for its `addTimerInLoop`. -/
def collect (q : TimerQueue) (id : TimerId) : TimerQueue :=
  { q with awaiting := q.awaiting.erase id }

/-- What each step does, in a state where the invariant holds. -/
inductive Stepped (q : TimerQueue) : Label → TimerQueue → Prop
  | skip {a : Label} (h : ∀ id, a ≠ .cancelInLoop id)
      (hrun : a = .runCallback → ∀ b ∈ q.batch, b.remaining = []) : Stepped q a q
  | newTimer {a : Nat} (when : Int) (interval : Nat) (repeats : Bool) (hfree : q.heap a = none)
      (ha : a < UINTPTR_MAX) :
      Stepped q (.addTimer a when interval repeats) (q.newTimer a when interval repeats)
  | otherTimer : Stepped q .otherTimer { q with numCreated := q.numCreated + 1 }
  | add {id : TimerId} {t : Timer} (hid : id ∈ q.awaiting) (ht : q.heap id.timer = some t)
      (hs : t.sequence = id.sequence) :
      Stepped q (.addTimerInLoop id) (if q.earliestChanged t.expiration then
        ((q.collect id).link id.timer t).resetTimerfd t.expiration
        else (q.collect id).link id.timer t)
  | cancelActive {id : TimerId} {t : Timer} (hid : id ∈ q.activeTimers)
      (hlinked : ((q.record (.cancelled id)).unlink id t).Linked) :
      Stepped q (.cancelInLoop id) ((q.record (.cancelled id)).unlink id t)
  | cancelOther {id : TimerId} (hid : ¬ id ∈ q.activeTimers) :
      Stepped q (.cancelInLoop id) (if q.callingExpiredTimers then
        { q.record (.cancelled id) with cancelingTimers := (q.cancelingTimers.insert id).1 }
        else q.record (.cancelled id))
  | clock (t : Int) : Stepped q (.clock t) { q with clock := t, timerfd := q.timerfd.elapse t }
  | begun {A : SortedSet ActiveTimer} (hidle : q.batch = none)
      (hperm : q.activeTimers.elems.Perm ((q.due q.clock).map q.idOf ++ A.elems)) :
      Stepped q .handleRead (q.begun A)
  | run {b : Batch} {e : Entry} {es : List Entry} (hb : q.batch = some b)
      (hes : b.remaining = e :: es) :
      Stepped q .runCallback
        (record { q with batch := some { b with remaining := es } } (.started (q.idOf e)))
  | finish {b : Batch} {q' : TimerQueue} (hb : q.batch = some b) (hes : b.remaining = [])
      (hrearmed : q.ended.Rearmed b.now b.expired q') :
      Stepped q .finishRead q'.setForFirst

/-- What holds in every state. -/
structure QueueInv (q : TimerQueue) : Prop where
  inv : Inv q.hand q
  calling : q.callingExpiredTimers = q.batch.isSome
  remaining : ∀ b ∈ q.batch, b.remaining <:+ b.expired

theorem hand_of_batch (h : q.batch = some b) : q.hand = b.expired := by
  simp [hand, h]

theorem hand_of_idle (h : q.batch = none) : q.hand = [] := by
  simp [hand, h]

theorem QueueInv.inv_idle (h : q.QueueInv) (hidle : q.batch = none) : Inv [] q :=
  hand_of_idle hidle ▸ h.inv

theorem QueueInv.inv_batch (h : q.QueueInv) (hb : q.batch = some b) :
    Inv b.expired q := hand_of_batch hb ▸ h.inv

theorem QueueInv.step_add (h : q.QueueInv) (hid : id ∈ q.awaiting) :
    ∃ q', q.step (.addTimerInLoop id) = .ok q' ∧ q.Stepped (.addTimerInLoop id) q' := by
  obtain ⟨t, ht, hs⟩ := h.inv.awaiting id hid
  have hnew : ¬ (⟨id.timer, t.sequence⟩ : ActiveTimer) ∈ q.activeTimers :=
    hs ▸ h.inv.disjoint.1 id hid
  have hlinked : (q.collect id).Linked := h.inv.linked.congr rfl rfl fun _ _ => rfl
  refine ⟨_, ?_, .add hid ht hs⟩
  simp only [step, if_pos hid]
  exact addTimerInLoop_spec hlinked ht hnew

theorem QueueInv.step_cancel (h : q.QueueInv) (id : TimerId) :
    ∃ q', q.step (.cancelInLoop id) = .ok q' ∧ q.Stepped (.cancelInLoop id) q' := by
  have hlinked : (q.record (.cancelled id)).Linked := h.inv.linked.congr rfl rfl fun _ _ => rfl
  by_cases hid : id ∈ q.activeTimers
  · obtain ⟨t, -, hcancel, hlinked'⟩ := cancelInLoop_of_active hlinked hid
    exact ⟨_, hcancel, .cancelActive hid hlinked'⟩
  · exact ⟨_, cancelInLoop_of_not_active hlinked hid, .cancelOther hid⟩

theorem QueueInv.step_handleRead (h : q.QueueInv) (hidle : q.batch = none) :
    ∃ A, q.step .handleRead = .ok (q.begun A) ∧
      q.activeTimers.elems.Perm ((q.due q.clock).map q.idOf ++ A.elems) := by
  have hinv : Inv [] q.readTimerfd := (h.inv_idle hidle).congr rfl
  obtain ⟨A, hget, hperm⟩ := getExpired_spec hinv.linked hinv.bound q.clock
  refine ⟨A, ?_, hperm⟩
  simp only [step, hidle]
  rw [TimerQueue.handleRead, hget]
  rfl

theorem QueueInv.step_run (h : q.QueueInv) {e : Entry} {es : List Entry} (hb : q.batch = some b)
    (hes : b.remaining = e :: es) :
    ∃ q', q.step .runCallback = .ok q' ∧ q.Stepped .runCallback q' := by
  have hmem : e ∈ b.expired := (h.remaining b hb).subset (hes ▸ mem_cons_self)
  obtain ⟨t, ht, -⟩ := (h.inv_batch hb).held e hmem
  rw [idOf_timer] at ht
  have hderef : q.deref e.timer = .ok t := by simp [deref, ht]
  refine ⟨_, ?_, .run hb hes⟩
  simp only [step, hb, hes]
  rw [TimerQueue.runCallback, hderef, idOf_of_heap ht]
  rfl

theorem QueueInv.step_finish (h : q.QueueInv) (hb : q.batch = some b) (hes : b.remaining = []) :
    ∃ q', q.step .finishRead = .ok q'.setForFirst ∧ q.ended.Rearmed b.now b.expired q' := by
  have hinv : Inv b.expired q.ended := (h.inv_batch hb).congr rfl
  obtain ⟨q', hreset, hrearmed⟩ := reset_spec hinv b.now
  refine ⟨q', ?_, hrearmed⟩
  simp only [step, hb, hes]
  exact hreset

/-- **Steps.** No step fails, and what it does. -/
theorem step_spec (h : q.QueueInv) (a : Label) : ∃ q', q.step a = .ok q' ∧ q.Stepped a q' := by
  cases a with
  | addTimer timer when interval repeats =>
    by_cases hfree : q.heap timer = none ∧ timer < UINTPTR_MAX
    · exact ⟨_, if_pos hfree, .newTimer when interval repeats hfree.1 hfree.2⟩
    · exact ⟨_, if_neg hfree, .skip (by simp) (by simp)⟩
  | otherTimer => exact ⟨_, rfl, .otherTimer⟩
  | addTimerInLoop id =>
    by_cases hid : id ∈ q.awaiting
    · exact h.step_add hid
    · exact ⟨_, if_neg hid, .skip (by simp) (by simp)⟩
  | cancelInLoop id => exact h.step_cancel id
  | clock t => exact ⟨_, rfl, .clock t⟩
  | handleRead =>
    cases hb : q.batch with
    | none =>
      obtain ⟨A, hread, hperm⟩ := h.step_handleRead hb
      exact ⟨_, hread, .begun hb hperm⟩
    | some b => exact ⟨q, by simp [step, hb], .skip (by simp) (by simp)⟩
  | runCallback =>
    cases hb : q.batch with
    | none => exact ⟨q, by simp [step, hb], .skip (by simp) (by simp [hb])⟩
    | some b =>
      cases hes : b.remaining with
      | nil => exact ⟨q, by simp [step, hb, hes], .skip (by simp) (by simp [hb, hes])⟩
      | cons e es => exact h.step_run hb hes
  | finishRead =>
    cases hb : q.batch with
    | none => exact ⟨q, by simp [step, hb], .skip (by simp) (by simp)⟩
    | some b =>
      cases hes : b.remaining with
      | nil =>
        obtain ⟨q', hfinish, hrearmed⟩ := h.step_finish hb hes
        exact ⟨_, hfinish, .finish hb hes hrearmed⟩
      | cons e es => exact ⟨q, by simp [step, hb, hes], .skip (by simp) (by simp)⟩

end

end Muduo.TimerQueue
