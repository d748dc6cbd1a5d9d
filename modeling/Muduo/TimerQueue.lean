import Mathlib.Data.Prod.Lex
import Muduo.Lib.Outcome
import Muduo.Lib.SortedSet

/-!
# Muduo.TimerQueue

`muduo::net::TimerQueue` with its `Timer` objects and its timerfd.

A `Timer*` is an address, a `Timer` lives in `heap` from `new` to `delete`,
and an address may be handed out again once it is free.  Reading a `Timer`
that is gone and deleting one twice are faults, as a failed assertion is.

`handleRead` calls user code in the middle of its loop, and that code may add
and cancel timers.  It is split where that happens: `handleRead` runs up to
the loop, `runCallback` starts the next callback of the batch, `finishRead`
is what follows the loop.  `batch` holds the locals of `handleRead` between
them.

`issued`, `deleted` and `log` record what has happened; no code reads them.
-/

namespace Muduo

open Lib

/-! ## timers -/

/-- The largest address, which no object has. -/
def UINTPTR_MAX : Nat := 2 ^ 64 - 1

/-- `Timestamp::valid`: a time is in microseconds since the Epoch, and zero is
the invalid one. -/
abbrev Timestamp.valid (t : Int) : Prop := 0 < t

/-- `muduo::net::Timer`.  The interval is what `addTime` adds: whole
microseconds. -/
structure Timer where
  expiration : Int
  interval : Nat
  repeats : Bool
  sequence : Nat
deriving DecidableEq

def Timer.restart (t : Timer) (now : Int) : Timer :=
  if t.repeats then { t with expiration := now + t.interval } else { t with expiration := 0 }

@[simp] theorem Timer.restart_sequence (t : Timer) (now : Int) :
    (t.restart now).sequence = t.sequence := by
  unfold Timer.restart
  split <;> rfl

/-- `TimerQueue::Entry`, ordered by time and then by address. -/
structure Entry where
  when : Int
  timer : Nat
deriving DecidableEq

/-- `TimerQueue::ActiveTimer`, and what a `TimerId` holds; ordered by address
and then by sequence number. -/
structure ActiveTimer where
  timer : Nat
  sequence : Nat
deriving DecidableEq

abbrev TimerId := ActiveTimer

instance : LinearOrder Entry :=
  LinearOrder.lift' (fun e => toLex (e.when, e.timer)) fun e e' h => by
    cases e
    cases e'
    simpa using h

instance : LinearOrder ActiveTimer :=
  LinearOrder.lift' (fun i => toLex (i.timer, i.sequence)) fun i i' h => by
    cases i
    cases i'
    simpa using h

theorem Entry.lt_iff {e e' : Entry} :
    e < e' ↔ e.when < e'.when ∨ e.when = e'.when ∧ e.timer < e'.timer :=
  Prod.Lex.toLex_lt_toLex

theorem Entry.when_le_of_le {e e' : Entry} (h : e ≤ e') : e.when ≤ e'.when := by
  rcases Prod.Lex.toLex_le_toLex.mp h with hlt | heq
  · exact le_of_lt hlt
  · exact le_of_eq heq.1

/-! ## timerfd -/

/-- `struct timespec`. -/
structure Timespec where
  tv_sec : Int
  tv_nsec : Int
deriving DecidableEq

def kMicroSecondsPerSecond : Int := 1000 * 1000

/-- `howMuchTimeFromNow(when)` at the time `now`. -/
def howMuchTimeFromNow (now when : Int) : Timespec :=
  let microseconds := if when - now < 100 then 100 else when - now
  ⟨microseconds / kMicroSecondsPerSecond, microseconds % kMicroSecondsPerSecond * 1000⟩

/-- The kernel's side of a timerfd: when it will next expire, whether it has
expired and not been read since, and when it was last set. -/
structure Timerfd where
  deadline : Option Int
  readable : Bool
  lastSet : Int
deriving DecidableEq

/-- `timerfd_settime` with a relative time and no period: the new deadline
replaces the old one and the descriptor is no longer readable.  A zero time
disarms it, a time out of range is refused. -/
def Timerfd.settime (fd : Timerfd) (clock : Int) (ts : Timespec) : Timerfd :=
  if 0 ≤ ts.tv_sec ∧ 0 ≤ ts.tv_nsec ∧ ts.tv_nsec < 1000000000 then
    if ts.tv_sec = 0 ∧ ts.tv_nsec = 0 then ⟨none, false, clock⟩
    else ⟨some (clock + ts.tv_sec * kMicroSecondsPerSecond + ts.tv_nsec / 1000), false, clock⟩
  else fd

/-- The time has come to `clock`. -/
def Timerfd.elapse (fd : Timerfd) (clock : Int) : Timerfd :=
  match fd.deadline with
  | some d => if d ≤ clock then { fd with deadline := none, readable := true } else fd
  | none => fd

/-! ## the queue -/

inductive TimerQueue.Assert
  | insertSizes | insertTimers | insertActiveTimers | insertSizesAfter
  | cancelSizes | cancelErase | cancelSizesAfter
  | expiredSizes | expiredSentry | expiredErase | expiredSizesAfter
deriving DecidableEq

inductive TimerQueue.Fault
  | assertion (a : TimerQueue.Assert)
  | useAfterFree (timer : Nat)
  | doubleFree (timer : Nat)
deriving DecidableEq

inductive TimerQueue.Event
  | cancelled (id : TimerId)
  | started (id : TimerId)
deriving DecidableEq

/-- The locals of `handleRead` while it runs the callbacks: the time it read,
the expired entries, and those whose callback has not been started. -/
structure Batch where
  now : Int
  expired : List Entry
  remaining : List Entry
deriving DecidableEq

structure TimerQueue where
  timers : SortedSet Entry
  activeTimers : SortedSet ActiveTimer
  callingExpiredTimers : Bool
  cancelingTimers : SortedSet ActiveTimer
  timerfd : Timerfd
  clock : Int
  heap : Nat → Option Timer
  numCreated : Nat
  /-- Timers that `addTimer` has created and whose `addTimerInLoop` has not run. -/
  awaiting : List TimerId
  batch : Option Batch
  issued : List TimerId
  deleted : List TimerId
  log : List TimerQueue.Event

namespace TimerQueue

/-- `TimerQueue::TimerQueue`, at the time `clock`. -/
def create (clock : Int) : TimerQueue where
  timers := .empty
  activeTimers := .empty
  callingExpiredTimers := false
  cancelingTimers := .empty
  timerfd := ⟨none, false, clock⟩
  clock := clock
  heap := fun _ => none
  numCreated := 0
  awaiting := []
  batch := none
  issued := []
  deleted := []
  log := []

/-- `*timer`. -/
def deref (q : TimerQueue) (timer : Nat) : Except Fault Timer :=
  match q.heap timer with
  | some t => .ok t
  | none => .error (.useAfterFree timer)

/-- Store to `*timer`. -/
def store (q : TimerQueue) (timer : Nat) (t : Timer) : TimerQueue :=
  { q with heap := Function.update q.heap timer (some t) }

/-- The memory of `timer` is free again; `id` is the timer that was there. -/
def release (q : TimerQueue) (id : TimerId) : TimerQueue :=
  { q with heap := Function.update q.heap id.timer none, deleted := q.deleted ++ [id] }

/-- `delete timer`. -/
def delete (q : TimerQueue) (timer : Nat) : Except Fault TimerQueue :=
  match q.heap timer with
  | some t => .ok (q.release ⟨timer, t.sequence⟩)
  | none => .error (.doubleFree timer)

/-- `readTimerfd`: a timerfd that has not expired is left as it is. -/
def readTimerfd (q : TimerQueue) : TimerQueue :=
  { q with timerfd := { q.timerfd with readable := false } }

def resetTimerfd (q : TimerQueue) (expiration : Int) : TimerQueue :=
  { q with timerfd := q.timerfd.settime q.clock (howMuchTimeFromNow q.clock expiration) }

/-- The two sets with the timer `t` at `timer` in both. -/
def link (q : TimerQueue) (timer : Nat) (t : Timer) : TimerQueue :=
  { q with timers := (q.timers.insert ⟨t.expiration, timer⟩).1,
           activeTimers := (q.activeTimers.insert ⟨timer, t.sequence⟩).1 }

/-- Whether a timer that expires at `when` would be the first of the queue. -/
def earliestChanged (q : TimerQueue) (when : Int) : Bool :=
  match q.timers.begin with
  | none => true
  | some e => decide (when < e.when)

/-- `insert(timer)`: returns `earliestChanged`. -/
def insert (q : TimerQueue) (timer : Nat) : Except Fault (TimerQueue × Bool) := do
  check (.assertion .insertSizes) (q.timers.size = q.activeTimers.size)
  let t ← q.deref timer
  let earliestChanged := q.earliestChanged t.expiration
  check (.assertion .insertTimers) ((q.timers.insert ⟨t.expiration, timer⟩).2 = true)
  check (.assertion .insertActiveTimers)
    ((q.activeTimers.insert ⟨timer, t.sequence⟩).2 = true)
  let q := q.link timer t
  check (.assertion .insertSizesAfter) (q.timers.size = q.activeTimers.size)
  return (q, earliestChanged)

def addTimerInLoop (q : TimerQueue) (timer : Nat) : Except Fault TimerQueue := do
  let (q, earliestChanged) ← q.insert timer
  let t ← q.deref timer
  return if earliestChanged then q.resetTimerfd t.expiration else q

/-- The branch of `cancelInLoop` for a timer in `activeTimers_`. -/
def cancelActive (q : TimerQueue) (id : TimerId) : Except Fault TimerQueue := do
  let t ← q.deref id.timer
  let erased := q.timers.erase ⟨t.expiration, id.timer⟩
  check (.assertion .cancelErase) (erased.2 = 1)
  let q ← delete { q with timers := erased.1 } id.timer
  return { q with activeTimers := (q.activeTimers.erase id).1 }

def cancelInLoop (q : TimerQueue) (id : TimerId) : Except Fault TimerQueue := do
  check (.assertion .cancelSizes) (q.timers.size = q.activeTimers.size)
  let q ←
    if id ∈ q.activeTimers then q.cancelActive id
    else if q.callingExpiredTimers then
      .ok { q with cancelingTimers := (q.cancelingTimers.insert id).1 }
    else .ok q
  check (.assertion .cancelSizesAfter) (q.timers.size = q.activeTimers.size)
  return q

/-- The loop of `getExpired` over the expired entries. -/
def eraseActive (q : TimerQueue) : List Entry → Except Fault TimerQueue
  | [] => .ok q
  | e :: es => do
    let t ← q.deref e.timer
    let erased := q.activeTimers.erase ⟨e.timer, t.sequence⟩
    check (.assertion .expiredErase) (erased.2 = 1)
    eraseActive { q with activeTimers := erased.1 } es

def getExpired (q : TimerQueue) (now : Int) : Except Fault (TimerQueue × List Entry) := do
  check (.assertion .expiredSizes) (q.timers.size = q.activeTimers.size)
  let sentry : Entry := ⟨now, UINTPTR_MAX⟩
  let rest := q.timers.notBelow sentry
  check (.assertion .expiredSentry) (∀ e ∈ rest.begin, now < e.when)
  let expired := q.timers.below sentry
  let q ← eraseActive { q with timers := rest } expired
  check (.assertion .expiredSizesAfter) (q.timers.size = q.activeTimers.size)
  return (q, expired)

/-- The loop of `reset`: a repeating timer that was not cancelled goes back
into the queue, any other is deleted. -/
def rearm (q : TimerQueue) (now : Int) : List Entry → Except Fault TimerQueue
  | [] => .ok q
  | e :: es => do
    let t ← q.deref e.timer
    if t.repeats = true ∧ ¬ (⟨e.timer, t.sequence⟩ : ActiveTimer) ∈ q.cancelingTimers then
      let (q, _) ← (q.store e.timer (t.restart now)).insert e.timer
      q.rearm now es
    else
      let q ← q.delete e.timer
      q.rearm now es

/-- `reset(expired, now)`.  The `nextExpire` of an empty queue is not valid. -/
def reset (q : TimerQueue) (expired : List Entry) (now : Int) : Except Fault TimerQueue := do
  let q ← q.rearm now expired
  match q.timers.begin with
  | none => return q
  | some e => do
    let t ← q.deref e.timer
    return if Timestamp.valid t.expiration then q.resetTimerfd t.expiration else q

/-- `handleRead`, up to its loop. -/
def handleRead (q : TimerQueue) : Except Fault TimerQueue := do
  let now := q.clock
  let (q, expired) ← q.readTimerfd.getExpired now
  return { q with callingExpiredTimers := true, cancelingTimers := .empty,
                  batch := some ⟨now, expired, expired⟩ }

def record (q : TimerQueue) (ev : Event) : TimerQueue := { q with log := q.log ++ [ev] }

/-- `it.second->run()` for the next expired entry. -/
def runCallback (q : TimerQueue) (b : Batch) (e : Entry) (es : List Entry) :
    Except Fault TimerQueue := do
  let t ← q.deref e.timer
  return record { q with batch := some { b with remaining := es } } (.started ⟨e.timer, t.sequence⟩)

/-- `handleRead`, after its loop. -/
def finishRead (q : TimerQueue) (b : Batch) : Except Fault TimerQueue :=
  reset { q with callingExpiredTimers := false, batch := none } b.expired b.now

inductive Label
  /-- `addTimer`, on any thread, up to `runInLoop`: `new` returned `timer`. -/
  | addTimer (timer : Nat) (when : Int) (interval : Nat) (repeats : Bool)
  /-- A `Timer` of another queue, which counts in `s_numCreated_` as well. -/
  | otherTimer
  | addTimerInLoop (id : TimerId)
  | cancelInLoop (id : TimerId)
  | clock (t : Int)
  | handleRead
  | runCallback
  | finishRead
deriving DecidableEq

/-- `new Timer(cb, when, interval)` at `timer`. -/
def newTimer (q : TimerQueue) (timer : Nat) (when : Int) (interval : Nat) (repeats : Bool) :
    TimerQueue :=
  let sequence := q.numCreated + 1
  { q.store timer ⟨when, interval, repeats, sequence⟩ with
    numCreated := sequence,
    awaiting := q.awaiting ++ [⟨timer, sequence⟩],
    issued := q.issued ++ [⟨timer, sequence⟩] }

/-- One step.  A step that is not possible in a state leaves it unchanged: an
address that is in use is not handed out, the functor of `addTimerInLoop` runs
once, and `handleRead` is not entered from a callback. -/
def step (q : TimerQueue) : Label → Except Fault TimerQueue
  | .addTimer timer when interval repeats =>
    if q.heap timer = none ∧ timer < UINTPTR_MAX then
      .ok (q.newTimer timer when interval repeats)
    else .ok q
  | .otherTimer => .ok { q with numCreated := q.numCreated + 1 }
  | .addTimerInLoop id =>
    if id ∈ q.awaiting then
      addTimerInLoop { q with awaiting := q.awaiting.erase id } id.timer
    else .ok q
  | .cancelInLoop id => (q.record (.cancelled id)).cancelInLoop id
  | .clock t => .ok { q with clock := t, timerfd := q.timerfd.elapse t }
  | .handleRead => match q.batch with
    | none => q.handleRead
    | some _ => .ok q
  | .runCallback => match q.batch with
    | none => .ok q
    | some b => match b.remaining with
      | [] => .ok q
      | e :: es => q.runCallback b e es
  | .finishRead => match q.batch with
    | none => .ok q
    | some b => match b.remaining with
      | [] => q.finishRead b
      | _ :: _ => .ok q

end TimerQueue

end Muduo
