import Muduo.Lib.Outcome

/-!
# Muduo.Channel

`Channel` (`net/Channel.{h,cc}`) with the part of `EventLoop` and the
`EPollPoller` (`net/poller/EPollPoller.cc`) that its updates go through.

A channel holds the events it is interested in and the poller's index for
it; the poller holds the map from descriptors to channels; the kernel holds
the interest list of the epoll instance.  Every `epoll_ctl(2)` is recorded in
`EPollPoller.calls`.

`updateChannel_eq` and `removeChannel_eq` say what the poller does for a channel
that it tracks.  The result for the users of a channel is `setEvents_spec`: on a
channel that the poller tracks (`Tracked`), no assertion of the poller fails, no
`epoll_ctl` is invalid, and the channel is tracked afterwards.
-/

namespace Muduo

open Lib

/-! ## poll(2) events -/

/-- A set of `poll(2)` / `epoll(7)` event bits. -/
@[ext] structure Events where
  pollIn : Bool := false
  pollPri : Bool := false
  pollOut : Bool := false
  pollErr : Bool := false
  pollHup : Bool := false
  pollNval : Bool := false
  pollRdhup : Bool := false
deriving DecidableEq, Repr

namespace Events

/-- Bitwise operation on the event sets, bit by bit. -/
def zipWith (f : Bool → Bool → Bool) (a b : Events) : Events where
  pollIn := f a.pollIn b.pollIn
  pollPri := f a.pollPri b.pollPri
  pollOut := f a.pollOut b.pollOut
  pollErr := f a.pollErr b.pollErr
  pollHup := f a.pollHup b.pollHup
  pollNval := f a.pollNval b.pollNval
  pollRdhup := f a.pollRdhup b.pollRdhup

/-- `a | b` -/
def union (a b : Events) : Events := zipWith (· || ·) a b

/-- `a & ~b` -/
def minus (a b : Events) : Events := zipWith (fun x y => x && !y) a b

/-- `a & b`, read as a condition. -/
def meets (a b : Events) : Bool := zipWith (· && ·) a b != {}

end Events

def kNoneEvent : Events := {}

def kReadEvent : Events := { pollIn := true, pollPri := true }

def kWriteEvent : Events := { pollOut := true }

/-- The interest sets a channel can reach: reading or not, writing or not. -/
def interest (reading writing : Bool) : Events :=
  { pollIn := reading, pollPri := reading, pollOut := writing }

section
variable (r w : Bool)

@[simp] theorem interest_union_read : (interest r w).union kReadEvent = interest true w := by
  cases r <;> cases w <;> rfl

@[simp] theorem interest_minus_read : (interest r w).minus kReadEvent = interest false w := by
  cases r <;> cases w <;> rfl

@[simp] theorem interest_union_write : (interest r w).union kWriteEvent = interest r true := by
  cases r <;> cases w <;> rfl

@[simp] theorem interest_minus_write : (interest r w).minus kWriteEvent = interest r false := by
  cases r <;> cases w <;> rfl

@[simp] theorem interest_meets_read : (interest r w).meets kReadEvent = r := by
  cases r <;> cases w <;> rfl

@[simp] theorem interest_meets_write : (interest r w).meets kWriteEvent = w := by
  cases r <;> cases w <;> rfl

theorem interest_eq_none : interest r w = kNoneEvent ↔ r = false ∧ w = false := by
  cases r <;> cases w <;> decide

end

/-! ## channels, the poller and the loop -/

/-- `kNew`, `kAdded` and `kDeleted` of `EPollPoller.cc`. -/
inductive PollIndex
  | kNew
  | kAdded
  | kDeleted
deriving DecidableEq, Repr

/-- `addr` is the address of the object: the poller compares `Channel*`. -/
structure Channel where
  addr : Nat
  fd : Nat
  events : Events
  index : PollIndex
  addedToLoop : Bool
deriving DecidableEq, Repr

def Channel.create (addr fd : Nat) : Channel := ⟨addr, fd, kNoneEvent, .kNew, false⟩

namespace Channel

def isNoneEvent (ch : Channel) : Bool := ch.events = kNoneEvent

def isWriting (ch : Channel) : Bool := ch.events.meets kWriteEvent

def isReading (ch : Channel) : Bool := ch.events.meets kReadEvent

end Channel

/-- The operations of `epoll_ctl(2)`. -/
inductive EpollOp
  | add
  | mod
  | del
deriving DecidableEq, Repr

/-- `channels` is the map `channels_` from descriptors to `Channel*`,
`kernel` the interest list of the epoll instance, `calls` every `epoll_ctl`
issued so far with its descriptor, oldest first. -/
structure EPollPoller where
  channels : Nat → Option Nat
  kernel : Nat → Option Events
  calls : List (EpollOp × Nat)

/-- The members of `EventLoop` that the update and the removal of a channel
read. -/
structure EventLoop where
  poller : EPollPoller
  eventHandling : Bool
  activeChannels : List Nat
  currentActiveChannel : Option Nat

/-- The assertions on the way of an update or a removal. -/
inductive Channel.Assert
  | updateFoundNew
  | updateNotFound
  | updateOther
  | removeNoneEvent
  | removeActive
  | removeNotFound
  | removeOther
  | removeChannelNoneEvent
  | removeIndex
  | removeErase
deriving DecidableEq, Repr

/-- A failed assertion, or the abort of `LOG_SYSFATAL` after an invalid
`epoll_ctl`. -/
inductive Channel.Fault
  | assertion (site : Channel.Assert)
  | sysFatal (op : EpollOp)
deriving DecidableEq, Repr

namespace EPollPoller

/-- `epoll_ctl(2)` on a descriptor with entry `entry` in the interest list:
`EPOLL_CTL_ADD` fails when it is present, `MOD` and `DEL` when it is absent. -/
def ctlValid (op : EpollOp) (entry : Option Events) : Bool :=
  match op with
  | .add => entry.isNone
  | .mod | .del => entry.isSome

/-- `EPollPoller::update`: a failed `DEL` is only logged. -/
def update (p : EPollPoller) (op : EpollOp) (ch : Channel) : Except Channel.Fault EPollPoller :=
  let p := { p with calls := p.calls ++ [(op, ch.fd)] }
  if ctlValid op (p.kernel ch.fd) then
    .ok { p with
      kernel := Function.update p.kernel ch.fd (if op = .del then none else some ch.events) }
  else if op = .del then .ok p
  else .error (.sysFatal op)

theorem update_of_valid {p : EPollPoller} {op : EpollOp} {ch : Channel}
    (h : ctlValid op (p.kernel ch.fd) = true) :
    p.update op ch = .ok ⟨p.channels,
      Function.update p.kernel ch.fd (if op = .del then none else some ch.events),
      p.calls ++ [(op, ch.fd)]⟩ := by
  simp [update, h]

def updateChannel (p : EPollPoller) (ch : Channel) :
    Except Channel.Fault (EPollPoller × Channel) :=
  match ch.index with
  | .kNew => do
    check (.assertion .updateFoundNew) (p.channels ch.fd = none)
    let p := { p with channels := Function.update p.channels ch.fd (some ch.addr) }
    let ch := { ch with index := .kAdded }
    let p ← p.update .add ch
    pure (p, ch)
  | .kDeleted => do
    check (.assertion .updateNotFound) (p.channels ch.fd ≠ none)
    check (.assertion .updateOther) (p.channels ch.fd = some ch.addr)
    let ch := { ch with index := .kAdded }
    let p ← p.update .add ch
    pure (p, ch)
  | .kAdded => do
    check (.assertion .updateNotFound) (p.channels ch.fd ≠ none)
    check (.assertion .updateOther) (p.channels ch.fd = some ch.addr)
    if ch.isNoneEvent then do
      let p ← p.update .del ch
      pure (p, { ch with index := .kDeleted })
    else do
      let p ← p.update .mod ch
      pure (p, ch)

def removeChannel (p : EPollPoller) (ch : Channel) :
    Except Channel.Fault (EPollPoller × Channel) := do
  check (.assertion .removeNotFound) (p.channels ch.fd ≠ none)
  check (.assertion .removeOther) (p.channels ch.fd = some ch.addr)
  check (.assertion .removeChannelNoneEvent) (ch.isNoneEvent = true)
  check (.assertion .removeIndex) (ch.index = .kAdded ∨ ch.index = .kDeleted)
  let n := if p.channels ch.fd = none then 0 else 1
  let p := { p with channels := Function.update p.channels ch.fd none }
  check (.assertion .removeErase) (n = 1)
  let p ← (if ch.index = .kAdded then p.update .del ch else .ok p)
  pure (p, { ch with index := .kNew })

end EPollPoller

namespace EventLoop

def updateChannel (loop : EventLoop) (ch : Channel) :
    Except Channel.Fault (EventLoop × Channel) := do
  let (p, ch) ← loop.poller.updateChannel ch
  pure ({ loop with poller := p }, ch)

/-- `EventLoop::removeChannel`: while events are being handled, a channel
that is still in `activeChannels_` can only be removed by its own handler. -/
def removeChannel (loop : EventLoop) (ch : Channel) :
    Except Channel.Fault (EventLoop × Channel) := do
  check (.assertion .removeActive) (loop.eventHandling = true →
    loop.currentActiveChannel = some ch.addr ∨ ch.addr ∉ loop.activeChannels)
  let (p, ch) ← loop.poller.removeChannel ch
  pure ({ loop with poller := p }, ch)

end EventLoop

variable {loop : EventLoop}

namespace Channel

def update (ch : Channel) (loop : EventLoop) : Except Fault (EventLoop × Channel) :=
  loop.updateChannel { ch with addedToLoop := true }

/-- The interest operations assign `events_` and call `update`. -/
def setEvents (ch : Channel) (e : Events) (loop : EventLoop) : Except Fault (EventLoop × Channel) :=
  update { ch with events := e } loop

def enableReading (ch : Channel) := ch.setEvents (ch.events.union kReadEvent)

def disableReading (ch : Channel) := ch.setEvents (ch.events.minus kReadEvent)

def enableWriting (ch : Channel) := ch.setEvents (ch.events.union kWriteEvent)

def disableWriting (ch : Channel) := ch.setEvents (ch.events.minus kWriteEvent)

def disableAll (ch : Channel) := ch.setEvents kNoneEvent

def remove (ch : Channel) (loop : EventLoop) : Except Fault (EventLoop × Channel) := do
  check (.assertion .removeNoneEvent) (ch.isNoneEvent = true)
  loop.removeChannel { ch with addedToLoop := false }

/-- The callbacks of a channel. -/
inductive EventCallback
  | close
  | error
  | read
  | write
deriving DecidableEq, Repr

/-- `Channel::handleEventWithGuard`: the callbacks it calls for the events
that the poller reported, in order. -/
def handleEventWithGuard (revents : Events) : List EventCallback :=
  (if revents.pollHup && !revents.pollIn then [.close] else []) ++
  (if revents.pollErr || revents.pollNval then [.error] else []) ++
  (if revents.pollIn || revents.pollPri || revents.pollRdhup then [.read] else []) ++
  (if revents.pollOut then [.write] else [])

/-! ## the poller tracks the channel -/

/-- The index of the channel says what the poller and the kernel hold for
its descriptor. -/
def Tracked (ch : Channel) (loop : EventLoop) : Prop :=
  match ch.index with
  | .kNew => loop.poller.channels ch.fd = none ∧ loop.poller.kernel ch.fd = none
  | .kAdded => loop.poller.channels ch.fd = some ch.addr ∧
      loop.poller.kernel ch.fd = some ch.events
  | .kDeleted => loop.poller.channels ch.fd = some ch.addr ∧ loop.poller.kernel ch.fd = none

/-- The index after an update to the interest set `e`. -/
def nextIndex (i : PollIndex) (e : Events) : PollIndex :=
  if i = .kAdded ∧ e = kNoneEvent then .kDeleted else .kAdded

/-- The `epoll_ctl` operation of an update to the interest set `e`. -/
def ctlOp (i : PollIndex) (e : Events) : EpollOp :=
  if i ≠ .kAdded then .add else if e = kNoneEvent then .del else .mod

/-- The channel after an update to the interest set `e`. -/
def updated (ch : Channel) (e : Events) : Channel :=
  { ch with events := e, addedToLoop := true, index := nextIndex ch.index e }

@[simp] theorem updated_events (ch : Channel) (e : Events) : (ch.updated e).events = e := rfl

@[simp] theorem updated_fd (ch : Channel) (e : Events) : (ch.updated e).fd = ch.fd := rfl

@[simp] theorem updated_addr (ch : Channel) (e : Events) : (ch.updated e).addr = ch.addr := rfl

@[simp] theorem updated_index (ch : Channel) (e : Events) :
    (ch.updated e).index = nextIndex ch.index e := rfl

/-- The index of a channel that goes back and forth between some interest
and none. -/
def openIndex (e : Events) : PollIndex := if e = kNoneEvent then .kDeleted else .kAdded

/-- Only a second update to no interest leaves the pattern of `openIndex`: it
registers the descriptor again, with no events. -/
theorem nextIndex_eq_openIndex {i : PollIndex} {e : Events} (h : i = .kAdded ∨ e ≠ kNoneEvent) :
    nextIndex i e = openIndex e := by
  by_cases he : e = kNoneEvent
  · have hi : i = .kAdded := h.resolve_right fun hne => hne he
    simp [nextIndex, openIndex, hi, he]
  · simp [nextIndex, openIndex, he]

theorem tracked_create {addr fd : Nat} (hch : loop.poller.channels fd = none)
    (hk : loop.poller.kernel fd = none) : (create addr fd).Tracked loop := ⟨hch, hk⟩

end Channel

namespace EPollPoller

/-- The index of the channel says what the poller and the kernel hold for its
descriptor. -/
def Tracks (p : EPollPoller) (ch : Channel) : Prop :=
  match ch.index with
  | .kNew => p.channels ch.fd = none ∧ p.kernel ch.fd = none
  | .kAdded => p.channels ch.fd = some ch.addr ∧ p.kernel ch.fd = some ch.events
  | .kDeleted => p.channels ch.fd = some ch.addr ∧ p.kernel ch.fd = none

theorem tracks_iff_tracked {ch : Channel} : loop.poller.Tracks ch ↔ ch.Tracked loop := Iff.rfl

section
variable {p : EPollPoller} {ch : Channel}

theorem Tracks.channels_eq (h : p.Tracks ch) (hindex : ch.index ≠ .kNew) :
    p.channels ch.fd = some ch.addr := by
  unfold Tracks at h
  cases hi : ch.index with
  | kNew => exact absurd hi hindex
  | kAdded | kDeleted => simp only [hi] at h; exact h.1

/-- The poller after an update of the channel to the interest set `e`. -/
def updated (p : EPollPoller) (ch : Channel) (e : Events) : EPollPoller where
  channels := Function.update p.channels ch.fd (some ch.addr)
  kernel := Function.update p.kernel ch.fd
    (if Channel.ctlOp ch.index e = .del then none else some e)
  calls := p.calls ++ [(Channel.ctlOp ch.index e, ch.fd)]

/-- The poller after the removal of the channel. -/
def removed (p : EPollPoller) (ch : Channel) : EPollPoller where
  channels := Function.update p.channels ch.fd none
  kernel := Function.update p.kernel ch.fd none
  calls := p.calls ++ if ch.index = .kAdded then [(.del, ch.fd)] else []

/-- **Update.** No assertion fails and the one `epoll_ctl` is valid. -/
theorem updateChannel_eq (h : p.Tracks ch) (e : Events) :
    p.updateChannel { ch with events := e } =
      .ok (p.updated ch e, { ch with events := e, index := Channel.nextIndex ch.index e }) := by
  obtain ⟨addr, fd, old, index, added⟩ := ch
  cases index with
  | kNew =>
    obtain ⟨hch, hk⟩ := h
    simp only at hch hk
    simp only [updateChannel]
    rw [check_of hch, update_of_valid (by simp [ctlValid, hk])]
    rfl
  | kDeleted =>
    obtain ⟨hch, hk⟩ := h
    simp only at hch hk
    have hsame : Function.update p.channels fd (some addr) = p.channels :=
      Function.update_eq_self_iff.mpr hch.symm
    simp only [updateChannel, updated, hsame]
    rw [check_of (by simp [hch]), check_of hch, update_of_valid (by simp [ctlValid, hk])]
    rfl
  | kAdded =>
    obtain ⟨hch, hk⟩ := h
    simp only at hch hk
    have hsame : Function.update p.channels fd (some addr) = p.channels :=
      Function.update_eq_self_iff.mpr hch.symm
    simp only [updateChannel, updated, hsame]
    rw [check_of (by simp [hch]), check_of hch]
    by_cases he : e = kNoneEvent
    · subst he
      rw [update_of_valid (by simp [ctlValid, hk])]
      rfl
    · have hop : Channel.ctlOp .kAdded e = .mod := by simp [Channel.ctlOp, he]
      have hindex : Channel.nextIndex .kAdded e = .kAdded := by simp [Channel.nextIndex, he]
      rw [if_neg (by simp [Channel.isNoneEvent, he]),
        update_of_valid (by simp [ctlValid, hk]), hop, hindex]
      rfl

/-- **Removal** of a registered channel that has no interest. -/
theorem removeChannel_eq (h : p.Tracks ch) (hindex : ch.index ≠ .kNew)
    (hnone : ch.isNoneEvent = true) :
    p.removeChannel ch = .ok (p.removed ch, { ch with index := .kNew }) := by
  have hch := h.channels_eq hindex
  have hreg : ch.index = .kAdded ∨ ch.index = .kDeleted := by
    cases hi : ch.index <;> simp_all
  simp only [removeChannel]
  rw [check_of (by simp [hch]), check_of hch, check_of hnone, check_of hreg,
    check_of (by simp [hch])]
  unfold Tracks at h
  cases hreg with
  | inl hadded =>
    simp only [hadded] at h
    rw [if_pos hadded, update_of_valid (by simp [ctlValid, h.2])]
    simp [removed, hadded, bind, Except.bind, pure, Except.pure]
  | inr hdeleted =>
    simp only [hdeleted] at h
    have hsame : Function.update p.kernel ch.fd none = p.kernel :=
      Function.update_eq_self_iff.mpr h.2.symm
    simp [removed, hdeleted, hsame, bind, Except.bind, pure, Except.pure]

theorem tracks_updated (p : EPollPoller) (ch : Channel) (e : Events) :
    (p.updated ch e).Tracks { ch with events := e, index := Channel.nextIndex ch.index e } := by
  unfold Tracks
  cases hi : ch.index with
  | kNew | kDeleted =>
    simp [EPollPoller.updated, Channel.nextIndex, Channel.ctlOp, hi]
  | kAdded =>
    by_cases he : e = kNoneEvent
    · simp [EPollPoller.updated, Channel.nextIndex, Channel.ctlOp, hi, he]
    · simp [EPollPoller.updated, Channel.nextIndex, Channel.ctlOp, hi, he]

end

end EPollPoller

namespace Channel

/-- **Interest update.** On a tracked channel every interest operation
succeeds: one `epoll_ctl`, and the channel is tracked with its new events. -/
theorem setEvents_spec {ch : Channel} (h : ch.Tracked loop) (e : Events) :
    ∃ p, ch.setEvents e loop = .ok ({ loop with poller := p }, ch.updated e) ∧
      (ch.updated e).Tracked { loop with poller := p } ∧
      p.calls = loop.poller.calls ++ [(ctlOp ch.index e, ch.fd)] := by
  have htracks : loop.poller.Tracks { ch with addedToLoop := true } :=
    EPollPoller.tracks_iff_tracked.mpr h
  refine ⟨loop.poller.updated ch e, ?_, EPollPoller.tracks_updated .., rfl⟩
  have hupdate := EPollPoller.updateChannel_eq htracks e
  simp only [setEvents, update, EventLoop.updateChannel]
  rw [hupdate]
  rfl

/-- **Removal.** A tracked channel that is registered, has no interest and is
not waiting for its turn in the current iteration of the loop is removed. -/
theorem remove_spec {ch : Channel} (h : ch.Tracked loop) (hindex : ch.index ≠ .kNew)
    (hnone : ch.isNoneEvent = true) (hactive : loop.eventHandling = true →
      loop.currentActiveChannel = some ch.addr ∨ ch.addr ∉ loop.activeChannels) :
    ∃ p, ch.remove loop =
        .ok ({ loop with poller := p }, { ch with addedToLoop := false, index := .kNew }) ∧
      p.channels ch.fd = none ∧ p.kernel ch.fd = none := by
  have htracks : loop.poller.Tracks { ch with addedToLoop := false } :=
    EPollPoller.tracks_iff_tracked.mpr h
  refine ⟨loop.poller.removed ch, ?_, Function.update_self .., Function.update_self ..⟩
  have hremove := EPollPoller.removeChannel_eq htracks hindex hnone
  simp only [remove, EventLoop.removeChannel]
  rw [check_of hnone, check_of hactive, hremove]
  rfl

end Channel

end Muduo
