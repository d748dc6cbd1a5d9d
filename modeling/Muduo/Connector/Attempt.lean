import Muduo.Connector

/-!
# Muduo.Connector.Attempt

At most one attempt to connect.

`startInLoop` is called by the functor that a thread has pushed, or is about to
push, and by a retry timer.  A second such call, or one that comes before the
functor `resetChannel`, finds the connector connecting or the old channel in
place.  Nothing in the code prevents it: `stop()` does not cancel the timer, and
`start()` does not ask whether there is one.

`one_attempt_of_disciplined` says that nothing else goes wrong: when `start()`
is called only while no call of `startInLoop` is on its way, no assertion fails
in any interleaving, and at most one socket is being connected.
-/

namespace Muduo.Connector

open Lib List

/-- The calls of `startInLoop` that are on their way. -/
def pendingStarts (s : Connector) : Nat :=
  s.starting.length + s.timers.length + s.pendingFunctors.count .startInLoop

/-- There is nothing to wait for before another attempt. -/
def Idle (s : Connector) : Prop := s.state ≠ .kConnecting ∧ s.pendingStarts = 0

instance (s : Connector) : Decidable s.Idle := inferInstanceAs (Decidable (_ ∧ _))

/-- `start()` is called when the connector is disconnected and idle, `restart()`
also when it has connected; on the loop thread, and by a timer, only after
`resetChannel` has run. -/
def Disciplined (s : Connector) : Label → Prop
  | .start _ => s.Idle ∧ s.state = .kDisconnected
  | .startHere _ => s.Idle ∧ s.state = .kDisconnected ∧ s.channel = none
  | .restart _ => s.Idle ∧ s.channel = none
  | .timer _ _ => s.channel = none
  | _ => True

instance (s : Connector) : (a : Label) → Decidable (s.Disciplined a)
  | .start _ | .startHere _ | .restart _ => inferInstanceAs (Decidable (_ ∧ _))
  | .timer _ _ => inferInstanceAs (Decidable (_ = _))
  | .startPush _ | .stop _ | .stopPush _ | .stopHere | .runFunctor _ | .event _ | .callback _ =>
    .isTrue trivial

/-- The channel is not registered with the poller. -/
def Unregistered (s : Connector) (ch : Channel) : Prop :=
  ch.addedToLoop = false ∧ s.loop.poller.channels ch.fd ≠ some ch.addr

/-- At most one socket is being connected, and a queued `resetChannel` finds a
channel that is not registered, or none. -/
structure OneAttempt (s : Connector) : Prop where
  sockets : s.sockets.length ≤ 1
  reset : .resetChannel ∈ s.pendingFunctors → ∀ ch, s.channel = some ch → s.Unregistered ch

/-! ## the invariant -/

/-- The functors in the queue, without `stopInLoop`. -/
def work (s : Connector) : List Functor := s.pendingFunctors.filter (· ≠ .stopInLoop)

/-- A connection is being attempted, on the channel `ch`. -/
structure Attempting (s : Connector) (ch : Channel) : Prop where
  state : s.state = .kConnecting
  channel : s.channel = some ch
  sockets : s.sockets = [ch.fd]
  tracked : ch.Tracked s.loop
  index : ch.index = .kAdded
  work : s.work = []
  starting : s.starting = []
  timers : s.timers = []

/-- No connection is being attempted.  A channel that is left has its
`resetChannel` in the queue, before any `startInLoop`. -/
structure Resting (s : Connector) : Prop where
  state : s.state ≠ .kConnecting
  sockets : s.sockets = []
  channel : ∀ ch, s.channel = some ch → ch.addedToLoop = false ∧ s.loop.poller.channels ch.fd = none
  starts : s.pendingStarts ≤ 1
  connected : s.state = .kConnected → s.pendingStarts = 0
  work : s.work = (if s.channel = none then [] else [.resetChannel]) ++
    List.replicate (s.pendingFunctors.count .startInLoop) .startInLoop

/-- What the loop thread has still to do for the current event. -/
inductive InEvent (s : Connector) : Prop
  | done : s.todo = [] → s.loop.eventHandling = false → InEvent s
  | begun (ch : Channel) : s.state = .kConnecting → s.channel = some ch →
      s.loop.currentActiveChannel = some ch.addr →
      s.todo = [.error] ∨ s.todo = [.write] ∨ s.todo = [.error, .write] → InEvent s
  | failed : s.state = .kDisconnected → s.todo = [.write] → InEvent s

structure Inv (s : Connector) : Prop where
  phase : s.Resting ∨ ∃ ch, s.Attempting ch
  event : s.InEvent

theorem inv_create (p : EPollPoller) : (create p).Inv where
  phase := .inl
    { state := by simp [create]
      sockets := rfl
      channel := by simp [create]
      starts := by simp [create, pendingStarts]
      connected := by simp [create]
      work := rfl }
  event := .done rfl rfl

section
variable {s : Connector} {ch : Channel}

theorem mem_work {f : Functor} (hf : f ≠ .stopInLoop) : f ∈ s.work ↔ f ∈ s.pendingFunctors := by
  simp [work, hf]

theorem Inv.oneAttempt (h : s.Inv) : s.OneAttempt := by
  obtain hrest | ⟨ch, hatt⟩ := h.phase
  · refine ⟨by simp [hrest.sockets], fun _ ch hch => ?_⟩
    obtain ⟨hadded, hnone⟩ := hrest.channel ch hch
    exact ⟨hadded, by simp [hnone]⟩
  · refine ⟨by simp [hatt.sockets], fun hmem => ?_⟩
    rw [← mem_work (by decide), hatt.work] at hmem
    cases hmem

@[simp] theorem work_queueInLoop (s : Connector) (f : Functor) :
    (s.queueInLoop f).work = s.work ++ if f = .stopInLoop then [] else [f] := by
  cases f <;> simp [work, queueInLoop]

theorem count_work (s : Connector) :
    s.pendingFunctors.count .startInLoop = s.work.count .startInLoop :=
  (count_filter (by decide)).symm

/-- With no functor for a start in the queue and no thread about to push one,
only a timer can be left. -/
theorem resting_of_work (hstate : s.state ≠ .kConnecting) (hsockets : s.sockets = [])
    (hchannel : ∀ ch, s.channel = some ch →
      ch.addedToLoop = false ∧ s.loop.poller.channels ch.fd = none)
    (hwork : s.work = if s.channel = none then [] else [.resetChannel])
    (hstarting : s.starting = []) (htimers : s.timers.length ≤ 1)
    (hconnected : s.state = .kConnected → s.timers = []) : s.Resting := by
  have hcount : s.pendingFunctors.count .startInLoop = 0 := by
    rw [count_work, hwork]
    split <;> rfl
  have hstarts : s.pendingStarts = s.timers.length := by
    simp [pendingStarts, hstarting, hcount]
  refine ⟨hstate, hsockets, hchannel, by omega, fun hs => ?_, ?_⟩
  · rw [hstarts, hconnected hs]
    rfl
  · rw [hwork, hcount]
    simp

/-! ## what a step does to the sockets -/

/-- A step does nothing to a socket, makes one and connects it, makes one and
closes it, or ends the attempt on the socket of the channel. -/
inductive Deals (s s' : Connector) : Prop
  | nothing : s'.log = s.log → s'.state = s.state →
      (s'.channel = s.channel ∨ s.state ≠ .kConnecting ∧ s'.channel = none) → Deals s s'
  | attempted (ch : Channel) : s.state = .kDisconnected → s'.state = .kConnecting →
      s'.channel = some ch → s'.log = s.log ++ [.created ch.fd] → Deals s s'
  | refused (sockfd : Nat) : s.state = .kDisconnected → s'.state = .kDisconnected →
      s'.log = s.log ++ [.created sockfd, .closed sockfd] → Deals s s'
  | closed (ch : Channel) : s.state = .kConnecting → s.channel = some ch →
      s'.state ≠ .kConnecting → s'.log = s.log ++ [.closed ch.fd] → Deals s s'
  | handed (ch : Channel) : s.state = .kConnecting → s.channel = some ch → s.connect = true →
      s'.state = .kConnected → s'.log = s.log ++ [.handed ch.fd] → Deals s s'

/-- What the loop thread does in a step, `start()`, `restart()` and `stop()`
apart. -/
structure Served (s s' : Connector) : Prop where
  deals : s.Deals s'
  connect : s'.connect = s.connect
  stopping : s'.stopping = s.stopping
  stops : .stopInLoop ∈ s'.pendingFunctors → .stopInLoop ∈ s.pendingFunctors

theorem Served.refl (s : Connector) : s.Served s :=
  ⟨.nothing rfl rfl (.inl rfl), rfl, rfl, id⟩

/-- A functor or a timer was taken off before. -/
theorem Served.of_base {t s' : Connector} (h : t.Served s') (hlog : t.log = s.log)
    (hstate : t.state = s.state) (hchannel : t.channel = s.channel) (hconnect : t.connect = s.connect)
    (hstopping : t.stopping = s.stopping) (hsubset : t.pendingFunctors ⊆ s.pendingFunctors) :
    s.Served s' := by
  refine ⟨?_, h.connect.trans hconnect, h.stopping.trans hstopping, fun hs => hsubset (h.stops hs)⟩
  cases h.deals with
  | nothing hl hst hch => exact .nothing (hlog ▸ hl) (hstate ▸ hst) (hstate ▸ hchannel ▸ hch)
  | attempted ch hst hst' hch hl => exact .attempted ch (hstate ▸ hst) hst' hch (hlog ▸ hl)
  | refused sockfd hst hst' hl => exact .refused sockfd (hstate ▸ hst) hst' (hlog ▸ hl)
  | closed ch hst hch hst' hl => exact .closed ch (hstate ▸ hst) (hchannel ▸ hch) hst' (hlog ▸ hl)
  | handed ch hst hch hc hst' hl =>
    exact .handed ch (hstate ▸ hst) (hchannel ▸ hch) (hconnect ▸ hc) hst' (hlog ▸ hl)

theorem Served.endCallback {s' : Connector} (h : s.Served s') (rest : List Channel.EventCallback) :
    s.Served (s'.endCallback rest) := by
  refine ⟨?_, h.connect, h.stopping, h.stops⟩
  cases h.deals with
  | nothing hl hst hch => exact .nothing hl hst hch
  | attempted ch hst hst' hch hl => exact .attempted ch hst hst' hch hl
  | refused sockfd hst hst' hl => exact .refused sockfd hst hst' hl
  | closed ch hst hch hst' hl => exact .closed ch hst hch hst' hl
  | handed ch hst hch hc hst' hl => exact .handed ch hst hch hc hst' hl

/-! ## the end of an attempt -/

/-- `retry` closes the socket, and it sets at most one timer. -/
theorem retry_eq (s : Connector) (sockfd : Nat) :
    ∃ timers delay, timers.length ≤ s.timers.length + 1 ∧ s.retry sockfd =
      { s.close sockfd with state := .kDisconnected, timers, retryDelayMs := delay } := by
  simp only [retry]
  split
  · exact ⟨_, _, by simp [close], rfl⟩
  · exact ⟨_, _, by simp [close], rfl⟩

@[simp] theorem retry_state (s : Connector) (sockfd : Nat) :
    (s.retry sockfd).state = .kDisconnected := by
  obtain ⟨timers, delay, -, heq⟩ := s.retry_eq sockfd
  rw [heq]

theorem Resting.inv_retry {sockfd : Nat} (h : (s.retry sockfd).Resting) (htodo : s.todo = [])
    (hevent : s.loop.eventHandling = false) : (s.retry sockfd).Inv := by
  obtain ⟨timers, delay, -, heq⟩ := s.retry_eq sockfd
  rw [heq] at h ⊢
  exact ⟨.inl h, .done htodo hevent⟩

/-- The state after `removeAndResetChannel`. -/
def detached (s : Connector) (p : EPollPoller) (ch : Channel) : Connector :=
  queueInLoop { s with loop := { s.loop with poller := p }, channel := some ch } .resetChannel

/-- The channel is taken out of the poller, unless the loop is in the middle of
an event of another one. -/
theorem removeAndResetChannel_eq (hch : s.channel = some ch) (htracked : ch.Tracked s.loop)
    (hindex : ch.index = .kAdded)
    (hactive : s.loop.eventHandling = true → s.loop.currentActiveChannel = some ch.addr) :
    ∃ p ch', s.removeAndResetChannel = .ok (s.detached p ch', ch.fd) ∧
      ch'.addedToLoop = false ∧ p.channels ch'.fd = none := by
  obtain ⟨p, hset, ht, -⟩ := Channel.setEvents_spec htracked kNoneEvent
  have hdeleted : (ch.updated kNoneEvent).index = .kDeleted := by
    simp [Channel.nextIndex, hindex]
  obtain ⟨p', hremove, hnone, -⟩ := Channel.remove_spec ht (by rw [hdeleted]; decide)
    (by simp [Channel.isNoneEvent]) fun he => .inl (hactive he)
  refine ⟨p', { ch.updated kNoneEvent with addedToLoop := false, index := .kNew }, ?_, rfl, hnone⟩
  simp only [removeAndResetChannel, hch, Channel.disableAll, hset]
  simp only [Except.mapError, bind, Except.bind, hremove]
  rfl

variable {ch' : Channel} {p : EPollPoller} {t : Connector} {io : ConnectIo}

/-- **The end of an attempt.** The socket has been closed or handed over, and
unless it is connected a timer may have been set. -/
theorem Attempting.resting (h : s.Attempting ch) (hadded : ch'.addedToLoop = false)
    (hnone : p.channels ch'.fd = none) (st : States) (timers : List Nat) (delay : Nat)
    (log : List SocketEvent) (hst : st ≠ .kConnecting) (htimers : timers.length ≤ 1)
    (hconnected : st = .kConnected → timers = []) :
    Resting { s.detached p ch' with
      state := st, sockets := s.sockets.erase ch.fd, timers, retryDelayMs := delay, log } := by
  have hwork : (s.detached p ch').work = [.resetChannel] := by
    rw [detached, work_queueInLoop]
    exact congrArg (· ++ [.resetChannel]) h.work
  refine resting_of_work hst ?_ ?_ hwork h.starting htimers hconnected
  · simp [h.sockets]
  · intro c hc
    obtain rfl : ch' = c := Option.some.inj hc
    exact ⟨hadded, hnone⟩

/-- `resetChannel` is all that `removeAndResetChannel` pushes. -/
theorem stops_detached
    (h : .stopInLoop ∈ (s.detached p ch').pendingFunctors) : .stopInLoop ∈ s.pendingFunctors := by
  simpa [detached, queueInLoop] using h

theorem Attempting.served_retry (h : s.Attempting ch) (p : EPollPoller) (ch' : Channel) :
    s.Served ((s.detached p ch').retry ch.fd) := by
  obtain ⟨timers, delay, -, heq⟩ := retry_eq (s.detached p ch') ch.fd
  rw [heq]
  exact ⟨.closed ch h.state h.channel (by simp) rfl, rfl, rfl, stops_detached⟩

theorem Attempting.retry (h : s.Attempting ch) (hadded : ch'.addedToLoop = false)
    (hnone : p.channels ch'.fd = none) : ((s.detached p ch').retry ch.fd).Resting := by
  obtain ⟨timers, delay, hlen, heq⟩ := retry_eq (s.detached p ch') ch.fd
  rw [heq]
  exact h.resting hadded hnone .kDisconnected timers _ _ (by decide)
    (by simpa [detached, queueInLoop, h.timers] using hlen) (by simp)

/-- The socket is connected. -/
def connected (s : Connector) (sockfd : Nat) : Connector :=
  let s := { s with state := .kConnected }
  if s.connect then s.newConnectionCallback sockfd else s.close sockfd

theorem Attempting.served_connected (h : s.Attempting ch) (p : EPollPoller) (ch' : Channel) :
    s.Served ((s.detached p ch').connected ch.fd) := by
  have hconnect : (s.detached p ch').connect = s.connect := rfl
  simp only [Connector.connected, hconnect]
  split
  · next hc => exact ⟨.handed ch h.state h.channel hc rfl rfl, rfl, rfl, stops_detached⟩
  · exact ⟨.closed ch h.state h.channel (by simp [close]) rfl, rfl, rfl, stops_detached⟩

theorem Attempting.connected (h : s.Attempting ch) (hadded : ch'.addedToLoop = false)
    (hnone : p.channels ch'.fd = none) : ((s.detached p ch').connected ch.fd).Resting := by
  simp only [Connector.connected]
  split
  · exact h.resting hadded hnone .kConnected s.timers _ _ (by decide) (by simp [h.timers])
      fun _ => h.timers
  · exact h.resting hadded hnone .kConnected s.timers _ _ (by decide) (by simp [h.timers])
      fun _ => h.timers

theorem Inv.active (h : s.Inv) (hatt : s.Attempting ch) :
    s.loop.eventHandling = true → s.loop.currentActiveChannel = some ch.addr := by
  intro he
  cases h.event with
  | done _ hnot => simp [hnot] at he
  | begun ch' _ hch hcur _ =>
    rw [hatt.channel] at hch
    rw [hcur, Option.some.inj hch]
  | failed hs _ =>
    rw [hatt.state] at hs
    cases hs

theorem Resting.endCallback (h : s.Resting) (rest : List Channel.EventCallback) :
    (s.endCallback rest).Resting := by
  cases rest <;> exact { h with }

/-! ## the beginning of an attempt -/

/-- Nothing is left of an earlier attempt. -/
structure Ready (s : Connector) : Prop where
  state : s.state = .kDisconnected
  sockets : s.sockets = []
  channel : s.channel = none
  work : s.work = []
  starting : s.starting = []
  timers : s.timers = []
  todo : s.todo = []
  eventHandling : s.loop.eventHandling = false

/-- The queue of a connector without a channel has no `resetChannel`. -/
theorem Resting.resetChannel_not_mem (h : s.Resting) (hchannel : s.channel = none) :
    .resetChannel ∉ s.pendingFunctors := by
  rw [← mem_work (by decide), h.work, if_pos hchannel]
  simp

/-- The last call of `startInLoop` that was on its way is made. -/
theorem Resting.ready (h : s.Resting) (hchannel : s.channel = none)
    (hstate : t.state = .kDisconnected) (hsockets : t.sockets = s.sockets)
    (hsame : t.channel = s.channel) (hstarts : t.pendingStarts = 0)
    (hsubset : t.pendingFunctors ⊆ s.pendingFunctors) (htodo : t.todo = [])
    (hevent : t.loop.eventHandling = false) : t.Ready := by
  simp only [pendingStarts, Nat.add_eq_zero_iff, length_eq_zero_iff, count_eq_zero]
    at hstarts
  refine ⟨hstate, hsockets.trans h.sockets, hsame.trans hchannel, ?_, hstarts.1.1, hstarts.1.2,
    htodo, hevent⟩
  refine filter_eq_nil_iff.mpr fun f hf => ?_
  cases f with
  | startInLoop => exact absurd hf hstarts.2
  | stopInLoop => simp
  | resetChannel => exact absurd (hsubset hf) (h.resetChannel_not_mem hchannel)

theorem served_retry (hstate : s.state = .kDisconnected) (sockfd : Nat) :
    s.Served ((s.createSocket sockfd).retry sockfd) := by
  obtain ⟨timers, delay, -, heq⟩ := retry_eq (s.createSocket sockfd) sockfd
  rw [heq]
  exact ⟨.refused sockfd hstate rfl (by simp [createSocket, close]), rfl, rfl, id⟩

theorem served_close (hstate : s.state = .kDisconnected) (sockfd : Nat) :
    s.Served ((s.createSocket sockfd).close sockfd) where
  deals := .refused sockfd hstate hstate (by simp [createSocket, close])
  connect := rfl
  stopping := rfl
  stops := id

theorem Resting.withTimers (h : s.Resting) (hstate : s.state = .kDisconnected)
    (hstarts : s.pendingStarts = 0) {timers : List Nat} (htimers : timers.length ≤ 1) (delay : Nat)
    (log : List SocketEvent) : Resting { s with timers, retryDelayMs := delay, log } := by
  have hone : pendingStarts { s with timers, retryDelayMs := delay, log } ≤ 1 := by
    simp only [pendingStarts] at hstarts ⊢
    omega
  exact { h with starts := hone, connected := fun hs => absurd (hstate.symm.trans hs) (by decide) }

theorem Resting.timers_eq_nil (hstarts : s.pendingStarts = 0) : s.timers = [] := by
  simp only [pendingStarts, Nat.add_eq_zero_iff, length_eq_zero_iff] at hstarts
  exact hstarts.1.2

theorem Resting.refused_retry (h : s.Resting) (hstate : s.state = .kDisconnected)
    (hstarts : s.pendingStarts = 0) (sockfd : Nat) :
    ((s.createSocket sockfd).retry sockfd).Resting := by
  have hsockets : (sockfd :: s.sockets).erase sockfd = s.sockets := by simp
  have hnil := timers_eq_nil hstarts
  obtain ⟨timers, delay, hlen, heq⟩ := retry_eq (s.createSocket sockfd) sockfd
  rw [heq]
  simp only [createSocket, close, hsockets, ← hstate]
  exact h.withTimers hstate hstarts (by simpa [createSocket, hnil] using hlen) _ _

theorem Resting.refused_close (h : s.Resting) (hstate : s.state = .kDisconnected)
    (hstarts : s.pendingStarts = 0) (sockfd : Nat) :
    ((s.createSocket sockfd).close sockfd).Resting := by
  have hsockets : (sockfd :: s.sockets).erase sockfd = s.sockets := by simp
  have hnil := timers_eq_nil hstarts
  simp only [createSocket, close, hsockets]
  exact h.withTimers hstate hstarts (by simp [hnil]) _ _

/-- The values of `errno` after which `connect` goes on to `connecting`. -/
def connects : ConnectErrno → Bool
  | .zero | .EINPROGRESS | .EINTR | .EISCONN => true
  | _ => false

/-- **A start that does not get to `connecting`.** The old channel may still be
there. -/
theorem Resting.startInLoop (h : s.Resting) (hstate : s.state = .kDisconnected)
    (hstarts : s.pendingStarts = 0) (htodo : s.todo = []) (hevent : s.loop.eventHandling = false)
    (hio : s.connect = true → connects io.errno = false) :
    ∃ s', s.startInLoop io = .ok s' ∧ s'.Inv ∧ s.Served s' := by
  have hretry : ∀ sockfd, ((s.createSocket sockfd).retry sockfd).Inv ∧
      s.Served ((s.createSocket sockfd).retry sockfd) := fun sockfd =>
    ⟨(h.refused_retry hstate hstarts sockfd).inv_retry htodo hevent, served_retry hstate sockfd⟩
  have hclose : ∀ sockfd, ((s.createSocket sockfd).close sockfd).Inv ∧
      s.Served ((s.createSocket sockfd).close sockfd) := fun sockfd =>
    ⟨⟨.inl (h.refused_close hstate hstarts sockfd), .done htodo hevent⟩, served_close hstate sockfd⟩
  simp only [Connector.startInLoop]
  rw [check_of hstate]
  show ∃ s', (if s.connect = true then s.connectSocket io else .ok s) = .ok s' ∧ _
  split
  · next hconnect =>
    have hfails := hio hconnect
    obtain ⟨sockfd, errno⟩ := io
    cases errno with
    | zero | EINPROGRESS | EINTR | EISCONN => contradiction
    | EAGAIN | EADDRINUSE | EADDRNOTAVAIL | ECONNREFUSED | ENETUNREACH =>
      exact ⟨_, rfl, hretry sockfd⟩
    | EACCES | EPERM | EAFNOSUPPORT | EALREADY | EBADF | EFAULT | ENOTSOCK | other =>
      exact ⟨_, rfl, hclose sockfd⟩
  · exact ⟨s, rfl, ⟨.inl h, .done htodo hevent⟩, .refl s⟩

/-- The state after `connecting`. -/
def attempted (s : Connector) (sockfd : Nat) (p : EPollPoller) : Connector :=
  { s with
    state := .kConnecting
    loop := { s.loop with poller := p }
    channel := some ((Channel.create s.nextAddr sockfd).updated kWriteEvent)
    nextAddr := s.nextAddr + 1 }

theorem Ready.connecting (h : s.Ready) {sockfd : Nat} (hfd : s.Unused sockfd) :
    ∃ s', (s.createSocket sockfd).connecting sockfd = .ok s' ∧ s'.Inv ∧ s.Served s' := by
  obtain ⟨-, hchannels, hkernel⟩ := hfd
  have hnew : (Channel.create s.nextAddr sockfd).Tracked s.loop :=
    Channel.tracked_create hchannels hkernel
  obtain ⟨p, hset, ht, -⟩ := Channel.setEvents_spec hnew kWriteEvent
  have hatt : ((s.createSocket sockfd).attempted sockfd p).Attempting
      ((Channel.create s.nextAddr sockfd).updated kWriteEvent) :=
    ⟨rfl, rfl, congrArg (sockfd :: ·) h.sockets, ht, rfl, h.work, h.starting, h.timers⟩
  refine ⟨(s.createSocket sockfd).attempted sockfd p, ?_, ⟨.inr ⟨_, hatt⟩,
    .done h.todo h.eventHandling⟩, .attempted _ h.state rfl rfl rfl, rfl, rfl, id⟩
  simp only [Connector.connecting, Channel.enableWriting]
  rw [check_of (show (s.createSocket sockfd).channel = none from h.channel)]
  have hunion : (Channel.create s.nextAddr sockfd).events.union kWriteEvent = kWriteEvent := rfl
  simp only [createSocket, hunion, hset]
  rfl

theorem Ready.resting (h : s.Ready) : s.Resting :=
  resting_of_work (by simp [h.state]) h.sockets (by simp [h.channel])
    (h.work.trans (if_pos h.channel).symm) h.starting (by simp [h.timers]) (by simp [h.state])

theorem Ready.pendingStarts (h : s.Ready) : s.pendingStarts = 0 := by
  simp [Connector.pendingStarts, h.starting, h.timers, count_work, h.work]

/-- **A start of an idle connector** makes the attempt, sets a timer, or does
nothing, whatever the kernel answers. -/
theorem Ready.startInLoop (h : s.Ready) (hfd : s.Unused io.sockfd) :
    ∃ s', s.startInLoop io = .ok s' ∧ s'.Inv ∧ s.Served s' := by
  by_cases hio : s.connect = true ∧ connects io.errno = true
  · obtain ⟨hconnect, hio⟩ := hio
    simp only [Connector.startInLoop]
    rw [check_of h.state]
    show ∃ s', (if s.connect = true then s.connectSocket io else .ok s) = .ok s' ∧ _
    rw [if_pos hconnect]
    obtain ⟨sockfd, errno⟩ := io
    cases errno with
    | zero | EINPROGRESS | EINTR | EISCONN => exact h.connecting hfd
    | _ => contradiction
  · exact h.resting.startInLoop h.state h.pendingStarts h.todo h.eventHandling
      fun hc => by simpa [hc] using hio

theorem Inv.eventHandling (h : s.Inv) (htodo : s.todo = []) : s.loop.eventHandling = false := by
  cases h.event with
  | done _ he => exact he
  | begun _ _ _ _ ht => simp [htodo] at ht
  | failed _ ht => simp [htodo] at ht

theorem Inv.attempting (h : s.Inv) (hstate : s.state = .kConnecting) : ∃ ch, s.Attempting ch :=
  h.phase.resolve_left fun hrest => hrest.state hstate

theorem Inv.resting (h : s.Inv) (hstate : s.state ≠ .kConnecting) : s.Resting :=
  h.phase.resolve_right fun ⟨_, hatt⟩ => hstate hatt.state

theorem Resting.disconnected (h : s.Resting) (hstarts : s.pendingStarts ≠ 0) :
    s.state = .kDisconnected := by
  cases hs : s.state with
  | kDisconnected => rfl
  | kConnecting => exact absurd hs h.state
  | kConnected => exact absurd (h.connected hs) hstarts

theorem Resting.ready_of_start (h : s.Resting) (hchannel : s.channel = none)
    (hstate : t.state = s.state) (hsockets : t.sockets = s.sockets) (hsame : t.channel = s.channel)
    (hstarts : t.pendingStarts + 1 = s.pendingStarts)
    (hsubset : t.pendingFunctors ⊆ s.pendingFunctors) (htodo : t.todo = [])
    (hevent : t.loop.eventHandling = false) : t.Ready := by
  have hone := h.starts
  exact h.ready hchannel (hstate.trans (h.disconnected (by omega))) hsockets hsame (by omega)
    hsubset htodo hevent

theorem InEvent.congr (h : s.InEvent) (hstate : t.state = s.state)
    (hchannel : t.channel = s.channel) (hloop : t.loop = s.loop) (htodo : t.todo = s.todo) :
    t.InEvent := by
  cases h with
  | done ht he => exact .done (htodo.trans ht) (hloop ▸ he)
  | begun ch hs hc hcur ht =>
    exact .begun ch (hstate.trans hs) (hchannel.trans hc) (hloop ▸ hcur) (htodo ▸ ht)
  | failed hs ht => exact .failed (hstate.trans hs) (htodo.trans ht)

/-- `connect_`, the queue of `stopInLoop` and the threads that call `stop()` do
not matter. -/
theorem Inv.congr (h : s.Inv) (hstate : t.state = s.state) (hsockets : t.sockets = s.sockets)
    (hchannel : t.channel = s.channel) (hloop : t.loop = s.loop) (htodo : t.todo = s.todo)
    (hstarting : t.starting = s.starting) (htimers : t.timers = s.timers)
    (hwork : t.work = s.work) : t.Inv := by
  have hstarts : t.pendingStarts = s.pendingStarts := by
    simp only [pendingStarts, hstarting, htimers, count_work, hwork]
  refine ⟨?_, h.event.congr hstate hchannel hloop htodo⟩
  obtain hrest | ⟨ch, hatt⟩ := h.phase
  · refine .inl ⟨hstate ▸ hrest.state, hsockets ▸ hrest.sockets, ?_, hstarts ▸ hrest.starts, ?_, ?_⟩
    · rw [hchannel, hloop]
      exact hrest.channel
    · rw [hstate, hstarts]
      exact hrest.connected
    · rw [hwork, hchannel, hrest.work, count_work, count_work, hwork]
  · exact .inr ⟨ch, hstate ▸ hatt.state, hchannel ▸ hatt.channel, hsockets ▸ hatt.sockets,
      hloop ▸ hatt.tracked, hatt.index, hwork ▸ hatt.work, hstarting ▸ hatt.starting,
      htimers ▸ hatt.timers⟩

theorem Inv.stopInLoop (h : s.Inv) (htodo : s.todo = []) :
    ∃ s', s.stopInLoop = .ok s' ∧ s'.Inv ∧ s.Served s' := by
  unfold Connector.stopInLoop
  split
  · rename_i hstate
    obtain ⟨ch, hatt⟩ := h.attempting hstate
    obtain ⟨p, ch', hremove, hadded, hnone⟩ :=
      removeAndResetChannel_eq (s := { s with state := .kDisconnected }) hatt.channel hatt.tracked
        hatt.index (h.active hatt)
    rw [hremove]
    exact ⟨_, rfl, (hatt.retry hadded hnone).inv_retry htodo (h.eventHandling htodo),
      hatt.served_retry p ch'⟩
  · exact ⟨s, rfl, h, .refl s⟩

/-- A functor for a start is the first of its kind, and comes after the channel
has been reset. -/
theorem Inv.run_startInLoop (h : s.Inv) {fs : List Functor}
    (hqueue : s.pendingFunctors = .startInLoop :: fs) (hrun : s.CanRun io) :
    ∃ s', call { s with pendingFunctors := fs } io .startInLoop = .ok s' ∧ s'.Inv ∧ s.Served s' := by
  have hmem : .startInLoop ∈ s.pendingFunctors := by simp [hqueue]
  have hcount : s.pendingFunctors.count .startInLoop = fs.count .startInLoop + 1 := by
    simp [hqueue]
  obtain hrest | ⟨ch, hatt⟩ := h.phase
  · have hchannel : s.channel = none := by
      by_contra hsome
      have hwork := hrest.work
      simp [work, hqueue, hsome] at hwork
    have hstarts : pendingStarts { s with pendingFunctors := fs } + 1 = s.pendingStarts := by
      simp only [pendingStarts]
      omega
    have hready : Ready { s with pendingFunctors := fs } :=
      hrest.ready_of_start hchannel rfl rfl rfl hstarts (by simp [hqueue]) hrun.1
        (h.eventHandling hrun.1)
    obtain ⟨s', hok, hinv, hserved⟩ := hready.startInLoop hrun.2
    exact ⟨s', hok, hinv, hserved.of_base rfl rfl rfl rfl rfl (by simp [hqueue])⟩
  · rw [← mem_work (by decide), hatt.work] at hmem
    cases hmem

theorem Inv.run_resetChannel (h : s.Inv) {fs : List Functor}
    (hqueue : s.pendingFunctors = .resetChannel :: fs) (htodo : s.todo = []) :
    ∃ s', call { s with pendingFunctors := fs } io .resetChannel = .ok s' ∧ s'.Inv ∧
      s.Served s' := by
  have hmem : .resetChannel ∈ s.pendingFunctors := by simp [hqueue]
  obtain hrest | ⟨ch, hatt⟩ := h.phase
  · cases hch : s.channel with
    | none => exact absurd hmem (hrest.resetChannel_not_mem hch)
    | some ch =>
      obtain ⟨hadded, hnone⟩ := hrest.channel ch hch
      have hcount : s.pendingFunctors.count .startInLoop = fs.count .startInLoop := by
        simp [hqueue]
      have hstarts : pendingStarts { s with pendingFunctors := fs, channel := none } =
          s.pendingStarts := by
        simp only [pendingStarts, hcount]
      refine ⟨{ s with pendingFunctors := fs, channel := none }, ?_, ⟨.inl ?_,
        .done htodo (h.eventHandling htodo)⟩, .nothing rfl rfl (.inr ⟨hrest.state, rfl⟩), rfl, rfl,
        fun hs => by simp [hqueue, show .stopInLoop ∈ fs from hs]⟩
      · simp only [call, resetChannel]
        rw [check_of hadded, check_of (by simp [hnone])]
        rfl
      · refine ⟨hrest.state, hrest.sockets, by simp, hstarts ▸ hrest.starts,
          fun hs => hstarts ▸ hrest.connected hs, ?_⟩
        have hwork := hrest.work
        simpa [work, hqueue, hch, hcount] using hwork
  · rw [← mem_work (by decide), hatt.work] at hmem
    cases hmem

theorem Inv.step_runFunctor (h : s.Inv) (io : ConnectIo) :
    ∃ s', s.step (.runFunctor io) = .ok s' ∧ s'.Inv ∧ s.Served s' := by
  simp only [step]
  cases hqueue : s.pendingFunctors with
  | nil => exact ⟨s, rfl, h, .refl s⟩
  | cons f fs =>
    by_cases hrun : s.CanRun io
    · simp only [if_pos hrun]
      cases f with
      | startInLoop => exact h.run_startInLoop hqueue hrun
      | resetChannel => exact h.run_resetChannel hqueue hrun.1
      | stopInLoop =>
        have hinv : Inv { s with pendingFunctors := fs } :=
          h.congr rfl rfl rfl rfl rfl rfl rfl (by simp [work, hqueue])
        obtain ⟨s', hok, hinv', hserved⟩ := hinv.stopInLoop hrun.1
        exact ⟨s', hok, hinv', hserved.of_base rfl rfl rfl rfl rfl (by simp [hqueue])⟩
    · exact ⟨s, if_neg hrun, h, .refl s⟩

/-- **A timer.** It may expire before `resetChannel` has run when the start does
not get to `connecting`. -/
theorem Inv.step_timer (h : s.Inv) {k : Nat}
    (hchannel : k < s.timers.length ∧ s.CanRun io → s.connect = true → connects io.errno = true →
      s.channel = none) : ∃ s', s.step (.timer k io) = .ok s' ∧ s'.Inv ∧ s.Served s' := by
  simp only [step]
  by_cases hrun : k < s.timers.length ∧ s.CanRun io
  · rw [if_pos hrun]
    have hrest : s.Resting := h.phase.resolve_right fun ⟨ch, hatt⟩ => by
      simp [hatt.timers] at hrun
    have hstarts : pendingStarts { s with timers := s.timers.eraseIdx k } + 1 = s.pendingStarts := by
      have herase := length_eraseIdx_add_one hrun.1
      simp only [pendingStarts]
      omega
    have hone := hrest.starts
    have hstate := hrest.disconnected (by omega)
    have hevent := h.eventHandling hrun.2.1
    have hstart : ∃ s', startInLoop { s with timers := s.timers.eraseIdx k } io = .ok s' ∧ s'.Inv ∧
        Served { s with timers := s.timers.eraseIdx k } s' := by
      by_cases hnone : s.channel = none
      · have hready : Ready { s with timers := s.timers.eraseIdx k } :=
          hrest.ready_of_start hnone rfl rfl rfl hstarts (List.Subset.refl _) hrun.2.1 hevent
        exact hready.startInLoop hrun.2.2
      · have hearly : Resting { s with timers := s.timers.eraseIdx k } :=
          { hrest with starts := by omega, connected := fun _ => by omega }
        exact hearly.startInLoop hstate (by omega) hrun.2.1 hevent fun hconnect =>
          Bool.eq_false_iff.mpr fun hio => hnone (hchannel hrun hconnect hio)
    obtain ⟨s', hok, hinv, hserved⟩ := hstart
    exact ⟨s', hok, hinv, hserved.of_base rfl rfl rfl rfl rfl (List.Subset.refl _)⟩
  · exact ⟨s, if_neg hrun, h, .refl s⟩

theorem connectSocket_of_channel (hchannel : s.channel ≠ none)
    (hio : connects io.errno = true) : s.connectSocket io = .error (.assertion .connecting) := by
  have hconnecting : (s.createSocket io.sockfd).connecting io.sockfd =
      .error (.assertion .connecting) := by
    simp only [connecting]
    rw [check_of_not (show ¬ (s.createSocket io.sockfd).channel = none from hchannel)]
    rfl
  obtain ⟨sockfd, errno⟩ := io
  cases errno with
  | zero | EINPROGRESS | EINTR | EISCONN => exact hconnecting
  | _ => contradiction

/-- A timer that gets to `connecting` with the old channel in place. -/
theorem Inv.step_timer_early (h : s.Inv) {k : Nat} (hrun : k < s.timers.length ∧ s.CanRun io)
    (hconnect : s.connect = true) (hio : connects io.errno = true) (hchannel : s.channel ≠ none) :
    s.step (.timer k io) = .error (.assertion .connecting) := by
  have hrest : s.Resting := h.phase.resolve_right fun ⟨ch, hatt⟩ => by
    simp [hatt.timers] at hrun
  have hstate := hrest.disconnected (by simp only [pendingStarts]; omega)
  simp only [step, if_pos hrun, startInLoop]
  rw [check_of hstate]
  show (if s.connect = true then connectSocket _ io else _) = _
  rw [if_pos hconnect]
  exact connectSocket_of_channel (s := { s with timers := s.timers.eraseIdx k }) hchannel hio

theorem Inv.ready (h : s.Inv) (hidle : s.Idle) (hchannel : s.channel = none) (htodo : s.todo = [])
    (delay : Nat) :
    Ready { s with state := .kDisconnected, retryDelayMs := delay, connect := true } :=
  (h.resting hidle.1).ready hchannel rfl rfl rfl hidle.2 (List.Subset.refl _) htodo
    (h.eventHandling htodo)

/-- `start()` on another thread: the assignment … -/
theorem Inv.step_start (h : s.Inv) {t : Nat} (hidle : s.Idle) (hstate : s.state = .kDisconnected) :
    Inv { s with connect := true, starting := t :: s.starting } := by
  have hrest := h.resting hidle.1
  have hstarts : pendingStarts { s with connect := true, starting := t :: s.starting } = 1 := by
    have hzero := hidle.2
    simp only [pendingStarts, length_cons] at hzero ⊢
    omega
  refine ⟨.inl { hrest with starts := Nat.le_of_eq hstarts, connected := ?_ },
    h.event.congr rfl rfl rfl rfl⟩
  intro hs
  simp [hstate] at hs

/-- … and the push. -/
theorem Inv.step_startPush (h : s.Inv) {t : Nat} (hmem : t ∈ s.starting) :
    Inv { s.queueInLoop .startInLoop with starting := s.starting.erase t } := by
  have hrest : s.Resting := h.phase.resolve_right fun ⟨ch, hatt⟩ => by
    simp [hatt.starting] at hmem
  have hlen := length_pos_of_mem hmem
  have herase := length_erase_of_mem hmem
  have hcount : (s.queueInLoop .startInLoop).pendingFunctors.count .startInLoop =
      s.pendingFunctors.count .startInLoop + 1 := by
    simp [queueInLoop]
  have hstarts : pendingStarts { s.queueInLoop .startInLoop with
      starting := s.starting.erase t } = s.pendingStarts := by
    simp only [pendingStarts, hcount, herase]
    simp only [queueInLoop]
    omega
  refine ⟨.inl { hrest with
    starts := hstarts ▸ hrest.starts
    connected := fun hs => hstarts ▸ hrest.connected hs
    work := ?_ }, h.event.congr rfl rfl rfl rfl⟩
  show (s.queueInLoop .startInLoop).work = _
  rw [work_queueInLoop, hrest.work, hcount, replicate_succ', append_assoc]
  rfl

theorem callbacks_eq (revents : Events) (h : callbacks revents ≠ []) :
    callbacks revents = [.error] ∨ callbacks revents = [.write] ∨
      callbacks revents = [.error, .write] := by
  unfold callbacks Channel.handleEventWithGuard at h ⊢
  split_ifs at h ⊢ <;> simp_all

theorem Inv.step_event (h : s.Inv) (revents : Events) :
    ∃ s', s.step (.event revents) = .ok s' ∧ s'.Inv ∧ s.Served s' := by
  simp only [step]
  cases hch : s.channel with
  | none => exact ⟨s, rfl, h, .refl s⟩
  | some ch =>
    by_cases hrun : ch.addedToLoop ∧ s.todo = [] ∧ callbacks revents ≠ []
    · simp only [if_pos hrun]
      obtain hrest | ⟨ch', hatt⟩ := h.phase
      · simp [(hrest.channel ch hch).1] at hrun
      · obtain rfl : ch' = ch := Option.some.inj (hatt.channel.symm.trans hch)
        refine ⟨_, rfl, ⟨.inr ⟨ch', { hatt with }⟩, ?_⟩, .nothing rfl rfl (.inl rfl), rfl, rfl, id⟩
        exact .begun ch' hatt.state hatt.channel rfl (callbacks_eq revents hrun.2.2)
    · exact ⟨s, if_neg hrun, h, .refl s⟩

theorem Inv.handleError (h : s.Inv) (hatt : s.Attempting ch) :
    ∃ t, s.handleError = .ok t ∧ t.Resting ∧ t.state = .kDisconnected ∧ s.Served t := by
  obtain ⟨p, ch', hremove, hadded, hnone⟩ :=
    removeAndResetChannel_eq hatt.channel hatt.tracked hatt.index (h.active hatt)
  refine ⟨(s.detached p ch').retry ch.fd, ?_, hatt.retry hadded hnone, retry_state ..,
    hatt.served_retry p ch'⟩
  rw [Connector.handleError, if_pos hatt.state, hremove]
  rfl

theorem Inv.handleWrite (h : s.Inv) (hatt : s.Attempting ch) (so : SocketError) :
    ∃ t, s.handleWrite so = .ok t ∧ t.Resting ∧ s.Served t := by
  obtain ⟨p, ch', hremove, hadded, hnone⟩ :=
    removeAndResetChannel_eq hatt.channel hatt.tracked hatt.index (h.active hatt)
  rw [Connector.handleWrite, if_pos hatt.state, hremove]
  by_cases herr : so.err ≠ 0
  · exact ⟨_, if_pos herr, hatt.retry hadded hnone, hatt.served_retry p ch'⟩
  · by_cases hself : so.selfConnect = true
    · exact ⟨_, (if_neg herr).trans (if_pos hself), hatt.retry hadded hnone,
        hatt.served_retry p ch'⟩
    · exact ⟨_, (if_neg herr).trans (if_neg hself), hatt.connected hadded hnone,
        hatt.served_connected p ch'⟩

theorem Resting.inv_endCallback (h : s.Resting) : (s.endCallback []).Inv :=
  ⟨.inl (h.endCallback []), .done rfl rfl⟩

/-- **The next callback.** After `handleError` the write callback of the same
event finds the connector disconnected. -/
theorem Inv.step_callback (h : s.Inv) (so : SocketError) :
    ∃ s', s.step (.callback so) = .ok s' ∧ s'.Inv ∧ s.Served s' := by
  simp only [step]
  cases h.event with
  | done ht _ =>
    rw [ht]
    exact ⟨s, rfl, h, .refl s⟩
  | failed hs ht =>
    have hrest := h.resting (by simp [hs])
    have hok : s.handleWrite so = .ok s := by
      rw [Connector.handleWrite, if_neg hrest.state, check_of hs]
      rfl
    refine ⟨s.endCallback [], ?_, hrest.inv_endCallback, (Served.refl s).endCallback []⟩
    rw [ht]
    simp only [reduceCtorEq, if_false, hok]
    rfl
  | begun ch hs hch hcur ht =>
    obtain ⟨ch', hatt⟩ := h.attempting hs
    obtain ht | ht | ht := ht
    · obtain ⟨t, hok, hrest, -, hserved⟩ := h.handleError hatt
      refine ⟨t.endCallback [], ?_, hrest.inv_endCallback, hserved.endCallback []⟩
      rw [ht]
      simp only [if_true, hok]
      rfl
    · obtain ⟨t, hok, hrest, hserved⟩ := h.handleWrite hatt so
      refine ⟨t.endCallback [], ?_, hrest.inv_endCallback, hserved.endCallback []⟩
      rw [ht]
      simp only [reduceCtorEq, if_false, hok]
      rfl
    · obtain ⟨t, hok, hrest, hstate, hserved⟩ := h.handleError hatt
      refine ⟨t.endCallback [.write], ?_, ⟨.inl (hrest.endCallback _), .failed hstate rfl⟩,
        hserved.endCallback _⟩
      rw [ht]
      simp only [if_true, hok]
      rfl

/-- The steps of the loop thread other than `start()`, `restart()` and `stop()`,
and the push of another thread. -/
def Serves (s : Connector) : Label → Prop
  | .startPush _ | .runFunctor _ | .event _ | .callback _ => True
  | .timer k io => k < s.timers.length ∧ s.CanRun io → s.connect = true →
      connects io.errno = true → s.channel = none
  | .start _ | .startHere _ | .restart _ | .stop _ | .stopPush _ | .stopHere => False

/-- **A step of the loop thread** keeps the invariant, no assertion fails, and
what it does to the sockets is known. -/
theorem Inv.step_served (h : s.Inv) {a : Label} (ha : s.Serves a) :
    ∃ s', s.step a = .ok s' ∧ s'.Inv ∧ s.Served s' := by
  cases a with
  | startPush t =>
    by_cases hmem : t ∈ s.starting
    · exact ⟨_, if_pos hmem, h.step_startPush hmem, .nothing rfl rfl (.inl rfl), rfl, rfl,
        fun hs => by simpa [queueInLoop] using hs⟩
    · exact ⟨s, if_neg hmem, h, .refl s⟩
  | runFunctor io => exact h.step_runFunctor io
  | timer k io => exact h.step_timer ha
  | event revents => exact h.step_event revents
  | callback so => exact h.step_callback so
  | start _ | startHere _ | restart _ | stop _ | stopPush _ | stopHere => contradiction

theorem Inv.step_startHere (h : s.Inv) (hidle : s.Idle) (hstate : s.state = .kDisconnected)
    (hchannel : s.channel = none) (hrun : s.CanRun io) :
    ∃ s', s.step (.startHere io) = .ok s' ∧ s'.Inv ∧ Served { s with connect := true } s' := by
  have hready : Ready { s with connect := true } := by
    have hsame := h.ready hidle hchannel hrun.1 s.retryDelayMs
    rwa [← hstate] at hsame
  obtain ⟨s', hok, hserved⟩ := hready.startInLoop hrun.2
  exact ⟨s', (if_pos hrun).trans hok, hserved⟩

theorem Inv.step_restart (h : s.Inv) (hidle : s.Idle) (hchannel : s.channel = none)
    (hrun : s.CanRun io) :
    ∃ s', s.step (.restart io) = .ok s' ∧ s'.Inv ∧ Served { s with
      state := .kDisconnected, retryDelayMs := kInitRetryDelayMs, connect := true } s' := by
  obtain ⟨s', hok, hserved⟩ := (h.ready hidle hchannel hrun.1 kInitRetryDelayMs).startInLoop hrun.2
  exact ⟨s', (if_pos hrun).trans hok, hserved⟩

/-- **Every step** keeps the invariant, and no assertion fails. -/
theorem Inv.step (h : s.Inv) {a : Label} (ha : s.Disciplined a) :
    ∃ s', s.step a = .ok s' ∧ s'.Inv := by
  have hserves : s.Serves a → ∃ s', s.step a = .ok s' ∧ s'.Inv := fun hs => by
    obtain ⟨s', hok, hinv, -⟩ := h.step_served hs
    exact ⟨s', hok, hinv⟩
  cases a with
  | start t => exact ⟨_, rfl, h.step_start ha.1 ha.2⟩
  | startHere io =>
    by_cases hrun : s.CanRun io
    · obtain ⟨s', hok, hinv, -⟩ := h.step_startHere ha.1 ha.2.1 ha.2.2 hrun
      exact ⟨s', hok, hinv⟩
    · exact ⟨s, if_neg hrun, h⟩
  | restart io =>
    by_cases hrun : s.CanRun io
    · obtain ⟨s', hok, hinv, -⟩ := h.step_restart ha.1 ha.2 hrun
      exact ⟨s', hok, hinv⟩
    · exact ⟨s, if_neg hrun, h⟩
  | stop t => exact ⟨_, rfl, h.congr rfl rfl rfl rfl rfl rfl rfl rfl⟩
  | stopPush t =>
    by_cases hmem : t ∈ s.stopping
    · exact ⟨_, if_pos hmem, h.congr rfl rfl rfl rfl rfl rfl rfl (by simp [work, queueInLoop])⟩
    · exact ⟨s, if_neg hmem, h⟩
  | stopHere =>
    by_cases htodo : s.todo = []
    · exact ⟨_, if_pos htodo, h.congr rfl rfl rfl rfl rfl rfl rfl (by simp [work, queueInLoop])⟩
    · exact ⟨s, if_neg htodo, h⟩
  | timer k io => exact hserves fun _ _ _ => ha
  | startPush _ | runFunctor _ | event _ | callback _ => exact hserves trivial

end

/-- **At most one attempt.** In every run whose calls of `start()` and
`restart()` find the connector idle, and whose timers expire after
`resetChannel`, no assertion fails, and at most one socket is being connected in
any state. -/
theorem one_attempt_of_disciplined (p : EPollPoller) (as : List Label)
    (h : Meets step Disciplined (create p) as) :
    ∃ s, run step (create p) as = .ok s ∧ s.OneAttempt := by
  obtain ⟨s, hok, hinv⟩ := exists_run (fun s a hinv ha => Inv.step hinv ha) (inv_create p) h
  exact ⟨s, hok, hinv.oneAttempt⟩

def emptyPoller : EPollPoller := ⟨fun _ => none, fun _ => none, []⟩

/-- The connection is refused at first, made by the timer, reported with an
error and a write event, and tried once more. -/
theorem one_attempt_of_disciplined_retries :
    ∃ s, run step (create emptyPoller)
        [.start 1, .startPush 1, .runFunctor ⟨5, .ECONNREFUSED⟩, .timer 0 ⟨5, .EINPROGRESS⟩,
          .event { pollOut := true, pollErr := true }, .callback ⟨111, false⟩, .stop 1,
          .callback ⟨0, false⟩, .runFunctor ⟨5, .zero⟩, .timer 0 ⟨6, .zero⟩] = .ok s ∧
      s.OneAttempt :=
  one_attempt_of_disciplined _ _ (by decide)

/-- `stop()` and `start()` while the attempt is under way: `stopInLoop` puts
`resetChannel` behind the new `startInLoop`, which then finds the old channel. -/
theorem stop_start_while_connecting :
    run step (create emptyPoller)
      [.start 1, .startPush 1, .runFunctor ⟨5, .EINPROGRESS⟩, .stop 1, .stopPush 1, .start 1,
        .startPush 1, .runFunctor ⟨6, .zero⟩, .runFunctor ⟨6, .EINPROGRESS⟩] =
      .error (.assertion .connecting) := rfl

end Muduo.Connector
