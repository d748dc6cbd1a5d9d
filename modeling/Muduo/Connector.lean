import Muduo.Channel

/-!
# Muduo.Connector

`muduo::net::Connector` with the loop it runs on: the queue of functors, the
retry timers, and the poller.

`connect_` is assigned by the thread that calls `start()` or `stop()`; the rest
is done on the loop, by a functor.  For a thread other than that of the loop the
assignment and the push of the functor are two steps.  A timer that `retry` has
set is never cancelled, and `channel_` is destroyed by a functor that
`removeAndResetChannel` pushes.

The answers of the kernel come with the step that asks for them: the descriptor
of a new socket, `errno` of `connect(2)`, `SO_ERROR`, and whether the socket is
connected to itself.

A functor, a timer callback and a callback of the channel each run in one step.

`sockets` has the sockets that the connector has made and neither closed nor
handed to `newConnectionCallback_`, and `log` what has happened to each of them;
no code reads the two.
-/

namespace Muduo

open Lib

/-- `errno` after `connect(2)`, as the switch in `Connector::connect` tells the
values apart. -/
inductive ConnectErrno
  | zero
  | EINPROGRESS
  | EINTR
  | EISCONN
  | EAGAIN
  | EADDRINUSE
  | EADDRNOTAVAIL
  | ECONNREFUSED
  | ENETUNREACH
  | EACCES
  | EPERM
  | EAFNOSUPPORT
  | EALREADY
  | EBADF
  | EFAULT
  | ENOTSOCK
  | other (n : Nat)
deriving DecidableEq, Repr

/-- The answers of the kernel to `socket(2)` and `connect(2)`. -/
structure ConnectIo where
  sockfd : Nat
  errno : ConnectErrno
deriving DecidableEq, Repr

/-- `SO_ERROR` of a socket, and `isSelfConnect`. -/
structure SocketError where
  err : Nat
  selfConnect : Bool
deriving DecidableEq, Repr

inductive Connector.States
  | kDisconnected
  | kConnecting
  | kConnected
deriving DecidableEq, Repr

inductive Connector.Functor
  | startInLoop
  | stopInLoop
  | resetChannel
deriving DecidableEq, Repr

inductive Connector.Assert
  | startInLoop
  | connecting
  | handleWrite
  /-- `assert(!addedToLoop_)` of `~Channel` -/
  | channelAdded
  /-- `assert(!loop_->hasChannel(this))` of `~Channel` -/
  | channelInLoop
deriving DecidableEq, Repr

inductive Connector.Fault
  | assertion (site : Connector.Assert)
  | channel (f : Channel.Fault)
  | nullChannel
deriving DecidableEq, Repr

/-- What the connector does to a socket.  `handed` is the call of
`newConnectionCallback_`. -/
inductive Connector.SocketEvent
  | created (sockfd : Nat)
  | handed (sockfd : Nat)
  | closed (sockfd : Nat)
deriving DecidableEq, Repr

/-- `todo` has the callbacks that the running `Channel::handleEvent` has still
to call; `starting` and `stopping` the threads between the assignment to
`connect_` and the push. -/
structure Connector where
  connect : Bool
  state : Connector.States
  channel : Option Channel
  retryDelayMs : Nat
  loop : EventLoop
  pendingFunctors : List Connector.Functor
  timers : List Nat
  todo : List Channel.EventCallback
  starting : List Nat
  stopping : List Nat
  nextAddr : Nat
  sockets : List Nat
  log : List Connector.SocketEvent

namespace Connector

def kMaxRetryDelayMs : Nat := 30 * 1000

def kInitRetryDelayMs : Nat := 500

/-- `Connector::Connector`, on a loop with the poller `p`. -/
def create (p : EPollPoller) : Connector where
  connect := false
  state := .kDisconnected
  channel := none
  retryDelayMs := kInitRetryDelayMs
  loop := ⟨p, false, [], none⟩
  pendingFunctors := []
  timers := []
  todo := []
  starting := []
  stopping := []
  nextAddr := 0
  sockets := []
  log := []

def queueInLoop (s : Connector) (f : Functor) : Connector :=
  { s with pendingFunctors := s.pendingFunctors ++ [f] }

/-- `sockets::createNonblockingOrDie` -/
def createSocket (s : Connector) (sockfd : Nat) : Connector :=
  { s with sockets := sockfd :: s.sockets, log := s.log ++ [.created sockfd] }

/-- `sockets::close` -/
def close (s : Connector) (sockfd : Nat) : Connector :=
  { s with sockets := s.sockets.erase sockfd, log := s.log ++ [.closed sockfd] }

/-- `newConnectionCallback_(sockfd)`, which takes the socket over. -/
def newConnectionCallback (s : Connector) (sockfd : Nat) : Connector :=
  { s with sockets := s.sockets.erase sockfd, log := s.log ++ [.handed sockfd] }

def retry (s : Connector) (sockfd : Nat) : Connector :=
  let s := { s.close sockfd with state := .kDisconnected }
  if s.connect then
    { s with
      timers := s.timers ++ [s.retryDelayMs]
      retryDelayMs := min (s.retryDelayMs * 2) kMaxRetryDelayMs }
  else s

def connecting (s : Connector) (sockfd : Nat) : Except Fault Connector := do
  let s := { s with state := .kConnecting }
  check (.assertion .connecting) (s.channel = none)
  let ch := Channel.create s.nextAddr sockfd
  let (loop, ch) ← (ch.enableWriting s.loop).mapError .channel
  return { s with loop, channel := some ch, nextAddr := s.nextAddr + 1 }

def connectSocket (s : Connector) (io : ConnectIo) : Except Fault Connector :=
  let s := s.createSocket io.sockfd
  match io.errno with
  | .zero | .EINPROGRESS | .EINTR | .EISCONN => s.connecting io.sockfd
  | .EAGAIN | .EADDRINUSE | .EADDRNOTAVAIL | .ECONNREFUSED | .ENETUNREACH =>
    .ok (s.retry io.sockfd)
  | .EACCES | .EPERM | .EAFNOSUPPORT | .EALREADY | .EBADF | .EFAULT | .ENOTSOCK =>
    .ok (s.close io.sockfd)
  | .other _ => .ok (s.close io.sockfd)

def startInLoop (s : Connector) (io : ConnectIo) : Except Fault Connector := do
  check (.assertion .startInLoop) (s.state = .kDisconnected)
  if s.connect then s.connectSocket io else .ok s

def restart (s : Connector) (io : ConnectIo) : Except Fault Connector :=
  startInLoop { s with
    state := .kDisconnected, retryDelayMs := kInitRetryDelayMs, connect := true } io

/-- The second component is the descriptor. -/
def removeAndResetChannel (s : Connector) : Except Fault (Connector × Nat) :=
  match s.channel with
  | none => .error .nullChannel
  | some ch => do
    let (loop, ch) ← (ch.disableAll s.loop).mapError .channel
    let (loop, ch) ← (ch.remove loop).mapError .channel
    return (queueInLoop { s with loop, channel := some ch } .resetChannel, ch.fd)

/-- `channel_.reset()`, with the assertions of `~Channel`. -/
def resetChannel (s : Connector) : Except Fault Connector :=
  match s.channel with
  | none => .ok s
  | some ch => do
    check (.assertion .channelAdded) (ch.addedToLoop = false)
    check (.assertion .channelInLoop) (s.loop.poller.channels ch.fd ≠ some ch.addr)
    return { s with channel := none }

def stopInLoop (s : Connector) : Except Fault Connector :=
  if s.state = .kConnecting then do
    let (s, sockfd) ← removeAndResetChannel { s with state := .kDisconnected }
    return s.retry sockfd
  else .ok s

def handleWrite (s : Connector) (so : SocketError) : Except Fault Connector :=
  if s.state = .kConnecting then do
    let (s, sockfd) ← s.removeAndResetChannel
    if so.err ≠ 0 then return s.retry sockfd
    else if so.selfConnect then return s.retry sockfd
    else
      let s := { s with state := .kConnected }
      return if s.connect then s.newConnectionCallback sockfd else s.close sockfd
  else do
    check (.assertion .handleWrite) (s.state = .kDisconnected)
    return s

def handleError (s : Connector) : Except Fault Connector :=
  if s.state = .kConnecting then do
    let (s, sockfd) ← s.removeAndResetChannel
    return s.retry sockfd
  else .ok s

inductive Label
  /-- `start()` on another thread: `connect_ = true`. -/
  | start (t : Nat)
  /-- … and the push of `startInLoop`. -/
  | startPush (t : Nat)
  /-- `start()` on the loop thread. -/
  | startHere (io : ConnectIo)
  | restart (io : ConnectIo)
  /-- `stop()` on another thread: `connect_ = false`. -/
  | stop (t : Nat)
  | stopPush (t : Nat)
  | stopHere
  /-- The loop calls its next functor. -/
  | runFunctor (io : ConnectIo)
  /-- One of the timers expires. -/
  | timer (k : Nat) (io : ConnectIo)
  /-- The poller reports events of the channel. -/
  | event (revents : Events)
  /-- The next callback of the channel is called. -/
  | callback (so : SocketError)
deriving DecidableEq

/-- `socket(2)` returns a descriptor that is not in use. -/
def Unused (s : Connector) (sockfd : Nat) : Prop :=
  sockfd ∉ s.sockets ∧ s.loop.poller.channels sockfd = none ∧
    s.loop.poller.kernel sockfd = none

instance (s : Connector) (sockfd : Nat) : Decidable (s.Unused sockfd) :=
  inferInstanceAs (Decidable (_ ∧ _))

/-- The loop thread is between two events, and `io` is a possible answer. -/
def CanRun (s : Connector) (io : ConnectIo) : Prop := s.todo = [] ∧ s.Unused io.sockfd

instance (s : Connector) (io : ConnectIo) : Decidable (s.CanRun io) :=
  inferInstanceAs (Decidable (_ ∧ _))

def call (s : Connector) (io : ConnectIo) : Functor → Except Fault Connector
  | .startInLoop => s.startInLoop io
  | .stopInLoop => s.stopInLoop
  | .resetChannel => s.resetChannel

/-- The channel has a write and an error callback. -/
def callbacks (revents : Events) : List Channel.EventCallback :=
  (Channel.handleEventWithGuard revents).filter fun cb => cb = .error ∨ cb = .write

/-- `Channel::handleEvent` is entered for the channel of the connector. -/
def beginEvent (s : Connector) (ch : Channel) (todo : List Channel.EventCallback) : Connector :=
  { s with
    todo
    loop := { s.loop with
      eventHandling := true, activeChannels := [ch.addr], currentActiveChannel := some ch.addr } }

/-- The callback has returned; after the last one the event is handled. -/
def endCallback (s : Connector) (rest : List Channel.EventCallback) : Connector :=
  { s with
    todo := rest
    loop := if rest = [] then
      { s.loop with eventHandling := false, currentActiveChannel := none } else s.loop }

/-- One step.  A step that is not possible leaves the state unchanged. -/
def step (s : Connector) : Label → Except Fault Connector
  | .start t => .ok { s with connect := true, starting := t :: s.starting }
  | .startPush t =>
    if t ∈ s.starting then
      .ok { s.queueInLoop .startInLoop with starting := s.starting.erase t }
    else .ok s
  | .startHere io =>
    if s.CanRun io then startInLoop { s with connect := true } io else .ok s
  | .restart io => if s.CanRun io then s.restart io else .ok s
  | .stop t => .ok { s with connect := false, stopping := t :: s.stopping }
  | .stopPush t =>
    if t ∈ s.stopping then
      .ok { s.queueInLoop .stopInLoop with stopping := s.stopping.erase t }
    else .ok s
  | .stopHere =>
    if s.todo = [] then .ok (queueInLoop { s with connect := false } .stopInLoop) else .ok s
  | .runFunctor io => match s.pendingFunctors with
    | [] => .ok s
    | f :: fs =>
      if s.CanRun io then call { s with pendingFunctors := fs } io f else .ok s
  | .timer k io =>
    if k < s.timers.length ∧ s.CanRun io then
      startInLoop { s with timers := s.timers.eraseIdx k } io
    else .ok s
  | .event revents => match s.channel with
    | none => .ok s
    | some ch =>
      if ch.addedToLoop ∧ s.todo = [] ∧ callbacks revents ≠ [] then
        .ok (s.beginEvent ch (callbacks revents))
      else .ok s
  | .callback so => match s.todo with
    | [] => .ok s
    | cb :: rest => do
      let s ← if cb = .error then s.handleError else s.handleWrite so
      return s.endCallback rest

end Connector

end Muduo
