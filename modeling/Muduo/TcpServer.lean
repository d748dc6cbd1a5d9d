import Mathlib.Data.List.AList
import Muduo.Format
import Muduo.Lib.Fifo
import Muduo.TcpConnection

/-!
# Muduo.TcpServer

`muduo::net::TcpServer` with its base loop, the loops of its thread pool and
the connections it has accepted.

A loop is a first-in first-out queue of functors, which `runInLoop` bypasses
when the target is the loop it is called on.  Of a `TcpConnection` there is
what the server and the loops depend on: its name, its loop, `state_`, and
whether its channel is registered for events.

`log` records what is run, and on which loop; no code reads it.
-/

namespace Muduo

open Lib Function

/-! ## names -/

def INT_MAX : Nat := 2 ^ 31 - 1

/-- The size of a buffer that is large enough for `inet_ntop`. -/
def INET6_ADDRSTRLEN : Nat := 46

/-- An address as it is printed: the text that `inet_ntop` makes of it, and
the port. -/
structure InetAddress where
  ip : List Char
  port : Fin (2 ^ 16)
  ip_length : ip.length < INET6_ADDRSTRLEN

instance neZeroPort : NeZero (2 ^ 16) := ⟨by decide⟩

theorem length_localhost : "127.0.0.1".toList.length < INET6_ADDRSTRLEN := by decide

def InetAddress.toIpPort (a : InetAddress) : List Char :=
  a.ip ++ snprintf (64 - a.ip.length) (':' :: decimal a.port)

/-! ## loops -/

abbrev LoopId := Nat

abbrev ConnId := Nat

/-- The loop of the acceptor. -/
def baseLoop : LoopId := 0

/-- `EventLoopThreadPool`, started. -/
structure EventLoopThreadPool where
  loops : List LoopId
  next : Nat

/-- `getNextLoop()`; nothing is returned for an index out of range. -/
def EventLoopThreadPool.getNextLoop (p : EventLoopThreadPool) :
    Option (LoopId × EventLoopThreadPool) :=
  if p.loops = [] then some (baseLoop, p)
  else p.loops[p.next]?.map fun l =>
    (l, { p with next := if p.loops.length ≤ p.next + 1 then 0 else p.next + 1 })

/-- The functors that the server puts on the queues of the loops. -/
inductive ServerFunctor
  | connectEstablished (c : ConnId)
  | removeConnectionInLoop (c : ConnId)
  | connectDestroyed (c : ConnId)
deriving DecidableEq

def ServerFunctor.conn : ServerFunctor → ConnId
  | .connectEstablished c | .removeConnectionInLoop c | .connectDestroyed c => c

/-- What was run.  `erased` has the connection whose entry went. -/
inductive ServerEvent
  | established (loop : LoopId) (c : ConnId)
  | event (loop : LoopId) (c : ConnId)
  | closed (loop : LoopId) (c : ConnId)
  | erased (c : ConnId) (entry : Option ConnId)
  | destroyed (loop : LoopId) (c : ConnId)
deriving DecidableEq

/-- A `TcpConnection`, seen from the server. -/
structure ServerConn where
  name : List Char
  loop : LoopId
  state : StateE
  registered : Bool
deriving DecidableEq

inductive TcpServer.Assert
  | connectEstablished
  | handleClose
  | removeConnectionInLoop
  | removeChannel
deriving DecidableEq

inductive TcpServer.Fault
  | assertion (a : TcpServer.Assert)
  | notInLoopThread
  | loopOutOfRange
  | noConnection
deriving DecidableEq

namespace ServerConn

def connectEstablished (k : ServerConn) : Except TcpServer.Fault ServerConn := do
  check (.assertion .connectEstablished) (k.state = .kConnecting)
  return { k with state := .kConnected, registered := true }

/-- `TcpConnection::handleClose`, without the call of `closeCallback_`. -/
def handleClose (k : ServerConn) : Except TcpServer.Fault ServerConn := do
  check (.assertion .handleClose) (k.state = .kConnected ∨ k.state = .kDisconnecting)
  return { k with state := .kDisconnected, registered := false }

def connectDestroyed (k : ServerConn) : Except TcpServer.Fault ServerConn := do
  let k :=
    if k.state = .kConnected then { k with state := .kDisconnected, registered := false } else k
  -- `channel_->remove()`
  check (.assertion .removeChannel) (k.registered = false)
  return k

end ServerConn

structure TcpServer where
  ipPort : List Char
  name : List Char
  threadPool : EventLoopThreadPool
  nextConnId : Nat
  connections : AList fun _ : List Char => ConnId
  conn : ConnId → Option ServerConn
  queues : LoopId → Fifo ServerFunctor
  log : List ServerEvent

namespace TcpServer

/-- A server that has been started, with the loops of its thread pool. -/
def create (listenAddr : InetAddress) (nameArg : List Char) (loops : List LoopId) : TcpServer where
  ipPort := listenAddr.toIpPort
  name := nameArg
  threadPool := ⟨loops, 0⟩
  nextConnId := 1
  connections := ∅
  conn := fun _ => none
  queues := fun _ => .empty
  log := []

def deref (s : TcpServer) (c : ConnId) : Except Fault ServerConn :=
  match s.conn c with
  | some k => .ok k
  | none => .error .noConnection

def setConn (s : TcpServer) (c : ConnId) (k : ServerConn) : TcpServer :=
  { s with conn := update s.conn c (some k) }

def record (s : TcpServer) (ev : ServerEvent) : TcpServer := { s with log := s.log ++ [ev] }

def queueInLoop (s : TcpServer) (l : LoopId) (f : ServerFunctor) : TcpServer :=
  { s with queues := update s.queues l ((s.queues l).push f) }

/-- `connectEstablished` of the connection, on the loop `l`. -/
def connectEstablished (s : TcpServer) (l : LoopId) (c : ConnId) : Except Fault TcpServer := do
  let k ← s.deref c
  check .notInLoopThread (k.loop = l)
  let k ← k.connectEstablished
  return (s.setConn c k).record (.established l c)

/-- `connectDestroyed` of the connection, on the loop `l`. -/
def connectDestroyed (s : TcpServer) (l : LoopId) (c : ConnId) : Except Fault TcpServer := do
  let k ← s.deref c
  check .notInLoopThread (k.loop = l)
  let k ← k.connectDestroyed
  return (s.setConn c k).record (.destroyed l c)

/-- `TcpServer::removeConnectionInLoop`, on the loop `l`. -/
def removeConnectionInLoop (s : TcpServer) (l : LoopId) (c : ConnId) : Except Fault TcpServer := do
  check .notInLoopThread (l = baseLoop)
  let k ← s.deref c
  let entry := s.connections.lookup k.name
  let n := if entry.isSome then 1 else 0
  check (.assertion .removeConnectionInLoop) (n = 1)
  let s := { s with connections := s.connections.erase k.name }
  return (s.record (.erased c entry)).queueInLoop k.loop (.connectDestroyed c)

/-- A functor is called, on the loop `l`. -/
def call (s : TcpServer) (l : LoopId) : ServerFunctor → Except Fault TcpServer
  | .connectEstablished c => s.connectEstablished l c
  | .removeConnectionInLoop c => s.removeConnectionInLoop l c
  | .connectDestroyed c => s.connectDestroyed l c

/-- `target->runInLoop(f)`, on the loop `l`. -/
def runInLoop (s : TcpServer) (l target : LoopId) (f : ServerFunctor) : Except Fault TcpServer :=
  if l = target then s.call l f else .ok (s.queueInLoop target f)

/-- The name that `newConnection` gives to the connection number `c`. -/
def connName (s : TcpServer) (c : ConnId) : List Char :=
  s.name ++ snprintf 64 ('-' :: s.ipPort ++ '#' :: decimal c)

/-- The connection number `nextConnId_` is made, on the loop `ioLoop`. -/
def addConnection (s : TcpServer) (ioLoop : LoopId) (threadPool : EventLoopThreadPool) :
    TcpServer :=
  let connName := s.connName s.nextConnId
  { s with
    threadPool,
    nextConnId := s.nextConnId + 1,
    conn := update s.conn s.nextConnId (some ⟨connName, ioLoop, .kConnecting, false⟩),
    connections := s.connections.insert connName s.nextConnId }

/-- `TcpServer::newConnection`, on the base loop. -/
def newConnection (s : TcpServer) : Except Fault TcpServer :=
  match s.threadPool.getNextLoop with
  | none => .error .loopOutOfRange
  | some (ioLoop, threadPool) =>
    (s.addConnection ioLoop threadPool).runInLoop baseLoop ioLoop
      (.connectEstablished s.nextConnId)

/-- `TcpServer::removeConnection`, on the loop `l`. -/
def removeConnection (s : TcpServer) (l : LoopId) (c : ConnId) : Except Fault TcpServer :=
  s.runInLoop l baseLoop (.removeConnectionInLoop c)

/-- `handleClose` of the connection, on its loop; its `closeCallback_` is
`removeConnection`. -/
def handleClose (s : TcpServer) (c : ConnId) (k : ServerConn) : Except Fault TcpServer := do
  let k ← k.handleClose
  let s := (s.setConn c k).record (.closed k.loop c)
  s.removeConnection k.loop c

inductive Label
  /-- The acceptor has a new connection, on the base loop. -/
  | accept
  /-- The loop calls its next functor. -/
  | callFunctor (l : LoopId)
  /-- An event of the connection is handled on its loop. -/
  | event (c : ConnId)
  /-- `handleClose` of the connection, after an event or from `forceCloseInLoop`. -/
  | close (c : ConnId)
  /-- `shutdown` of the connection, on any thread. -/
  | shutdown (c : ConnId)
deriving DecidableEq

/-- One step of a loop.  A step that is not possible leaves the state
unchanged: a loop without functors has none to call, the poller reports
events of registered channels only, and a connection calls `closeCallback_`
once. -/
def step (s : TcpServer) : Label → Except Fault TcpServer
  | .accept => s.newConnection
  | .callFunctor l => match (s.queues l).waiting with
    | [] => .ok s
    | f :: _ => call { s with queues := update s.queues l (s.queues l).pop } l f
  | .event c => match s.conn c with
    | none => .ok s
    | some k => if k.registered then .ok (s.record (.event k.loop c)) else .ok s
  | .close c => match s.conn c with
    | none => .ok s
    | some k =>
      if k.state = .kConnected ∨ k.state = .kDisconnecting then s.handleClose c k else .ok s
  | .shutdown c => match s.conn c with
    | none => .ok s
    | some k =>
      if k.state = .kConnected then .ok (s.setConn c { k with state := .kDisconnecting })
      else .ok s

end TcpServer

end Muduo
