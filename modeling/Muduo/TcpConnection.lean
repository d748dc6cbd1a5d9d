import Muduo.Buffer
import Muduo.Channel

/-!
# Muduo.TcpConnection

`TcpConnection` (`net/TcpConnection.{h,cc}`) on its loop thread, as the code
computes it, over the models of `Buffer` and `Channel`.

What the kernel answers to `write(2)` and `readv(2)` is an argument of the
function that makes the call.  What the connection does to the outside is
recorded in `log`, oldest first: the calls on the socket and the callbacks of
the user.  The functors it puts on its loop's queue are in `pendingFunctors`.
-/

namespace Muduo

open Lib Buffer

inductive StateE
  | kDisconnected
  | kConnecting
  | kConnected
  | kDisconnecting
deriving DecidableEq, Repr

/-- The values of `errno` that the code tells apart. -/
inductive Errno
  | EWOULDBLOCK
  | EPIPE
  | ECONNRESET
  | other (code : Nat)
deriving DecidableEq, Repr

/-- What the kernel answers to a `write(2)`. -/
inductive WriteResult
  | wrote (n : Nat)
  | failed (errno : Errno)
deriving DecidableEq, Repr

/-- The number of bytes taken out of `len`; the kernel never takes more. -/
def WriteResult.accepted : WriteResult → Nat → Nat
  | .wrote n, len => min n len
  | .failed _, _ => 0

/-- `write(2)` did not return `-1`. -/
def WriteResult.returned : WriteResult → Bool
  | .wrote _ => true
  | .failed _ => false

/-- The errors after which `sendInLoop` gives the rest of its data up. -/
def WriteResult.reset : WriteResult → Bool
  | .wrote _ => false
  | .failed errno => errno = .EPIPE || errno = .ECONNRESET

/-- `readv(2)` fills at most the space it is offered. -/
def Buffer.ReadvResult.upTo (space : Nat) : ReadvResult → ReadvResult
  | .received data => .received (data.take space)
  | .failed errno => .failed errno

namespace TcpConnection

/-- The functors that a connection puts on the queue of its loop. -/
inductive Functor
  | sendInLoop (message : CharRange)
  | forceCloseInLoop
  | writeCompleteCallback
  | highWaterMarkCallback (len : Nat)
deriving DecidableEq

/-- What the outside sees of a connection.  `write` has the bytes passed to
`write(2)` and how many of them the kernel took, `shutdownWrite` the number
of readable bytes in `outputBuffer_` at the call. -/
inductive Effect
  | write (data : List UInt8) (accepted : Nat)
  | shutdownWrite (readable : Nat)
  | connectionCallback (state : StateE)
  | messageCallback
  | closeCallback
  | writeCompleteCallback
  | highWaterMarkCallback (len : Nat)
deriving DecidableEq, Repr

/-- The assertions of `TcpConnection.cc`. -/
inductive Assert
  | sendInLoop
  | connectEstablished
  | handleClose
deriving DecidableEq, Repr

inductive Fault
  | assertion (site : Assert)
  | buffer (fault : Buffer.Fault)
  | channel (fault : Channel.Fault)
deriving DecidableEq, Repr

end TcpConnection

/-- A callback of the user is present here as the flag whether it is set. -/
structure TcpConnection where
  state : StateE
  reading : Bool
  channel : Channel
  inputBuffer : Buffer
  outputBuffer : Buffer
  highWaterMark : Nat
  writeCompleteCallback : Bool
  highWaterMarkCallback : Bool
  loop : EventLoop
  pendingFunctors : List TcpConnection.Functor
  log : List TcpConnection.Effect

namespace TcpConnection

/-- The callbacks that are set when the connection is established. -/
structure Callbacks where
  writeComplete : Bool
  highWaterMark : Option Nat

/-- `TcpConnection::TcpConnection` on the descriptor `fd`, then the setters
of the callbacks. -/
def create (loop : EventLoop) (addr fd : Nat) (cb : Callbacks) : Except Fault TcpConnection := do
  let inputBuffer ← (Buffer.create kInitialSize).mapError .buffer
  let outputBuffer ← (Buffer.create kInitialSize).mapError .buffer
  return {
    state := .kConnecting
    reading := true
    channel := .create addr fd
    inputBuffer := inputBuffer
    outputBuffer := outputBuffer
    highWaterMark := cb.highWaterMark.getD (64 * 1024 * 1024)
    writeCompleteCallback := cb.writeComplete
    highWaterMarkCallback := cb.highWaterMark.isSome
    loop := loop
    pendingFunctors := []
    log := [] }

/-- Record an effect. -/
def emit (c : TcpConnection) (e : Effect) : TcpConnection := { c with log := c.log ++ [e] }

def queueInLoop (c : TcpConnection) (f : Functor) : TcpConnection :=
  { c with pendingFunctors := c.pendingFunctors ++ [f] }

/-- Queue a callback of the user when the condition of the code for it
holds. -/
def queueIf (c : TcpConnection) (cond : Bool) (f : Functor) : TcpConnection :=
  if cond then c.queueInLoop f else c

/-- Call an operation of `channel_`. -/
def onChannel (c : TcpConnection)
    (op : Channel → EventLoop → Except Channel.Fault (EventLoop × Channel)) :
    Except Fault TcpConnection := do
  let (loop, channel) ← (op c.channel c.loop).mapError .channel
  return { c with loop := loop, channel := channel }

/-- Call an operation of `outputBuffer_`. -/
def onOutputBuffer (c : TcpConnection) (op : Buffer → Except Buffer.Fault Buffer) :
    Except Fault TcpConnection := do
  let b ← (op c.outputBuffer).mapError .buffer
  return { c with outputBuffer := b }

/-! ## sending -/

/-- What the direct write of `sendInLoop` leaves behind. -/
structure DirectWrite where
  conn : TcpConnection
  nwrote : Nat
  faultError : Bool

/-- The direct write of `sendInLoop`, when nothing is in the output queue. -/
def writeDirectly (c : TcpConnection) (data : List UInt8) (io : WriteResult) : DirectWrite :=
  if !c.channel.isWriting && c.outputBuffer.readableBytes = 0 then
    let nwrote := io.accepted data.length
    let c := c.emit (.write data nwrote)
    let c := c.queueIf (io.returned && subSize data.length nwrote = 0 && c.writeCompleteCallback)
      .writeCompleteCallback
    ⟨c, nwrote, io.reset⟩
  else ⟨c, 0, false⟩

/-- The high water mark is crossed by this message. -/
def crossesHighWaterMark (c : TcpConnection) (oldLen remaining : Nat) : Bool :=
  c.highWaterMark ≤ addSize oldLen remaining && oldLen < c.highWaterMark && c.highWaterMarkCallback

/-- The rest of a message that was not written directly is buffered. -/
def bufferRest (c : TcpConnection) (rest : List UInt8) : Except Fault TcpConnection := do
  let oldLen := c.outputBuffer.readableBytes
  let c := c.queueIf (c.crossesHighWaterMark oldLen rest.length)
    (.highWaterMarkCallback (addSize oldLen rest.length))
  let c ← c.onOutputBuffer (·.append rest)
  if !c.channel.isWriting then c.onChannel Channel.enableWriting else .ok c

def sendInLoop (c : TcpConnection) (data : List UInt8) (io : WriteResult) :
    Except Fault TcpConnection :=
  -- "disconnected, give up writing"
  if c.state = .kDisconnected then .ok c
  else do
    let w := c.writeDirectly data io
    let remaining := subSize data.length w.nwrote
    check (.assertion .sendInLoop) (remaining ≤ data.length)
    if !w.faultError && 0 < remaining then w.conn.bufferRest (data.drop w.nwrote)
    else .ok w.conn

/-- `TcpConnection::send(const StringPiece&)` on the loop thread. -/
def send (c : TcpConnection) (message : CharRange) (io : WriteResult) :
    Except Fault TcpConnection :=
  if c.state = .kConnected then c.sendInLoop message.data io else .ok c

/-- `TcpConnection::send(Buffer*)` on the loop thread; the caller's buffer is
returned as well. -/
def sendBuffer (c : TcpConnection) (buf : Buffer) (io : WriteResult) :
    Except Fault (TcpConnection × Buffer) :=
  if c.state = .kConnected then do
    let data ← (chars buf.buffer buf.peek buf.readableBytes).mapError .buffer
    let c ← c.sendInLoop data io
    return (c, buf.retrieveAll)
  else .ok (c, buf)

/-! ## closing -/

def shutdownInLoop (c : TcpConnection) : TcpConnection :=
  if !c.channel.isWriting then c.emit (.shutdownWrite c.outputBuffer.readableBytes) else c

/-- `TcpConnection::shutdown` on the loop thread. -/
def shutdown (c : TcpConnection) : TcpConnection :=
  if c.state = .kConnected then { c with state := .kDisconnecting }.shutdownInLoop else c

def forceClose (c : TcpConnection) : TcpConnection :=
  if c.state = .kConnected ∨ c.state = .kDisconnecting then
    { c with state := .kDisconnecting }.queueInLoop .forceCloseInLoop
  else c

/-- `TcpConnection::forceCloseWithDelay`: the timer it starts calls
`forceClose`. -/
def forceCloseWithDelay (c : TcpConnection) : TcpConnection :=
  if c.state = .kConnected ∨ c.state = .kDisconnecting then { c with state := .kDisconnecting }
  else c

/-- `TcpConnection::handleClose` up to and including `connectionCallback_`. -/
def closeChannel (c : TcpConnection) : Except Fault TcpConnection := do
  check (.assertion .handleClose) (c.state = .kConnected ∨ c.state = .kDisconnecting)
  let c ← { c with state := .kDisconnected }.onChannel Channel.disableAll
  return c.emit (.connectionCallback c.state)

def handleClose (c : TcpConnection) : Except Fault TcpConnection := do
  let c ← c.closeChannel
  return c.emit .closeCallback

def forceCloseInLoop (c : TcpConnection) : Except Fault TcpConnection :=
  if c.state = .kConnected ∨ c.state = .kDisconnecting then c.handleClose else .ok c

/-! ## flow control -/

def startReadInLoop (c : TcpConnection) : Except Fault TcpConnection :=
  if !c.reading || !c.channel.isReading then do
    let c ← c.onChannel Channel.enableReading
    return { c with reading := true }
  else .ok c

def stopReadInLoop (c : TcpConnection) : Except Fault TcpConnection :=
  if c.reading || c.channel.isReading then do
    let c ← c.onChannel Channel.disableReading
    return { c with reading := false }
  else .ok c

/-! ## the server's side -/

def connectEstablished (c : TcpConnection) : Except Fault TcpConnection := do
  check (.assertion .connectEstablished) (c.state = .kConnecting)
  let c ← { c with state := .kConnected }.onChannel Channel.enableReading
  return c.emit (.connectionCallback c.state)

/-- `TcpConnection::connectDestroyed` before `channel_->remove()`. -/
def leaveConnected (c : TcpConnection) : Except Fault TcpConnection :=
  if c.state = .kConnected then do
    let c ← { c with state := .kDisconnected }.onChannel Channel.disableAll
    return c.emit (.connectionCallback c.state)
  else .ok c

def connectDestroyed (c : TcpConnection) : Except Fault TcpConnection := do
  let c ← c.leaveConnected
  c.onChannel Channel.remove

/-! ## channel events -/

/-- `TcpConnection::handleRead` without the call of `handleClose`, with the
return value of `readFd`; `handleError` only logs. -/
def readInput (c : TcpConnection) (io : ReadvResult) : Except Fault (TcpConnection × Int) := do
  let (b, n) ← (c.inputBuffer.readFd (io.upTo c.inputBuffer.offered)).mapError .buffer
  let c := { c with inputBuffer := b }
  return (if 0 < n then c.emit .messageCallback else c, n)

def handleRead (c : TcpConnection) (io : ReadvResult) : Except Fault TcpConnection := do
  let (c, n) ← c.readInput io
  if n = 0 then c.handleClose else return c

/-- The rest of `handleWrite` once the output buffer is empty. -/
def drained (c : TcpConnection) : Except Fault TcpConnection := do
  let c ← c.onChannel Channel.disableWriting
  let c := c.queueIf c.writeCompleteCallback .writeCompleteCallback
  return if c.state = .kDisconnecting then c.shutdownInLoop else c

def handleWrite (c : TcpConnection) (io : WriteResult) : Except Fault TcpConnection :=
  if c.channel.isWriting then do
    let data ← (chars c.outputBuffer.buffer c.outputBuffer.peek
      c.outputBuffer.readableBytes).mapError .buffer
    let n := io.accepted data.length
    let c := c.emit (.write data n)
    if 0 < n then do
      let c ← c.onOutputBuffer (·.retrieve n)
      if c.outputBuffer.readableBytes = 0 then c.drained else .ok c
    else .ok c
  else .ok c

/-! ## queued functors -/

/-- The loop runs a functor of the connection. -/
def runFunctor (c : TcpConnection) (f : Functor) (io : WriteResult) :
    Except Fault TcpConnection :=
  match f with
  | .sendInLoop message => c.sendInLoop message.data io
  | .forceCloseInLoop => c.forceCloseInLoop
  | .writeCompleteCallback => .ok (c.emit .writeCompleteCallback)
  | .highWaterMarkCallback len => .ok (c.emit (.highWaterMarkCallback len))

end TcpConnection

end Muduo
