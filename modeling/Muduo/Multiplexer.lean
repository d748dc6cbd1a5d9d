import Muduo.HttpContext
import Muduo.TcpServer

/-!
# Muduo.Multiplexer

The packets of `examples/multiplexer`, and `MultiplexServer`.

A packet is a header of three bytes, the length of the payload and the id of the
connection in little-endian order, and the payload.  Both programs of the example
make packets and take them apart with the same code; it stands here once.

The clients of a `MultiplexServer` live on several threads, and the backend
connection on one more.  A callback is cut where it takes `mutex_`, so that any
interleaving of the critical sections is a run of `step`; a loop that takes
`mutex_` in each round is one step a round.
-/

namespace Muduo

open Lib

namespace Multiplexer

def kMaxPacketLen : Nat := 255

def kHeaderLen : Nat := 3

/-- The assertions of `multiplexer.cc` and `demux.cc`. -/
inductive Assert
  /-- `assert(len <= kMaxPacketLen)` -/
  | packetLen
  /-- `assert(msg.size() <= kMaxPacketLen)` -/
  | messageSize
  /-- `assert(id > 0 && id <= kMaxConns)` -/
  | contextId
  /-- `assert(availIds_.empty())` when a client goes -/
  | availIdsEmpty
  /-- `assert(clientConns_.empty())` -/
  | clientConnsEmpty
  /-- `assert(availIds_.empty())` when the backend comes -/
  | noIdsLeft
  /-- `socksConns_` has no entry for a packet. -/
  | packetFound
  /-- `assert(socksConns_[connId].pending.readableBytes() == 0)` -/
  | pendingEmpty
  /-- `socksConns_` has an entry already when the connection comes up. -/
  | upNotFound
  /-- `socksConns_` has no entry when the connection goes down. -/
  | downFound
  /-- `socksConns_` has no entry in `onSocksConnection`. -/
  | socksConnectionFound
  /-- `socksConns_` has no entry in `onSocksMessage`. -/
  | socksMessageFound
deriving DecidableEq

inductive Fault
  | assertion (a : Assert)
  | buffer (e : Buffer.Fault)
  | diverges
deriving DecidableEq

/-! ## packets -/

structure Packet where
  id : Nat
  payload : List UInt8
deriving DecidableEq

/-- `uint8_t header[kHeaderLen]` -/
def header (id len : Nat) : List UInt8 :=
  [UInt8.ofNat len, UInt8.ofNat (id &&& 0xFF), UInt8.ofNat ((id &&& 0xFF00) >>> 8)]

/-- `conn->send(buf)`: the bytes that go out, if the connection is up, and the
buffer afterwards. -/
def send (connected : Bool) (buf : Buffer) : Except Fault (Option (List UInt8) × Buffer) :=
  if connected then do
    let bytes ← (Buffer.chars buf.buffer buf.peek buf.readableBytes).mapError .buffer
    return (some bytes, buf.retrieveAll)
  else .ok (none, buf)

/-- `sendBackendPacket` and `sendServerPacket`.  Without a connection nothing is
sent, but the header is in the buffer. -/
def sendPacket (connected : Bool) (id : Nat) (buf : Buffer) :
    Except Fault (Option (List UInt8) × Buffer) := do
  let len := buf.readableBytes
  check (.assertion .packetLen) (len ≤ kMaxPacketLen)
  let buf ← (buf.prepend (header id len)).mapError .buffer
  send connected buf

/-- A packet made of the bytes `msg`, in a buffer of its own. -/
def sendBytes (connected : Bool) (id : Nat) (msg : List UInt8) :
    Except Fault (Option (List UInt8)) := do
  let packet ← (Buffer.create Buffer.kInitialSize).mapError .buffer
  let packet ← (packet.append msg).mapError .buffer
  let (sent, _) ← sendPacket connected id packet
  return sent

/-- One round of the loop that chops a buffer, in `sendBackendBuffer` and in
`onSocksMessage`; the last packet is made in place.  The third component says that
the loop goes on. -/
def sendRound (connected : Bool) (id : Nat) (buf : Buffer) :
    Except Fault (Option (List UInt8) × Buffer × Bool) :=
  if kMaxPacketLen < buf.readableBytes then do
    let chunk ← (Buffer.chars buf.buffer buf.peek kMaxPacketLen).mapError .buffer
    let buf ← (buf.retrieve kMaxPacketLen).mapError .buffer
    let sent ← sendBytes connected id chunk
    return (sent, buf, true)
  else if 0 < buf.readableBytes then do
    let (sent, buf) ← sendPacket connected id buf
    return (sent, buf, false)
  else .ok (none, buf, false)

/-- The packet at the front of the buffer, if it is complete: the condition of the
loops of `sendToClient` and `onServerMessage`, and what they read. -/
def nextPacket (buf : Buffer) : Except Fault (Option Packet) :=
  if kHeaderLen < buf.readableBytes then do
    let head ← (Buffer.chars buf.buffer buf.peek kHeaderLen).mapError .buffer
    let len := (head.getD 0 0).toNat
    if buf.readableBytes < len + kHeaderLen then return none
    else
      let id := (head.getD 1 0).toNat ||| (head.getD 2 0).toNat <<< 8
      let payload ← (Buffer.chars buf.buffer (buf.peek + kHeaderLen) len).mapError .buffer
      return some ⟨id, payload⟩
  else .ok none

/-- `buf->retrieve(len + kHeaderLen)` -/
def retrievePacket (buf : Buffer) (p : Packet) : Except Fault Buffer :=
  (buf.retrieve (p.payload.length + kHeaderLen)).mapError .buffer

end Multiplexer

/-! ## the server -/

/-- The digits, the letters from `a` to `f`, the dot and the colon. -/
def isInetChar (ch : Char) : Bool :=
  (48 ≤ ch.toNat && ch.toNat ≤ 58) || (97 ≤ ch.toNat && ch.toNat ≤ 102) || ch.toNat == 46

/-- An address in the characters that `inet_ntop` uses. -/
structure PeerAddress extends InetAddress where
  ip_chars : ip.all isInetChar

theorem isInetChar_localhost : "127.0.0.1".toList.all isInetChar := by decide

abbrev ClientId := Nat

/-- Where the thread of a client is. -/
inductive Multiplexer.Stage
  /-- The connection has not been made. -/
  | new
  /-- `onClientConnection` has left its critical section, with the id that it took. -/
  | accepted (id : Option Nat)
  /-- The thread is in no callback of the connection. -/
  | idle
  /-- In the loop of `sendBackendBuffer`. -/
  | sending
  /-- `onClientConnection` has sent the message that the client is down. -/
  | releasing
  | closed
deriving DecidableEq

/-- A connection of `server_`.  `since` has the number of backend connections there
had been when it was made, and `received` what `onClientMessage` has been called
with; no code reads them. -/
structure Multiplexer.Client where
  stage : Stage
  context : Option Nat
  inputBuffer : Buffer
  since : Nat
  received : List UInt8

/-- The state of the connection that `backendConn_` points to. -/
inductive Multiplexer.BackendState
  | connected
  /-- `handleClose` has begun, and `onBackendConnection` is still to come. -/
  | disconnected
deriving DecidableEq

/-- Bytes that have been sent to the backend as one packet: the id, and the client
that `clientConns_` had for it at that moment. -/
structure Multiplexer.Sent where
  id : Nat
  bytes : List UInt8
  holder : Option ClientId

/-- `kMaxConns`, which is 10 or 65535, and the addresses of the clients. -/
structure Multiplexer.Config where
  kMaxConns : Nat
  kMaxConns_lt : kMaxConns < 2 ^ 16
  peerAddress : ClientId → PeerAddress

/-- `forwarding` says that the thread of the backend is in the loop of
`sendToClient`.  `ups`, `sent` and `delivered` are the history: the backend
connections so far, what they were sent, and what was taken out of what they sent. -/
structure MultiplexServer where
  backendConn : Option Multiplexer.BackendState
  availIds : List Nat
  clientConns : AList fun _ : Nat => ClientId
  clients : ClientId → Multiplexer.Client
  backendInput : Buffer
  forwarding : Bool
  ups : Nat
  sent : List Multiplexer.Sent
  delivered : List (Multiplexer.Packet × Option ClientId)

namespace MultiplexServer

open Multiplexer

def newClient : Client := ⟨.new, none, Buffer.newBuffer, 0, []⟩

def create : MultiplexServer where
  backendConn := none
  availIds := []
  clientConns := ∅
  clients := fun _ => newClient
  backendInput := Buffer.newBuffer
  forwarding := false
  ups := 0
  sent := []
  delivered := []

def setClient (s : MultiplexServer) (c : ClientId) (k : Client) : MultiplexServer :=
  { s with clients := Function.update s.clients c k }

/-- `backendConn_` is set, and its connection is up. -/
def connected (s : MultiplexServer) : Bool := s.backendConn = some .connected

/-- What was sent goes into the history. -/
def record (s : MultiplexServer) (id : Nat) (bytes : Option (List UInt8)) : MultiplexServer :=
  { s with sent := s.sent ++ bytes.toList.map fun bytes => ⟨id, bytes, s.clientConns.lookup id⟩ }

/-- `sendBackendString(0, buf)` -/
def sendBackendString (s : MultiplexServer) (msg : List UInt8) : Except Fault MultiplexServer := do
  check (.assertion .messageSize) (msg.length ≤ kMaxPacketLen)
  let sent ← sendBytes s.connected 0 msg
  return s.record 0 sent

/-- `"CONN %d FROM %s IS " + status + "\r\n"`, in `char buf[256]` -/
def connMessage (id : Nat) (addr : InetAddress) (status : String) : List UInt8 :=
  (snprintf 256 ("CONN ".toList ++ decimal id ++ " FROM ".toList ++ addr.toIpPort ++
    " IS ".toList ++ status.toList ++ "\r\n".toList)).map Char.toUInt8

/-! ## clients -/

/-- The critical section of `onClientConnection` when a client connects. -/
def takeId (s : MultiplexServer) (c : ClientId) : MultiplexServer :=
  let k := { s.clients c with since := s.ups }
  match s.availIds with
  | [] => s.setClient c { k with stage := .accepted none }
  | id :: rest =>
    { s.setClient c { k with stage := .accepted (some id) } with
      availIds := rest, clientConns := s.clientConns.insert id c }

variable (cfg : Config)

/-- The rest of `onClientConnection` when a client has connected. -/
def announce (s : MultiplexServer) (c : ClientId) : Option Nat → Except Fault MultiplexServer
  | none => .ok (s.setClient c { s.clients c with stage := .idle })
  | some id =>
    (s.setClient c { s.clients c with stage := .idle, context := some id }).sendBackendString
      (connMessage id (cfg.peerAddress c).toInetAddress "UP")

/-- `onClientConnection` when a client disconnects, up to its critical section. -/
def disconnect (s : MultiplexServer) (c : ClientId) : Except Fault MultiplexServer :=
  match (s.clients c).context with
  | none => .ok (s.setClient c { s.clients c with stage := .closed })
  | some id => do
    check (.assertion .contextId) (0 < id ∧ id ≤ cfg.kMaxConns)
    (s.setClient c { s.clients c with stage := .releasing }).sendBackendString
      (connMessage id (cfg.peerAddress c).toInetAddress "DOWN")

/-- The critical section of `onClientConnection` when a client disconnects. -/
def releaseId (s : MultiplexServer) (c : ClientId) (id : Nat) : Except Fault MultiplexServer :=
  let s := s.setClient c { s.clients c with stage := .closed }
  if s.backendConn.isSome then
    .ok { s with availIds := s.availIds ++ [id], clientConns := s.clientConns.erase id }
  else do
    check (.assertion .availIdsEmpty) (s.availIds = [])
    check (.assertion .clientConnsEmpty) (s.clientConns.keys = [])
    return s

/-- `handleRead` of the client's connection, and `onClientMessage` up to the loop of
`sendBackendBuffer`. -/
def onClientMessage (s : MultiplexServer) (c : ClientId) (data : List UInt8) :
    Except Fault MultiplexServer := do
  let k := s.clients c
  let (buf, _) ← (k.inputBuffer.readFd (.received data)).mapError .buffer
  let k := { k with received := k.received ++ data }
  match k.context with
  | none => return s.setClient c { k with inputBuffer := buf.retrieveAll }
  | some _ => return s.setClient c { k with inputBuffer := buf, stage := .sending }

/-- One round of `sendBackendBuffer`. -/
def sendBackendBuffer (s : MultiplexServer) (c : ClientId) (id : Nat) :
    Except Fault MultiplexServer := do
  let k := s.clients c
  let (sent, buf, more) ← sendRound s.connected id k.inputBuffer
  let k := { k with inputBuffer := buf, stage := if more then .sending else .idle }
  return (s.record id sent).setClient c k

/-! ## the backend -/

/-- `onBackendConnection` when the backend has come up. -/
def onBackendUp (s : MultiplexServer) : Except Fault MultiplexServer := do
  check (.assertion .noIdsLeft) (s.availIds = [])
  return { s with
    backendConn := some .connected,
    availIds := List.range' 1 cfg.kMaxConns,
    backendInput := Buffer.newBuffer,
    ups := s.ups + 1 }

/-- `onBackendConnection` when the backend has gone.  The connections that are shut
down go on reading. -/
def onBackendDown (s : MultiplexServer) : MultiplexServer :=
  { s with backendConn := none, availIds := [], clientConns := ∅ }

/-- `handleRead` of the backend's connection. -/
def onBackendMessage (s : MultiplexServer) (data : List UInt8) : Except Fault MultiplexServer := do
  let (buf, _) ← (s.backendInput.readFd (.received data)).mapError .buffer
  return { s with backendInput := buf, forwarding := true }

/-- One round of `sendToClient`. -/
def sendToClient (s : MultiplexServer) : Except Fault MultiplexServer := do
  match ← nextPacket s.backendInput with
  | none => return { s with forwarding := false }
  | some p =>
    let buf ← retrievePacket s.backendInput p
    return { s with
      backendInput := buf,
      delivered := s.delivered ++ [(p, s.clientConns.lookup p.id)] }

inductive Label
  | connect (c : ClientId)
  | announce (c : ClientId)
  | message (c : ClientId) (data : List UInt8)
  | send (c : ClientId)
  | disconnect (c : ClientId)
  | release (c : ClientId)
  | backendUp
  | backendLost
  | backendDown
  | backendMessage (data : List UInt8)
  | forward
deriving DecidableEq

/-- What `readv` can have read into the buffer. -/
def Readable (buf : Buffer) (data : List UInt8) : Prop := data ≠ [] ∧ data.length ≤ buf.offered

instance (buf : Buffer) (data : List UInt8) : Decidable (Readable buf data) :=
  inferInstanceAs (Decidable (_ ∧ _))

/-- One step.  A step that is not possible leaves the state unchanged: the callbacks
of a connection are called one after the other, on one thread. -/
def step (s : MultiplexServer) : Label → Except Fault MultiplexServer
  | .connect c => if (s.clients c).stage = .new then .ok (s.takeId c) else .ok s
  | .announce c => match (s.clients c).stage with
    | .accepted id => s.announce cfg c id
    | _ => .ok s
  | .message c data =>
    if (s.clients c).stage = .idle ∧ Readable (s.clients c).inputBuffer data then
      s.onClientMessage c data
    else .ok s
  | .send c => match (s.clients c).stage, (s.clients c).context with
    | .sending, some id => s.sendBackendBuffer c id
    | _, _ => .ok s
  | .disconnect c => if (s.clients c).stage = .idle then s.disconnect cfg c else .ok s
  | .release c => match (s.clients c).stage, (s.clients c).context with
    | .releasing, some id => s.releaseId c id
    | _, _ => .ok s
  | .backendUp => if s.backendConn = none then s.onBackendUp cfg else .ok s
  | .backendLost =>
    if s.connected ∧ ¬ s.forwarding then .ok { s with backendConn := some .disconnected }
    else .ok s
  | .backendDown =>
    if s.backendConn = some .disconnected then .ok s.onBackendDown else .ok s
  | .backendMessage data =>
    if s.connected ∧ ¬ s.forwarding ∧ Readable s.backendInput data then s.onBackendMessage data
    else .ok s
  | .forward => if s.forwarding then s.sendToClient else .ok s

end MultiplexServer

end Muduo
