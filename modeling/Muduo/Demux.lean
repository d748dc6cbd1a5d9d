import Muduo.Multiplexer

/-!
# Muduo.Demux

`DemuxServer` of `examples/multiplexer/demux.cc`, with one loop and so one thread.

The packets of the multiplexer arrive on `serverConn_`.  Those with the id 0 are
commands; the others go to the connection that was made for their id, or wait for it
in `pending`.  What such a connection sends goes back in packets with its id.
-/

namespace Muduo

open Lib Multiplexer

/-! ## commands -/

def isSpace (b : UInt8) : Bool := b = 32 ∨ 9 ≤ b ∧ b ≤ 13

/-- The digits at the front, behind those that make up `n`. -/
def atoiDigits (n : Nat) : List UInt8 → Nat
  | [] => n
  | b :: bs => if 48 ≤ b ∧ b ≤ 57 then atoiDigits (10 * n + (b.toNat - 48)) bs else n

/-- `atoi`, for a number that fits in an `int`. -/
def atoi (text : List UInt8) : Int :=
  match text.dropWhile isSpace with
  | 45 :: bs => -(atoiDigits 0 bs : Int)
  | 43 :: bs => atoiDigits 0 bs
  | bs => atoiDigits 0 bs

/-- `text.find(pattern) != string::npos` -/
def contains (pattern : List UInt8) : List UInt8 → Bool
  | [] => pattern = []
  | b :: bs => pattern.isPrefixOf (b :: bs) || contains pattern bs

/-! ## the server -/

/-- The connection of a `TcpClient`. -/
inductive Demux.SocksState
  | connecting
  | connected
  | disconnected
deriving DecidableEq

/-- `inputBuffer` is that of the connection, and `sent` what was sent to it. -/
structure Demux.Entry where
  state : SocksState
  pending : Buffer
  inputBuffer : Buffer
  sent : List UInt8

/-- `serverInput` is the input buffer of `serverConn_`, which is up.  `sent`,
`extracted` and `received` are the history: the packets that went to it, the packets
that `onServerMessage` took out, and the calls of `onSocksMessage`. -/
structure DemuxServer where
  socksConns : Int → Option Demux.Entry
  serverInput : Buffer
  sent : List (List UInt8)
  extracted : List Packet
  received : List (Int × List UInt8)

namespace DemuxServer

open Demux

def create : DemuxServer := ⟨fun _ => none, Buffer.newBuffer, [], [], []⟩

def newEntry : Entry := ⟨.connecting, Buffer.newBuffer, Buffer.newBuffer, []⟩

/-- `socksConns_[connId]`, behind an assertion that it is there. -/
def find (d : DemuxServer) (connId : Int) (site : Assert) : Except Fault Entry :=
  match d.socksConns connId with
  | some entry => .ok entry
  | none => .error (.assertion site)

def setEntry (d : DemuxServer) (connId : Int) (entry : Option Entry) : DemuxServer :=
  { d with socksConns := Function.update d.socksConns connId entry }

def commandUp (d : DemuxServer) (connId : Int) : Except Fault DemuxServer := do
  check (.assertion .upNotFound) ((d.socksConns connId).isNone)
  return d.setEntry connId (some newEntry)

/-- `socksConn->shutdown()` does not change what is modelled here. -/
def commandDown (d : DemuxServer) (connId : Int) : Except Fault DemuxServer := do
  let entry ← d.find connId .downFound
  return if entry.state = .connecting then d.setEntry connId none else d

def doCommand (d : DemuxServer) (cmd : List UInt8) : Except Fault DemuxServer :=
  let connId := atoi (cmd.drop (ascii "CONN ").length)
  if contains (ascii " IS UP") cmd then d.commandUp connId else d.commandDown connId

/-- A packet with an id other than 0. -/
def onData (d : DemuxServer) (connId : Int) (payload : List UInt8) :
    Except Fault DemuxServer := do
  let entry ← d.find connId .packetFound
  if entry.state = .connecting then
    let pending ← (entry.pending.append payload).mapError .buffer
    return d.setEntry connId (some { entry with pending })
  else
    check (.assertion .pendingEmpty) (entry.pending.readableBytes = 0)
    -- nothing is sent on a connection that is down
    let sent := if entry.state = .connected then payload else []
    return d.setEntry connId (some { entry with sent := entry.sent ++ sent })

/-- What `onServerMessage` does with a packet. -/
def onPacket (d : DemuxServer) (p : Packet) : Except Fault DemuxServer := do
  let d ← (if p.id ≠ 0 then d.onData p.id p.payload else d.doCommand p.payload)
  return { d with extracted := d.extracted ++ [p] }

/-- One round of `onServerMessage`. -/
def takePacket (d : DemuxServer) (p : Packet) : Except Fault DemuxServer := do
  let d ← d.onPacket p
  let serverInput ← retrievePacket d.serverInput p
  return { d with serverInput }

def onServerMessage : Nat → DemuxServer → Except Fault DemuxServer
  | 0, _ => .error .diverges
  | fuel + 1, d => do
    match ← nextPacket d.serverInput with
    | none => return d
    | some p => d.takePacket p >>= onServerMessage fuel

/-- `handleRead` of `serverConn_`. -/
def readServer (d : DemuxServer) (data : List UInt8) : Except Fault DemuxServer := do
  let (serverInput, _) ← (d.serverInput.readFd (.received data)).mapError .buffer
  onServerMessage (serverInput.readableBytes + 1) { d with serverInput }

/-- `"DISCONNECT %d\r\n"` -/
def disconnectMessage (connId : Nat) : List UInt8 :=
  ("DISCONNECT ".toList ++ decimal connId ++ "\r\n".toList).map Char.toUInt8

/-- `onSocksConnection` when the connection has been made. -/
def onSocksUp (d : DemuxServer) (connId : Int) : Except Fault DemuxServer := do
  let entry ← d.find connId .socksConnectionFound
  let entry := { entry with state := .connected }
  if 0 < entry.pending.readableBytes then
    let data ← (Buffer.chars entry.pending.buffer entry.pending.peek
      entry.pending.readableBytes).mapError .buffer
    return d.setEntry connId
      (some { entry with pending := entry.pending.retrieveAll, sent := entry.sent ++ data })
  else return d.setEntry connId (some entry)

/-- `onSocksConnection` when the connection has gone. -/
def onSocksDown (d : DemuxServer) (connId : Nat) : Except Fault DemuxServer := do
  let entry ← d.find connId .socksConnectionFound
  let sent ← sendBytes true 0 (disconnectMessage connId)
  let d := d.setEntry connId (some { entry with state := .disconnected })
  return { d with sent := d.sent ++ sent.toList }

/-- The loop of `onSocksMessage`, with what it sends. -/
def sendLoop (connId : Nat) : Nat → List (List UInt8) → Buffer →
    Except Fault (List (List UInt8) × Buffer)
  | 0, _, _ => .error .diverges
  | fuel + 1, sent, buf => do
    let (bytes, buf, more) ← sendRound true connId buf
    let sent := sent ++ bytes.toList
    if more then sendLoop connId fuel sent buf else return (sent, buf)

/-- `handleRead` of a connection, and `onSocksMessage`. -/
def onSocksMessage (d : DemuxServer) (connId : Nat) (entry : Entry) (data : List UInt8) :
    Except Fault DemuxServer := do
  let (buf, _) ← (entry.inputBuffer.readFd (.received data)).mapError .buffer
  let entry ← d.find connId .socksMessageFound
  let (sent, inputBuffer) ← sendLoop connId (buf.readableBytes + 1) d.sent buf
  let d := d.setEntry connId (some { entry with inputBuffer })
  return { d with sent, received := d.received ++ [((connId : Int), data)] }

inductive Label
  | server (data : List UInt8)
  | socksUp (connId : Nat)
  | socksDown (connId : Nat)
  | socks (connId : Nat) (data : List UInt8)
deriving DecidableEq

/-- One event of the loop.  Only a `TcpClient` that is in `socksConns_` has events:
with its entry it is destroyed. -/
def step (d : DemuxServer) : Label → Except Fault DemuxServer
  | .server data =>
    if MultiplexServer.Readable d.serverInput data then d.readServer data else .ok d
  | .socksUp connId => match d.socksConns connId with
    | some entry => if entry.state = .connecting then d.onSocksUp connId else .ok d
    | none => .ok d
  | .socksDown connId => match d.socksConns connId with
    | some entry => if entry.state = .connected then d.onSocksDown connId else .ok d
    | none => .ok d
  | .socks connId data => match d.socksConns connId with
    | some entry =>
      if entry.state = .connected ∧ MultiplexServer.Readable entry.inputBuffer data then
        d.onSocksMessage connId entry data
      else .ok d
    | none => .ok d

end DemuxServer

end Muduo
