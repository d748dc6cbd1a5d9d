import Muduo.Format
import Muduo.Memcached.Command

/-!
# Muduo.Memcached.Session

A session of the memcached server, `examples/memcached/server/Session.cc`, alone with
the store.

The input buffer is the list of its readable bytes.  `sent` is what the session has
passed to `conn_->send` while the connection was up; `protocol_` is `kAscii` from the
constructor on.  A round is one pass of the loop of `onMessage`.

No code reads `requests`, the lines that `processRequest` was called with, `count`, the
byte count that is written in the last update that was not refused, `discarded`, the
bytes that `discardValue` has dropped of its data block, `blocks`, the counts with the
sizes of the data blocks that were read to their end, and `overread`, which says whether
a number was scanned past its line.
-/

namespace Muduo.Memcached

open Lib

inductive Session.State
  | kNewCommand
  | kReceiveValue
  | kDiscardValue
deriving DecidableEq, Repr

/-- The assertions of `Session.cc`. -/
inductive Session.Assert
  | receiveItem
  | discardItem
  | command
  | noreply
  | policy
  | currItem
  | bytesToDiscard
  | updateCommand
deriving DecidableEq, Repr

/-- `endIterator` is `*beg` behind the last token, `overflow` that of `bytes + 2`, and
`lineLength` the conversion of the length of a line to `int`. -/
inductive Session.Fault
  | session (site : Session.Assert)
  | item (site : Memcached.Assert)
  | endIterator
  | overflow
  | lineLength
  | diverges
deriving DecidableEq, Repr

/-- `startTime` and `store` are those of the server. -/
structure Session where
  state : Session.State
  command : List UInt8
  noreply : Bool
  policy : UpdatePolicy
  currItem : Option Item
  bytesToDiscard : Nat
  needle : Item
  outputBuf : List UInt8
  requestsProcessed : Nat
  connected : Bool
  sent : List UInt8
  store : Store
  serverStopped : Bool
  requests : List (List UInt8)
  count : Int
  discarded : Nat
  blocks : List (Int × Nat)
  overread : Bool

def Item.resetKey (x : Item) (k : Key) : Except Assert Item := do
  check .resetKey (k.length ≤ kLongestKeySize)
  { x with keylen := k.length, data := [] }.append k

/-- A number as `LogStream` writes it. -/
def numberText (i : Int) : List UInt8 :=
  (if i < 0 then ascii "-" else []) ++ (decimal i.natAbs).map Char.toUInt8

def Item.output (x : Item) (needCas : Bool) : List UInt8 :=
  ascii "VALUE " ++ x.key ++ ascii " " ++ numberText x.flags.toNat ++ ascii " " ++
    numberText (x.valuelen - 2) ++ (if needCas then ascii " " ++ numberText x.cas else []) ++
    Item.crlf ++ x.value.take x.valueLength

namespace Session

/-- A new session: the needle has the key of `kLongestKey` and no value. -/
def create (store : Store) : Session where
  state := .kNewCommand
  command := []
  noreply := false
  policy := .kInvalid
  currItem := none
  bytesToDiscard := 0
  needle := ⟨kLongestKeySize, 0, 0, 2, 0, List.replicate kLongestKeySize 120⟩
  outputBuf := []
  requestsProcessed := 0
  connected := true
  sent := []
  store
  serverStopped := false
  requests := []
  count := 0
  discarded := 0
  blocks := []
  overread := false

/-- `conn_->send`, which does nothing on a connection that is shutting down. -/
def send (s : Session) (msg : List UInt8) : Session :=
  if s.connected then { s with sent := s.sent ++ msg } else s

def reply (s : Session) (msg : String) : Session :=
  if s.noreply then s else s.send (ascii msg)

/-- `conn_->send(&outputBuf_)` -/
def sendOutput (s : Session) : Session :=
  if s.connected then { s with sent := s.sent ++ s.outputBuf, outputBuf := [] } else s

/-- `conn_->shutdown()` -/
def shutdown (s : Session) : Session := { s with connected := false }

def resetRequest (s : Session) : Session :=
  { s with command := [], noreply := false, policy := .kInvalid, currItem := none, bytesToDiscard := 0 }

/-! ## requests -/

/-- `needle_->resetKey(key)` -/
def resetNeedle (s : Session) (key : Key) : Except Fault Session := do
  let needle ← (s.needle.resetKey key).mapError .item
  return { s with needle }

variable (hash : Key → Nat)

/-- `owner_->deleteItem(needle_)` -/
def deleteNeedle (s : Session) : Session × Bool :=
  let (store, found) := s.store.deleteItem hash s.needle.key
  ({ s with store }, found)

/-- The line of an update is in order; `bytes` is its byte count as an `int`. -/
def acceptUpdate (startTime : Int) (s : Session) (key : Key) (f : UpdateFields) :
    Except Fault Session := do
  let bytes := intOfSize f.bytes.toULL
  let s := { s with count := f.bytes.number }
  if 1024 * 1024 < bytes then
    let s := s.reply "SERVER_ERROR object too large for cache\r\n"
    let s ← s.resetNeedle key
    let (s, _) := s.deleteNeedle hash
    check .overflow (bytes + 2 < 2 ^ 31)
    return { s with bytesToDiscard := sizeOfInt (bytes + 2), discarded := 0, state := .kDiscardValue }
  else
    let exptime := relExptime startTime (timeOfULL f.exptime.toULL)
    let item ← (Item.makeItem key (UInt32.ofNat f.flags.toULL) exptime (bytes + 2)
      ((f.cas.map Numeral.toULL).getD 0)).mapError .item
    return { s with currItem := some item, state := .kReceiveValue }

/-- The second component is what the function returns: the request is finished. -/
def doUpdate (startTime : Int) (s : Session) (toks : List Token) :
    Except Fault (Session × Bool) := do
  match policyOf s.command with
  | none => .error (.session .updateCommand)
  | some policy => do
    let s := { s with policy }
    match toks with
    | [] => .error .endIterator
    | key :: toks => match readFields policy key.text toks with
      | .error e =>
        let s := { s with overread := s.overread || e = Refusal.overread }
        return (s.reply "CLIENT_ERROR bad command line format\r\n", true)
      | .ok f => do
        let s ← acceptUpdate hash startTime s key.text f
        return (s, false)

def doDelete (s : Session) : List Token → Except Fault Session
  | [] => .error .endIterator
  | key :: toks =>
    if ¬ key.text.length ≤ kLongestKeySize then
      .ok (s.reply "CLIENT_ERROR bad command line format\r\n")
    else if toks ≠ [] ∧ toks.head?.map Token.text ≠ some (ascii "0") then
      .ok (s.reply
        "CLIENT_ERROR bad command line format.  Usage: delete <key> [noreply]\r\n")
    else do
      let s ← s.resetNeedle key.text
      let (s, found) := s.deleteNeedle hash
      return s.reply (if found then "DELETED\r\n" else "NOT_FOUND\r\n")

/-- The loop over the keys of `get` and `gets`, and what follows it.  A key that is too
long ends the command, with what was found before it left in `outputBuf_`. -/
def doGet (cas : Bool) : Session → List Token → Except Fault Session
  | s, [] => .ok { s with outputBuf := s.outputBuf ++ ascii "END\r\n" }.sendOutput
  | s, key :: toks =>
    if key.text.length ≤ kLongestKeySize then do
      let s ← s.resetNeedle key.text
      match s.store.getItem hash s.needle.key with
      | some item => doGet cas { s with outputBuf := s.outputBuf ++ item.output cas } toks
      | none => doGet cas s toks
    else .ok (s.reply "CLIENT_ERROR bad command line format\r\n")

/-- The command of a request. -/
def doCommand (startTime : Int) (s : Session) (toks : List Token) :
    Except Fault (Session × Bool) :=
  if (policyOf s.command).isSome then s.doUpdate hash startTime toks
  else if s.command = ascii "get" ∨ s.command = ascii "gets" then do
    let s ← doGet hash (s.command = ascii "gets") s toks
    return (s, true)
  else if s.command = ascii "delete" then do
    let s ← s.doDelete hash toks
    return (s, true)
  else if s.command = ascii "version" then return (s.reply "VERSION 0.01 muduo\r\n", true)
  else if s.command = ascii "quit" then return (s.shutdown, true)
  else if s.command = ascii "shutdown" then return ({ s.shutdown with serverStopped := true }, true)
  else return (s.reply "ERROR\r\n", true)

def processRequest (startTime : Int) (s : Session) (line : List UInt8) :
    Except Fault (Session × Bool) := do
  check (.session .command) (s.command = [])
  check (.session .noreply) (s.noreply = false)
  check (.session .policy) (s.policy = .kInvalid)
  check (.session .currItem) (s.currItem = none)
  check (.session .bytesToDiscard) (s.bytesToDiscard = 0)
  let request := parseRequest line
  let s := { s with
    requestsProcessed := s.requestsProcessed + 1
    requests := s.requests ++ [line]
    noreply := request.noreply }
  match request.tokens with
  | [] => return (s.reply "ERROR\r\n", true)
  | command :: toks => doCommand hash startTime { s with command := command.text } toks

/-- The reply to a value that `storeItem` has not stored. -/
def notStored (policy : UpdatePolicy) (found : Bool) : String :=
  if policy = .kCas then if found then "EXISTS\r\n" else "NOT_FOUND\r\n"
  else "NOT_STORED\r\n"

/-- The value is complete. -/
def finishValue (s : Session) (item : Item) : Except Fault Session := do
  let s := { s with blocks := s.blocks ++ [(s.count, item.value.length)] }
  let s ← (if item.endsWithCRLF then do
      let (store, stored, found) ← (s.store.storeItem hash item s.policy).mapError .item
      let s := { s with store }
      return s.reply (if stored then "STORED\r\n" else notStored s.policy found)
    else return s.reply "CLIENT_ERROR bad data chunk\r\n")
  return { s.resetRequest with state := .kNewCommand }

/-- `receiveValue`, with the bytes that stay in the buffer. -/
def receiveValue (s : Session) (buf : List UInt8) : Except Fault (Session × List UInt8) :=
  match s.currItem with
  | none => .error (.session .receiveItem)
  | some item => do
    let avail := min buf.length item.neededBytes
    let item ← (item.append (buf.take avail)).mapError .item
    let s ← (if item.neededBytes = 0 then finishValue hash { s with currItem := some item } item
      else return { s with currItem := some item })
    return (s, buf.drop avail)

def discardValue (s : Session) (buf : List UInt8) : Except Fault (Session × List UInt8) := do
  check (.session .discardItem) (s.currItem = none)
  if buf.length < s.bytesToDiscard then
    return ({ s with
      bytesToDiscard := s.bytesToDiscard - buf.length, discarded := s.discarded + buf.length }, [])
  else
    let s' := { s with blocks := s.blocks ++ [(s.count, s.discarded + s.bytesToDiscard)] }
    return ({ s'.resetRequest with state := .kNewCommand, discarded := 0 }, buf.drop s.bytesToDiscard)

/-- A round in the state `kNewCommand`.  Without a whole line the loop is left. -/
def newCommand (startTime : Int) (s : Session) (buf : List UInt8) :
    Except Fault (Session × Option (List UInt8)) :=
  match Buffer.searchCRLF buf with
  | some len => do
    check .lineLength (len < 2 ^ 31)
    let (s, finished) ← s.processRequest hash startTime (buf.take len)
    return (if finished then s.resetRequest else s, some (buf.drop (len + 2)))
  | none => .ok (if 1024 < buf.length then s.shutdown else s, none)

/-- One round, with the bytes that stay in the buffer, or nothing when the loop is
left. -/
def round (startTime : Int) (s : Session) (buf : List UInt8) :
    Except Fault (Session × Option (List UInt8)) :=
  match s.state with
  | .kNewCommand => s.newCommand hash startTime buf
  | .kReceiveValue => do
    let (s, rest) ← s.receiveValue hash buf
    return (s, some rest)
  | .kDiscardValue => do
    let (s, rest) ← s.discardValue buf
    return (s, some rest)

/-- The loop makes a round for each byte at most. -/
def loop (startTime : Int) : Nat → Session → List UInt8 → Except Fault (Session × List UInt8)
  | 0, _, _ => .error .diverges
  | fuel + 1, s, buf =>
    if buf = [] then .ok (s, [])
    else do
      match ← s.round hash startTime buf with
      | (s, none) => return (s, buf)
      | (s, some rest) => loop startTime fuel s rest

/-- The session with the input buffer of its connection.  `bytesRead` is `bytesRead_`,
which no request reads, and `calling` is `initialReadable` while `onMessage` runs. -/
structure Conn where
  session : Session
  bytesRead : Nat
  input : List UInt8
  calling : Option Nat

namespace Conn

def connect (store : Store) : Conn := ⟨Session.create store, 0, [], none⟩

/-- `data` arrives, and `Session::onMessage` is called. -/
def onMessage (startTime : Int) (c : Conn) (data : List UInt8) : Except Fault Conn := do
  let buf := c.input ++ data
  let (s, rest) ← loop hash startTime (buf.length + 1) c.session buf
  return { c with session := s, bytesRead := c.bytesRead + (buf.length - rest.length), input := rest }

inductive Label
  | message (data : List UInt8)
  | round

/-- The loop of `onMessage` is left. -/
def leave (c : Conn) (initial : Nat) : Conn :=
  { c with bytesRead := c.bytesRead + (initial - c.input.length), calling := none }

/-- The machine that makes the rounds of `onMessage` one by one.  Data arrive between two
calls. -/
def step (startTime : Int) (c : Conn) : Label → Except Fault Conn
  | .message data => match c.calling with
    | some _ => .ok c
    | none => .ok { c with
        input := c.input ++ data, calling := some (c.input ++ data).length }
  | .round => match c.calling with
    | none => .ok c
    | some initial =>
      if c.input = [] then .ok (c.leave initial)
      else do
        match ← c.session.round hash startTime c.input with
        | (s, none) => return { c with session := s }.leave initial
        | (s, some rest) => return { c with session := s, input := rest }

end Conn

end Session

end Muduo.Memcached
