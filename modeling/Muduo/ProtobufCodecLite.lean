import Muduo.Buffer.Spec

/-!
# Muduo.ProtobufCodecLite

`muduo::net::ProtobufCodecLite`: messages in frames on a byte stream.

```
size      4-byte  M+N+4
tag       M-byte  could be "RPC0", etc.
payload   N-byte
checksum  4-byte  adler32 of tag+payload
```

Protocol buffers are behind three functions of a message type: `byteSize`,
`serialize` and `parseFromArray`; the checksum is a function of the bytes.  An
`int` is an integer, and a sum of two of them wraps at 32 bits.

`onMessage` is a loop; the model makes at most one round for each readable byte
and one more, and fails with `diverges` when these are used up.  A `Receiver` is a
connection that gets its reads one after the other; `calls` records the calls of
`messageCallback_` and `errorCallback_`.
-/

namespace Muduo

open Lib

/-- `kNoError` is not an error. -/
inductive ProtobufCodecLite.ErrorCode
  | kInvalidLength
  | kCheckSumError
  | kInvalidNameLen
  | kUnknownMessageType
  | kParseError
deriving DecidableEq, Repr

inductive ProtobufCodecLite.Fault
  /-- `assert(buf->readableBytes() == 0)` of `fillEmptyBuffer` -/
  | notEmpty
  /-- `assert(buf->readableBytes() == tag_.size() + byte_size + kChecksumLen)` -/
  | messageLength
  | byteSizeConsistencyError
  | buffer (f : Buffer.Fault)
  | diverges
deriving DecidableEq, Repr

/-- `tag` is constructed from a `StringPiece`, whose length is an `int`. -/
structure ProtobufCodecLite (Message : Type) where
  host : ByteOrder
  tag : List UInt8
  tag_length : tag.length < 2 ^ 31
  byteSize : Message → Nat
  serialize : Message → List UInt8
  parseFromArray : List UInt8 → Option Message
  adler32 : List UInt8 → BitVec 32
  rawCb : Option (List UInt8 → Bool)

namespace ProtobufCodecLite

def kHeaderLen : Nat := 4

def kChecksumLen : Nat := 4

def kMaxMessageLen : Nat := 64 * 1024 * 1024

variable {Message : Type} (codec : ProtobufCodecLite Message)

def kMinMessageLen : Int := intOfSize (codec.tag.length + kChecksumLen)

/-! ## sending -/

/-- The second component is `byte_size`. -/
def serializeToBuffer (message : Message) (buf : Buffer) : Except Fault (Buffer × Int) := do
  let byteSize := intOfSize (codec.byteSize message)
  let len := sizeOfInt (intOfSize (codec.byteSize message + kChecksumLen))
  let buf ← (buf.ensureWritableBytes len).mapError .buffer
  let payload := codec.serialize message
  let buf ← (buf.writeAtEnd payload).mapError .buffer
  check .byteSizeConsistencyError ((payload.length : Int) = byteSize)
  let buf ← (buf.hasWritten (sizeOfInt byteSize)).mapError .buffer
  return (buf, byteSize)

def checksum (data : List UInt8) : BitVec 32 := codec.adler32 data

def fillEmptyBuffer (buf : Buffer) (message : Message) : Except Fault Buffer := do
  check .notEmpty (buf.readableBytes = 0)
  let buf ← (buf.append codec.tag).mapError .buffer
  let (buf, byteSize) ← codec.serializeToBuffer message buf
  let data ← (Buffer.chars buf.buffer buf.peek
    (sizeOfInt (intOfSize buf.readableBytes))).mapError .buffer
  let buf ← (buf.appendInt32 codec.host (codec.checksum data)).mapError .buffer
  check .messageLength (buf.readableBytes =
    addSize (addSize codec.tag.length (sizeOfInt byteSize)) kChecksumLen)
  (buf.prependInt32 codec.host (BitVec.ofInt 32 (intOfSize buf.readableBytes))).mapError .buffer

/-- The bytes that `send` makes of a message. -/
def encode (message : Message) : Except Fault (List UInt8) := do
  let buf ← (Buffer.create Buffer.kInitialSize).mapError .buffer
  let buf ← codec.fillEmptyBuffer buf message
  (Buffer.chars buf.buffer buf.peek buf.readableBytes).mapError .buffer

/-! ## receiving -/

def asInt32 (data : List UInt8) : BitVec 32 := Buffer.netValue codec.host .int32 (data.take 4)

def validateChecksum (data : List UInt8) : Bool :=
  let expectedCheckSum := codec.asInt32 (data.drop (data.length - kChecksumLen))
  codec.checksum (data.take (data.length - kChecksumLen)) = expectedCheckSum

/-- The message that the bytes hold, or the error code. -/
def parse (data : List UInt8) : Except ErrorCode Message :=
  if codec.validateChecksum data then
    if data.take codec.tag.length = codec.tag then
      let payload := (data.drop codec.tag.length).take
        (data.length - kChecksumLen - codec.tag.length)
      match codec.parseFromArray payload with
      | some message => .ok message
      | none => .error .kParseError
    else .error .kUnknownMessageType
  else .error .kCheckSumError

/-- `rawCb_ && !rawCb_(conn, raw, receiveTime)` -/
def filtered (raw : List UInt8) : Bool := codec.rawCb.any fun rawCb => !rawCb raw

/-- One round of the loop: it goes on, after a call of `messageCallback_` or
without, or it ends, after a call of `errorCallback_` or without. -/
inductive Round (Message : Type)
  | more (buf : Buffer) (message : Option Message)
  | done (error : Option ErrorCode)

/-- A frame has arrived that is `kHeaderLen + len` bytes long. -/
def onFrame (buf : Buffer) (len : Int) : Except Fault (Round Message) := do
  let frameLen := sizeOfInt (Int.bmod (kHeaderLen + len) (2 ^ 32))
  let raw ← (Buffer.chars buf.buffer buf.peek frameLen).mapError .buffer
  if codec.filtered raw then
    let buf ← (buf.retrieve frameLen).mapError .buffer
    return .more buf none
  else
    let data ← (Buffer.chars buf.buffer (buf.peek + kHeaderLen) (sizeOfInt len)).mapError .buffer
    match codec.parse data with
    | .ok message =>
      let buf ← (buf.retrieve frameLen).mapError .buffer
      return .more buf (some message)
    | .error errorCode => return .done (some errorCode)

def round (buf : Buffer) : Except Fault (Round Message) :=
  if ((codec.kMinMessageLen + kHeaderLen) % 2 ^ 32).toNat ≤ buf.readableBytes then do
    let len := (← (buf.peekInt codec.host .int32).mapError .buffer).toInt
    if kMaxMessageLen < len ∨ len < codec.kMinMessageLen then
      return .done (some .kInvalidLength)
    else if sizeOfInt (Int.bmod (kHeaderLen + len) (2 ^ 32)) ≤ buf.readableBytes then
      codec.onFrame buf len
    else return .done none
  else .ok (.done none)

/-- A call of `messageCallback_` or of `errorCallback_`. -/
inductive Call (Message : Type)
  | message (m : Message)
  | error (errorCode : ErrorCode)
deriving DecidableEq

structure Receiver (Message : Type) where
  inputBuffer : Buffer
  calls : List (Call Message)
deriving DecidableEq

def messageLoop : Nat → Receiver Message → Except Fault (Receiver Message)
  | 0, _ => .error .diverges
  | fuel + 1, s => do
    match ← codec.round s.inputBuffer with
    | .more inputBuffer message =>
      messageLoop fuel ⟨inputBuffer, s.calls ++ message.toList.map .message⟩
    | .done errorCode => return { s with calls := s.calls ++ errorCode.toList.map .error }

def onMessage (s : Receiver Message) : Except Fault (Receiver Message) :=
  codec.messageLoop (s.inputBuffer.readableBytes + 1) s

/-- A read has brought the bytes `chunk`. -/
def receive (s : Receiver Message) (chunk : Buffer.CharRange) :
    Except Fault (Receiver Message) := do
  let inputBuffer ← (s.inputBuffer.append chunk.data).mapError .buffer
  codec.onMessage { s with inputBuffer }

/-- A connection before its first read. -/
def Receiver.create : Receiver Message := ⟨Buffer.newBuffer, []⟩

end ProtobufCodecLite

end Muduo
