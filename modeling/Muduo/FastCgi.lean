import Mathlib.Data.List.AList
import Muduo.Buffer.Spec

/-!
# Muduo.FastCgi

The FastCGI codec: `examples/fastcgi/fastcgi.h` and `fastcgi.cc`.

`parseRequest` takes records off the buffer of the connection.  The contents of the Params
records are collected in `paramsStream_`, and an empty record lets `parseAllParams` read the
names and the values.  A loop is given as many rounds as there are bytes, and one more;
`diverges` is the fault of a loop that needs more than that.
-/

namespace Muduo

open Lib

inductive FcgiType
  | kFcgiInvalid
  | kFcgiBeginRequest
  | kFcgiAbortRequest
  | kFcgiEndRequest
  | kFcgiParams
  | kFcgiStdin
  | kFcgiStdout
  | kFcgiStderr
  | kFcgiData
  | kFcgiGetValues
  | kFcgiGetValuesResult
deriving DecidableEq, Repr

def FcgiType.value : FcgiType → UInt8
  | .kFcgiInvalid => 0
  | .kFcgiBeginRequest => 1
  | .kFcgiAbortRequest => 2
  | .kFcgiEndRequest => 3
  | .kFcgiParams => 4
  | .kFcgiStdin => 5
  | .kFcgiStdout => 6
  | .kFcgiStderr => 7
  | .kFcgiData => 8
  | .kFcgiGetValues => 9
  | .kFcgiGetValuesResult => 10

structure FastCgiCodec where
  gotRequest : Bool
  keepConn : Bool
  stdin : Buffer
  paramsStream : Buffer
  params : AList fun _ : List UInt8 => List UInt8

namespace FastCgiCodec

/-- A fault of a buffer, an assertion of `onBeginRequest` that fails, or a loop without end. -/
inductive Fault
  | buffer (e : Buffer.Fault)
  | beginRequest
  | diverges
deriving DecidableEq, Repr

structure RecordHeader where
  version : UInt8
  type : UInt8
  id : Nat
  length : Nat
  padding : UInt8
  unused : UInt8
deriving DecidableEq, Repr

/-- `sizeof(FastCgiCodec::RecordHeader)` -/
def kRecordHeader : Nat := 8

def kFcgiResponder : Nat := 1

def kFcgiKeepConn : UInt8 := 1

def create : FastCgiCodec where
  gotRequest := false
  keepConn := false
  stdin := Buffer.newBuffer
  paramsStream := Buffer.newBuffer
  params := ∅

/-! ## parameters -/

/-- The length, or -1 when the stream is too short for it. -/
def readLen (host : ByteOrder) (paramsStream : Buffer) : Except Buffer.Fault (BitVec 32 × Buffer) :=
  if 1 ≤ paramsStream.readableBytes then do
    let byte : BitVec 8 ← paramsStream.peekInt host .int8
    if byte &&& 0x80#8 ≠ 0#8 then
      if 4 ≤ paramsStream.readableBytes then
        let (len, paramsStream) : BitVec 32 × Buffer ← paramsStream.readInt32 host
        return (len &&& 0x7fffffff#32, paramsStream)
      else return (-1, paramsStream)
    else
      let (len, paramsStream) : BitVec 8 × Buffer ← paramsStream.readInt8 host
      return (len.signExtend 32, paramsStream)
  else .ok (-1, paramsStream)

/-- The name and the value that a round of `parseAllParams` reads, or nothing when the stream
is too short for them. -/
def readPair (host : ByteOrder) (paramsStream : Buffer) :
    Except Buffer.Fault (Option (List UInt8 × List UInt8) × Buffer) := do
  let (nameLen, paramsStream) ← readLen host paramsStream
  if nameLen = -1 then return (none, paramsStream)
  else
    let (valueLen, paramsStream) ← readLen host paramsStream
    if valueLen = -1 then return (none, paramsStream)
    else if (nameLen + valueLen).toNat ≤ paramsStream.readableBytes then
      let (name, paramsStream) ← paramsStream.retrieveAsString nameLen.toNat
      let (value, paramsStream) ← paramsStream.retrieveAsString valueLen.toNat
      return (some (name, value), paramsStream)
    else return (none, paramsStream)

def parseAllParamsLoop (host : ByteOrder) :
    Nat → FastCgiCodec → Except Fault (Bool × FastCgiCodec)
  | 0, _ => .error .diverges
  | fuel + 1, codec =>
    if 0 < codec.paramsStream.readableBytes then do
      match ← (readPair host codec.paramsStream).mapError .buffer with
      | (some (name, value), paramsStream) =>
        parseAllParamsLoop host fuel
          { codec with paramsStream, params := codec.params.insert name value }
      | (none, paramsStream) => return (false, { codec with paramsStream })
    else .ok (true, codec)

def parseAllParams (host : ByteOrder) (codec : FastCgiCodec) : Except Fault (Bool × FastCgiCodec) :=
  parseAllParamsLoop host (codec.paramsStream.readableBytes + 1) codec

/-! ## records -/

def onParams (host : ByteOrder) (codec : FastCgiCodec) (content : List UInt8) :
    Except Fault (Bool × FastCgiCodec) :=
  if 0 < content.length then do
    let paramsStream ← (codec.paramsStream.append content).mapError .buffer
    return (true, { codec with paramsStream })
  else codec.parseAllParams host

def onStdin (codec : FastCgiCodec) (content : List UInt8) : Except Fault FastCgiCodec :=
  if 0 < content.length then do
    let stdin ← (codec.stdin.append content).mapError .buffer
    return { codec with stdin }
  else .ok { codec with gotRequest := true }

/-- `readInt16` of the bytes at `p`. -/
def readInt16 (host : ByteOrder) (buf : Buffer) (p : Nat) : Except Buffer.Fault (BitVec 16) := do
  let be16 ← Buffer.chars buf.buffer p 2
  return Buffer.netValue host .int16 be16

def onBeginRequest (host : ByteOrder) (codec : FastCgiCodec) (header : RecordHeader)
    (buf : Buffer) : Except Fault (Bool × FastCgiCodec) := do
  check .beginRequest (header.length ≤ buf.readableBytes)
  check .beginRequest (header.type = FcgiType.kFcgiBeginRequest.value)
  if kRecordHeader ≤ header.length then
    let role ← (readInt16 host buf (buf.peek + kRecordHeader)).mapError .buffer
    let flags ← (Buffer.chars buf.buffer (buf.peek + kRecordHeader + 2) 1).mapError .buffer
    if role.toNat = kFcgiResponder then
      return (true, { codec with keepConn := flags = [kFcgiKeepConn] })
    else return (false, codec)
  else return (false, codec)

/-- The `length` bytes behind the header. -/
def recordContent (header : RecordHeader) (buf : Buffer) : Except Fault (List UInt8) :=
  (Buffer.chars buf.buffer (buf.peek + kRecordHeader) header.length).mapError .buffer

/-- The `switch` of `parseRequest` -/
def onRecord (host : ByteOrder) (codec : FastCgiCodec) (header : RecordHeader) (buf : Buffer) :
    Except Fault FastCgiCodec :=
  if header.type = FcgiType.kFcgiBeginRequest.value then
    Prod.snd <$> codec.onBeginRequest host header buf
  else if header.type = FcgiType.kFcgiParams.value then do
    Prod.snd <$> codec.onParams host (← recordContent header buf)
  else if header.type = FcgiType.kFcgiStdin.value then do
    codec.onStdin (← recordContent header buf)
  else .ok codec

/-- The header, with `id` and `length` in the order of the host. -/
def RecordHeader.ofBytes (host : ByteOrder) (bytes : List UInt8) : RecordHeader where
  version := bytes.getD 0 0
  type := bytes.getD 1 0
  id := (Buffer.netValue host .int16 ((bytes.drop 2).take 2)).toNat
  length := (Buffer.netValue host .int16 ((bytes.drop 4).take 2)).toNat
  padding := bytes.getD 6 0
  unused := bytes.getD 7 0

/-- A round of the loop of `parseRequest`, and nothing when the loop ends. -/
def round (host : ByteOrder) (codec : FastCgiCodec) (buf : Buffer) :
    Except Fault (Option (FastCgiCodec × Buffer)) :=
  if kRecordHeader ≤ buf.readableBytes then do
    let bytes ← (Buffer.chars buf.buffer buf.peek kRecordHeader).mapError .buffer
    let header := RecordHeader.ofBytes host bytes
    let total := kRecordHeader + header.length + header.padding.toNat
    if total ≤ buf.readableBytes then
      let codec ← codec.onRecord host header buf
      let buf ← (buf.retrieve total).mapError .buffer
      return some (codec, buf)
    else return none
  else .ok none

def parseRequestLoop (host : ByteOrder) :
    Nat → FastCgiCodec → Buffer → Except Fault (FastCgiCodec × Buffer)
  | 0, _, _ => .error .diverges
  | fuel + 1, codec, buf => do
    match ← codec.round host buf with
    | some (codec, buf) => parseRequestLoop host fuel codec buf
    | none => return (codec, buf)

/-- `parseRequest`, which always returns true -/
def parseRequest (host : ByteOrder) (codec : FastCgiCodec) (buf : Buffer) :
    Except Fault (FastCgiCodec × Buffer) :=
  parseRequestLoop host (buf.readableBytes + 1) codec buf

/-- The codec of a connection, and the input buffer of the connection. -/
structure Conn where
  codec : FastCgiCodec
  buf : Buffer

def Conn.create : Conn := ⟨FastCgiCodec.create, Buffer.newBuffer⟩

/-- The bytes of `chunk` arrive, and `parseRequest` is called. -/
def Conn.receive (host : ByteOrder) (conn : Conn) (chunk : Buffer.CharRange) : Except Fault Conn := do
  let buf ← (conn.buf.append chunk.data).mapError .buffer
  let (codec, buf) ← conn.codec.parseRequest host buf
  return ⟨codec, buf⟩

end FastCgiCodec

end Muduo
