import Muduo.HttpContext
import Muduo.ProtobufCodecLite
import Muduo.RpcChannel

/-!
# Muduo.RawMessage

`RawMessage` of `examples/protobuf/rpcbalancer/balancer_raw.cc`: the id of an RPC message is
read and replaced in its frame, without decoding the message.

The frame is the list of its bytes; `loc` counts from its beginning.  `le64toh` and
`htole64` make a number of eight bytes in little-endian order, and back, on every host.
`RpcMessage.serialize` is the code that `protoc` generates from `rpc.proto`, and `rpcCodec`
the `RpcCodec`.
-/

namespace Muduo

open Lib

/-! ## serialized messages -/

namespace RpcMessage

def MessageType.number : MessageType → UInt8
  | .REQUEST => 1
  | .RESPONSE => 2
  | .ERROR => 3

def ErrorCode.number : ErrorCode → UInt8
  | .NO_ERROR => 0
  | .WRONG_PROTO => 1
  | .NO_SERVICE => 2
  | .NO_METHOD => 3
  | .INVALID_REQUEST => 4
  | .INVALID_RESPONSE => 5
  | .TIMEOUT => 6

/-- Seven bits a byte, the low ones first. -/
def varintFrom : Nat → Nat → List UInt8
  | 0, _ => []
  | fuel + 1, n =>
    if n < 128 then [UInt8.ofNat n]
    else UInt8.ofNat (n % 128 + 128) :: varintFrom fuel (n / 128)

/-- A number of 64 bits has ten groups of seven at most. -/
def varint (n : Nat) : List UInt8 := varintFrom 10 n

/-- A field of the type `string` or `bytes`. -/
def field (key : UInt8) : Option Bytes → List UInt8
  | none => []
  | some value => key :: varint value.length ++ value

/-- The fields behind `id`. -/
def optionalFields (m : RpcMessage) : List UInt8 :=
  field 0x1A m.service ++ field 0x22 m.method ++ field 0x2A m.request ++ field 0x32 m.response ++
    match m.error with
    | none => []
    | some error => [0x38, error.number]

def serialize (m : RpcMessage) : List UInt8 :=
  [0x08, m.type.number, 0x11] ++ leBytes 8 m.id ++ m.optionalFields

end RpcMessage

/-- `ProtobufCodecLiteT<RpcMessage, rpctag>` -/
def rpcCodec (host : ByteOrder) (parseFromArray : List UInt8 → Option RpcMessage)
    (adler32 : List UInt8 → BitVec 32) (rawCb : Option (List UInt8 → Bool)) :
    ProtobufCodecLite RpcMessage where
  host
  tag := ascii "RPC0"
  tag_length := by decide
  byteSize m := m.serialize.length
  serialize := RpcMessage.serialize
  parseFromArray
  adler32
  rawCb

/-! ## the id in a frame -/

/-- `loc` is null before `parse` has found the id. -/
structure RawMessage where
  message : List UInt8
  id : Nat
  loc : Option Nat
deriving DecidableEq

namespace RawMessage

open ProtobufCodecLite

inductive Fault
  /-- `memcpy` to `loc_`, which is null. -/
  | nullLoc
deriving DecidableEq, Repr

def create (m : List UInt8) : RawMessage := ⟨m, 0, none⟩

def setId (raw : RawMessage) (x : Nat) : RawMessage := { raw with id := x }

variable {Message : Type} (codec : ProtobufCodecLite Message)

/-- The tag is that of the codec. -/
def parse (raw : RawMessage) : Bool × RawMessage :=
  let body := raw.message.drop kHeaderLen
  let taglen := codec.tag.length
  if codec.validateChecksum body ∧ body.take taglen = codec.tag ∧ taglen + 3 + 8 ≤ body.length then
    let p := body.drop taglen
    if p[0]? = some 0x08 ∧ (p[1]? = some 0x01 ∨ p[1]? = some 0x02) ∧ p[2]? = some 0x11 then
      (true, ⟨raw.message, leValue ((p.drop 3).take 8), some (kHeaderLen + taglen + 3)⟩)
    else (false, raw)
  else (false, raw)

def updateId (raw : RawMessage) : Except Fault RawMessage :=
  match raw.loc with
  | none => .error .nullLoc
  | some loc =>
    let message := overwrite raw.message loc (leBytes 8 raw.id)
    let body := message.drop kHeaderLen
    let checkSum := codec.checksum (body.take (body.length - kChecksumLen))
    let message := overwrite message (kHeaderLen + (body.length - kChecksumLen))
      (Buffer.netBytes codec.host .int32 checkSum)
    .ok { raw with message }

end RawMessage

end Muduo
