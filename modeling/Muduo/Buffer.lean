import Muduo.Lib.FlatArray
import Muduo.Lib.Outcome
import Muduo.Lib.Word

/-!
# Muduo.Buffer

`muduo::net::Buffer` as the code computes it: a byte vector with a reader
and a writer index, both of type `size_t`.

```
+-------------------+------------------+------------------+
| prependable bytes |  readable bytes  |  writable bytes  |
|                   |     (CONTENT)    |                  |
+-------------------+------------------+------------------+
0      <=      readerIndex   <=   writerIndex    <=     size
```

Every sum and difference of sizes is taken on 64 bits, as the code takes
it.  A pointer into the buffer is its index.  An operation fails with the
assertion of the code it violates, with the `std::length_error` that
`std::vector` throws above `max_size()`, or with an access outside the
vector.
-/

namespace Muduo

open Lib

/-- The assertions of `Buffer.h`, by the function they stand in. -/
inductive Buffer.Assert
  | ctorReadable
  | ctorWritable
  | ctorPrependable
  | retrieve
  | retrieveUntilBegin
  | retrieveUntilEnd
  | retrieveAsString
  | ensureWritableBytes
  | hasWritten
  | unwrite
  | peekInt
  | prepend
  | makeSpace
  | makeSpaceReadable
deriving DecidableEq, Repr

/-- How an operation on a `Buffer` can fail. -/
inductive Buffer.Fault
  | assertion (site : Buffer.Assert)
  | lengthError
  | outOfRange
deriving DecidableEq, Repr

structure Buffer where
  buffer : List UInt8
  readerIndex : Nat
  writerIndex : Nat
deriving DecidableEq, Repr

namespace Buffer

def kCheapPrepend : Nat := 8

def kInitialSize : Nat := 1024

/-- `std::vector<char>::max_size()`. -/
def maxSize : Nat := 2 ^ 63 - 1

/-- The bytes `[data, data + len)` of one object in memory, which no object
of the machine exceeds in size. -/
structure CharRange where
  data : List UInt8
  length_le : data.length ≤ maxSize
deriving DecidableEq

/-! ## the vector -/

/-- `std::vector<char>(n)`. -/
def vector (n : Nat) : Except Fault (List UInt8) :=
  if n ≤ maxSize then .ok (List.replicate n 0) else .error .lengthError

/-- `std::vector<char>::resize`. -/
def resize (v : List UInt8) (n : Nat) : Except Fault (List UInt8) :=
  if n ≤ maxSize then
    .ok (if n ≤ v.length then v.take n else v ++ List.replicate (n - v.length) 0)
  else
    .error .lengthError

/-- `std::copy(data, data + len, begin() + i)` for data outside the vector. -/
def copyIn (v : List UInt8) (i : Nat) (data : List UInt8) : Except Fault (List UInt8) :=
  if i + data.length ≤ v.length then .ok (overwrite v i data) else .error .outOfRange

/-- The bytes `[begin() + i, begin() + i + len)`. -/
def chars (v : List UInt8) (i len : Nat) : Except Fault (List UInt8) :=
  if i + len ≤ v.length then .ok (slice v i (i + len)) else .error .outOfRange

/-! ## sizes and positions -/

def readableBytes (b : Buffer) : Nat := subSize b.writerIndex b.readerIndex

def writableBytes (b : Buffer) : Nat := subSize b.buffer.length b.writerIndex

def prependableBytes (b : Buffer) : Nat := b.readerIndex

def peek (b : Buffer) : Nat := b.readerIndex

def beginWrite (b : Buffer) : Nat := b.writerIndex

/-- `explicit Buffer(size_t initialSize)`. -/
def create (initialSize : Nat) : Except Fault Buffer := do
  let v ← vector (addSize kCheapPrepend initialSize)
  let b : Buffer := ⟨v, kCheapPrepend, kCheapPrepend⟩
  check (.assertion .ctorReadable) (b.readableBytes = 0)
  check (.assertion .ctorWritable) (b.writableBytes = initialSize)
  check (.assertion .ctorPrependable) (b.prependableBytes = kCheapPrepend)
  return b

/-! ## searching -/

/-- The first position of CR LF, as `std::search` finds it. -/
def searchCRLF : List UInt8 → Option Nat
  | [] => none
  | b :: bs => if b = 13 ∧ bs.head? = some 10 then some 0 else (searchCRLF bs).map (· + 1)

def findCRLF (b : Buffer) : Except Fault (Option Nat) := do
  let readable ← chars b.buffer b.peek b.readableBytes
  return (searchCRLF readable).map (b.peek + ·)

/-! ## taking bytes out -/

def retrieveAll (b : Buffer) : Buffer :=
  { b with readerIndex := kCheapPrepend, writerIndex := kCheapPrepend }

def retrieve (b : Buffer) (len : Nat) : Except Fault Buffer := do
  check (.assertion .retrieve) (len ≤ b.readableBytes)
  if len < b.readableBytes then
    return { b with readerIndex := addSize b.readerIndex len }
  else
    return b.retrieveAll

/-- `end_` is the position `end` of the code. -/
def retrieveUntil (b : Buffer) (end_ : Nat) : Except Fault Buffer := do
  check (.assertion .retrieveUntilBegin) (b.peek ≤ end_)
  check (.assertion .retrieveUntilEnd) (end_ ≤ b.beginWrite)
  b.retrieve (subSize end_ b.peek)

def retrieveAsString (b : Buffer) (len : Nat) : Except Fault (List UInt8 × Buffer) := do
  check (.assertion .retrieveAsString) (len ≤ b.readableBytes)
  let result ← chars b.buffer b.peek len
  let b' ← b.retrieve len
  return (result, b')

def retrieveAllAsString (b : Buffer) : Except Fault (List UInt8 × Buffer) :=
  b.retrieveAsString b.readableBytes

/-! ## making room and putting bytes in -/

/-- The second branch of `makeSpace`: move readable data to the front, make
space inside buffer. -/
def moveToFront (b : Buffer) : Except Fault Buffer := do
  check (.assertion .makeSpace) (kCheapPrepend < b.readerIndex)
  let readable := b.readableBytes
  let v := copyForward b.buffer b.readerIndex kCheapPrepend (b.writerIndex - b.readerIndex)
  let b' : Buffer := ⟨v, kCheapPrepend, addSize kCheapPrepend readable⟩
  check (.assertion .makeSpaceReadable) (readable = b'.readableBytes)
  return b'

def makeSpace (b : Buffer) (len : Nat) : Except Fault Buffer :=
  if addSize b.writableBytes b.prependableBytes < addSize len kCheapPrepend then do
    let v ← resize b.buffer (addSize b.writerIndex len)
    return { b with buffer := v }
  else
    b.moveToFront

def ensureWritableBytes (b : Buffer) (len : Nat) : Except Fault Buffer := do
  let b' ← (if b.writableBytes < len then b.makeSpace len else .ok b)
  check (.assertion .ensureWritableBytes) (len ≤ b'.writableBytes)
  return b'

def hasWritten (b : Buffer) (len : Nat) : Except Fault Buffer := do
  check (.assertion .hasWritten) (len ≤ b.writableBytes)
  return { b with writerIndex := addSize b.writerIndex len }

def unwrite (b : Buffer) (len : Nat) : Except Fault Buffer := do
  check (.assertion .unwrite) (len ≤ b.readableBytes)
  return { b with writerIndex := subSize b.writerIndex len }

/-- `append(const char* data, size_t len)`. -/
def append (b : Buffer) (data : List UInt8) : Except Fault Buffer := do
  let b' ← b.ensureWritableBytes data.length
  let v ← copyIn b'.buffer b'.beginWrite data
  ({ b' with buffer := v }).hasWritten data.length

def prepend (b : Buffer) (data : List UInt8) : Except Fault Buffer := do
  check (.assertion .prepend) (data.length ≤ b.prependableBytes)
  let readerIndex := subSize b.readerIndex data.length
  let v ← copyIn b.buffer readerIndex data
  return { b with buffer := v, readerIndex := readerIndex }

/-- The caller stores `data` at `beginWrite()`, inside the writable bytes. -/
def writeAtEnd (b : Buffer) (data : List UInt8) : Except Fault Buffer := do
  let v ← copyIn b.buffer b.beginWrite data
  return { b with buffer := v }

/-- `other` is the default-constructed local buffer that ends up swapped
with this one.  `toStringPiece` narrows the length to `int`, and `append`
takes it as a `size_t` again. -/
def shrink (b : Buffer) (reserve : Nat) : Except Fault Buffer := do
  let other ← create kInitialSize
  let other ← other.ensureWritableBytes (addSize b.readableBytes reserve)
  let data ← chars b.buffer b.peek (sizeOfInt (intOfSize b.readableBytes))
  other.append data

/-! ## integers in network byte order -/

/-- The integer types of `appendInt64` … `prependInt8`. -/
inductive IntType
  | int8
  | int16
  | int32
  | int64
deriving DecidableEq, Repr

/-- `sizeof`. -/
def IntType.size : IntType → Nat
  | .int8 => 1
  | .int16 => 2
  | .int32 => 4
  | .int64 => 8

/-- The bytes in memory of the value that `appendIntN` and `prependIntN`
copy: the converted one, or for `int8_t` the value itself. -/
def netBytes (host : ByteOrder) (t : IntType) (x : BitVec (8 * t.size)) : List UInt8 :=
  match t with
  | .int8 => objectBytes host 1 x.toNat
  | .int16 => objectBytes host 2 (hostToNetwork host 2 x.toNat)
  | .int32 => objectBytes host 4 (hostToNetwork host 4 x.toNat)
  | .int64 => objectBytes host 8 (hostToNetwork host 8 x.toNat)

/-- The value `peekIntN` returns for the bytes it copied out. -/
def netValue (host : ByteOrder) (t : IntType) (bs : List UInt8) : BitVec (8 * t.size) :=
  match t with
  | .int8 => BitVec.ofNat _ (objectValue host bs)
  | .int16 => BitVec.ofNat _ (networkToHost host 2 (objectValue host bs))
  | .int32 => BitVec.ofNat _ (networkToHost host 4 (objectValue host bs))
  | .int64 => BitVec.ofNat _ (networkToHost host 8 (objectValue host bs))

def appendInt (host : ByteOrder) (t : IntType) (b : Buffer) (x : BitVec (8 * t.size)) :
    Except Fault Buffer :=
  b.append (netBytes host t x)

def prependInt (host : ByteOrder) (t : IntType) (b : Buffer) (x : BitVec (8 * t.size)) :
    Except Fault Buffer :=
  b.prepend (netBytes host t x)

def peekInt (host : ByteOrder) (t : IntType) (b : Buffer) : Except Fault (BitVec (8 * t.size)) := do
  check (.assertion .peekInt) (t.size ≤ b.readableBytes)
  let bs ← chars b.buffer b.peek t.size
  return netValue host t bs

def readInt (host : ByteOrder) (t : IntType) (b : Buffer) :
    Except Fault (BitVec (8 * t.size) × Buffer) := do
  let result ← b.peekInt host t
  let b' ← b.retrieve t.size
  return (result, b')

def appendInt64 (host : ByteOrder) (b : Buffer) (x : BitVec 64) := b.appendInt host .int64 x
def appendInt32 (host : ByteOrder) (b : Buffer) (x : BitVec 32) := b.appendInt host .int32 x
def appendInt16 (host : ByteOrder) (b : Buffer) (x : BitVec 16) := b.appendInt host .int16 x
def appendInt8 (host : ByteOrder) (b : Buffer) (x : BitVec 8) := b.appendInt host .int8 x
def prependInt64 (host : ByteOrder) (b : Buffer) (x : BitVec 64) := b.prependInt host .int64 x
def prependInt32 (host : ByteOrder) (b : Buffer) (x : BitVec 32) := b.prependInt host .int32 x
def prependInt16 (host : ByteOrder) (b : Buffer) (x : BitVec 16) := b.prependInt host .int16 x
def prependInt8 (host : ByteOrder) (b : Buffer) (x : BitVec 8) := b.prependInt host .int8 x
def readInt64 (host : ByteOrder) (b : Buffer) := b.readInt host .int64
def readInt32 (host : ByteOrder) (b : Buffer) := b.readInt host .int32
def readInt16 (host : ByteOrder) (b : Buffer) := b.readInt host .int16
def readInt8 (host : ByteOrder) (b : Buffer) := b.readInt host .int8

/-! ## reading from a file descriptor -/

/-- `sizeof extrabuf`. -/
def kExtraBuf : Nat := 65536

/-- The result of `readv(2)`: the bytes received, in order, or `errno`. -/
inductive ReadvResult
  | received (data : List UInt8)
  | failed (errno : Nat)
deriving DecidableEq, Repr

/-- The space that `readFd` offers to `readv(2)`: the writable bytes, and
the 64 KiB on the stack when the writable bytes are fewer than that. -/
def offered (b : Buffer) : Nat :=
  if b.writableBytes < kExtraBuf then b.writableBytes + kExtraBuf else b.writableBytes

/-- `readv(2)` fills the writable bytes first and `extrabuf` with the rest.
The second component is the return value. -/
def readFd (b : Buffer) : ReadvResult → Except Fault (Buffer × Int)
  | .failed _ => .ok (b, -1)
  | .received data => do
    let writable := b.writableBytes
    let v ← copyIn b.buffer b.writerIndex (data.take writable)
    if data.length ≤ writable then
      return ({ b with buffer := v, writerIndex := addSize b.writerIndex data.length },
        data.length)
    else
      let b' ← ({ b with buffer := v, writerIndex := v.length }).append (data.drop writable)
      return (b', data.length)

end Buffer

end Muduo
