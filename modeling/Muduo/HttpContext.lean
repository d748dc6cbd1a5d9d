import Mathlib.Data.List.AList
import Mathlib.Data.List.DropRight
import Muduo.Buffer.Spec

/-!
# Muduo.HttpContext

`muduo::net::HttpRequest` and the parser of `muduo::net::HttpContext`, over the
bytes of a `Buffer`.

A range `[start, end)` of characters is the list of its bytes, and the result of
`std::find` the number of bytes in front of it.  `parseRequest` is a loop without
a bound; the model makes at most one round for each readable byte and one more,
and fails with `diverges` when these are used up.  `parseLoop_gotAll` says that in
the states `kGotAll` and `kExpectBody` this is no artefact: no number of rounds is
enough.
-/

namespace Muduo

open Lib

/-- The bytes of an ASCII text. -/
def ascii (s : String) : List UInt8 := s.toList.map Char.toUInt8

/-- `isspace` in the C locale. -/
def isspace (c : UInt8) : Bool := (9 ≤ c && c ≤ 13) || c = 32

inductive HttpRequest.Method
  | kInvalid
  | kGet
  | kPost
  | kHead
  | kPut
  | kDelete
deriving DecidableEq, Repr

inductive HttpRequest.Version
  | kUnknown
  | kHttp10
  | kHttp11
deriving DecidableEq, Repr

inductive HttpContext.Fault
  /-- `assert(method_ == kInvalid)` of `setMethod` -/
  | setMethod
  | buffer (f : Buffer.Fault)
  | diverges
deriving DecidableEq, Repr

/-- `receiveTime` is in microseconds since the Epoch; zero is no time. -/
structure HttpRequest where
  method : HttpRequest.Method
  version : HttpRequest.Version
  path : List UInt8
  query : List UInt8
  receiveTime : Int
  headers : AList fun _ : List UInt8 => List UInt8
deriving DecidableEq

namespace HttpRequest

/-- `HttpRequest::HttpRequest` -/
def create : HttpRequest := ⟨.kInvalid, .kUnknown, [], [], 0, ∅⟩

/-- The method that `setMethod` finds for a name. -/
def methodOf (m : List UInt8) : Method :=
  if m = ascii "GET" then .kGet
  else if m = ascii "POST" then .kPost
  else if m = ascii "HEAD" then .kHead
  else if m = ascii "PUT" then .kPut
  else if m = ascii "DELETE" then .kDelete
  else .kInvalid

def setMethod (r : HttpRequest) (m : List UInt8) :
    Except HttpContext.Fault (Bool × HttpRequest) := do
  check .setMethod (r.method = .kInvalid)
  return (methodOf m ≠ .kInvalid, { r with method := methodOf m })

def setPath (r : HttpRequest) (path : List UInt8) : HttpRequest := { r with path }

def setQuery (r : HttpRequest) (query : List UInt8) : HttpRequest := { r with query }

def setVersion (r : HttpRequest) (version : Version) : HttpRequest := { r with version }

def setReceiveTime (r : HttpRequest) (t : Int) : HttpRequest := { r with receiveTime := t }

/-- `line` is the range `[start, end)`, with a colon at the position `colon`. -/
def addHeader (r : HttpRequest) (line : List UInt8) (colon : Nat) : HttpRequest :=
  let value := ((line.drop (colon + 1)).dropWhile isspace).rdropWhile isspace
  { r with headers := r.headers.insert (line.take colon) value }

/-- The default is the empty string. -/
def getHeader (r : HttpRequest) (field : List UInt8) : List UInt8 :=
  (r.headers.lookup field).getD []

end HttpRequest

inductive HttpContext.HttpRequestParseState
  | kExpectRequestLine
  | kExpectHeaders
  | kExpectBody
  | kGotAll
deriving DecidableEq, Repr

structure HttpContext where
  state : HttpContext.HttpRequestParseState
  request : HttpRequest
deriving DecidableEq

namespace HttpContext

/-- `HttpContext::HttpContext`, and the context after `reset()`. -/
def create : HttpContext := ⟨.kExpectRequestLine, .create⟩

def gotAll (ctx : HttpContext) : Bool := ctx.state = .kGotAll

def reset (_ : HttpContext) : HttpContext := create

/-- The version in the last eight bytes of a request line. -/
def versionOf (tail : List UInt8) : Option HttpRequest.Version :=
  if tail.length = 8 ∧ tail.take 7 = ascii "HTTP/1." then
    if tail.getLast? = some '1'.toUInt8 then some .kHttp11
    else if tail.getLast? = some '0'.toUInt8 then some .kHttp10
    else none
  else none

/-- What `processRequestLine` does behind the method.  The path and the query are
set before the version is looked at. -/
def processTarget (r : HttpRequest) (line : List UInt8) : Bool × HttpRequest :=
  let space := line.idxOf ' '.toUInt8
  if space ≠ line.length then
    let target := line.take space
    let question := target.idxOf '?'.toUInt8
    let r :=
      if question ≠ target.length then
        (r.setPath (target.take question)).setQuery (target.drop question)
      else r.setPath target
    match versionOf (line.drop (space + 1)) with
    | some version => (true, r.setVersion version)
    | none => (false, r)
  else (false, r)

def processRequestLine (r : HttpRequest) (line : List UInt8) : Except Fault (Bool × HttpRequest) :=
  let space := line.idxOf ' '.toUInt8
  if space ≠ line.length then do
    let (valid, r) ← r.setMethod (line.take space)
    return if valid then processTarget r (line.drop (space + 1)) else (false, r)
  else .ok (false, r)

/-- One round of the loop: it goes on, or `parseRequest` returns. -/
inductive Round
  | more (ctx : HttpContext) (buf : Buffer)
  | done (ok : Bool) (ctx : HttpContext) (buf : Buffer)

/-- The bytes `[peek(), crlf)` -/
def lineOf (buf : Buffer) (crlf : Nat) : Except Fault (List UInt8) :=
  (Buffer.chars buf.buffer buf.peek (crlf - buf.peek)).mapError .buffer

/-- One round of the loop in `parseRequest`. -/
def parseRound (receiveTime : Int) (ctx : HttpContext) (buf : Buffer) : Except Fault Round :=
  match ctx.state with
  | .kExpectRequestLine => do
    match ← buf.findCRLF.mapError .buffer with
    | some crlf =>
      let line ← lineOf buf crlf
      let (ok, request) ← processRequestLine ctx.request line
      if ok then
        let buf ← (buf.retrieveUntil (crlf + 2)).mapError .buffer
        return .more ⟨.kExpectHeaders, request.setReceiveTime receiveTime⟩ buf
      else return .done false { ctx with request } buf
    | none => return .done true ctx buf
  | .kExpectHeaders => do
    match ← buf.findCRLF.mapError .buffer with
    | some crlf =>
      let line ← lineOf buf crlf
      let colon := line.idxOf ':'.toUInt8
      let buf' ← (buf.retrieveUntil (crlf + 2)).mapError .buffer
      if colon ≠ line.length then
        return .more { ctx with request := ctx.request.addHeader line colon } buf'
      else
        -- empty line, end of header
        return .done true { ctx with state := .kGotAll } buf'
    | none => return .done true ctx buf
  | .kExpectBody | .kGotAll => .ok (.more ctx buf)

def parseLoop (receiveTime : Int) :
    Nat → HttpContext → Buffer → Except Fault (Bool × HttpContext × Buffer)
  | 0, _, _ => .error .diverges
  | fuel + 1, ctx, buf => do
    match ← parseRound receiveTime ctx buf with
    | .more ctx buf => parseLoop receiveTime fuel ctx buf
    | .done ok ctx buf => return (ok, ctx, buf)

def parseRequest (ctx : HttpContext) (buf : Buffer) (receiveTime : Int) :
    Except Fault (Bool × HttpContext × Buffer) :=
  parseLoop receiveTime (buf.readableBytes + 1) ctx buf

/-- The loop has no exit in the states `kExpectBody` and `kGotAll`. -/
theorem parseLoop_gotAll {ctx : HttpContext} (h : ctx.state = .kExpectBody ∨ ctx.state = .kGotAll)
    (receiveTime : Int) (fuel : Nat) (buf : Buffer) :
    parseLoop receiveTime fuel ctx buf = .error .diverges := by
  have hround : parseRound receiveTime ctx buf = .ok (.more ctx buf) := by
    obtain h | h := h <;> simp only [parseRound, h]
  induction fuel with
  | zero => rfl
  | succ fuel ih =>
    rw [parseLoop, hround]
    exact ih

end HttpContext

end Muduo
