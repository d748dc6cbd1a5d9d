import Mathlib.Data.List.AList
import Mathlib.Data.List.Range
import Muduo.Lib.Outcome

/-!
# Muduo.RpcChannel

`muduo::net::RpcChannel`: calls of remote methods and the serving of them, over one
connection, at the level of messages.

A call is known by its number, and so are its response object and its closure: a
pointer to one of them is the number, or nothing for a null pointer.  Requests and
responses are the strings they are serialized to.  `sent` are the messages given to
`codec_`.  `calls` are the calls of `CallMethod`, and `stage` how far the thread of
each has come; `requests`, `replies` and `log` are what has happened.  No code reads
the last three.
-/

namespace Muduo

open Lib

/-- The bytes of a `std::string`. -/
abbrev Bytes := List UInt8

inductive RpcMessage.MessageType
  | REQUEST
  | RESPONSE
  | ERROR
deriving DecidableEq, Repr

inductive RpcMessage.ErrorCode
  | NO_ERROR
  | WRONG_PROTO
  | NO_SERVICE
  | NO_METHOD
  | INVALID_REQUEST
  | INVALID_RESPONSE
  | TIMEOUT
deriving DecidableEq, Repr

structure RpcMessage where
  type : RpcMessage.MessageType
  id : Nat
  service : Option Bytes
  method : Option Bytes
  request : Option Bytes
  response : Option Bytes
  error : Option RpcMessage.ErrorCode
deriving DecidableEq, Repr

/-- `parseRequest` is `ParseFromString` of the request prototype. -/
structure RpcMethod where
  parseRequest : Bytes → Bool

structure RpcService where
  findMethodByName : Bytes → Option RpcMethod

abbrev ServiceMap := Bytes → Option RpcService

namespace RpcChannel

/-- How far a call of `CallMethod` has come. -/
inductive Stage
  | drawn
  | registered
  | sent
deriving DecidableEq, Repr

/-- A call of `CallMethod`; `response` and `done` tell whether the two pointers are
not null. -/
structure Call where
  service : Bytes
  method : Bytes
  request : Bytes
  response : Bool
  done : Bool
  id : Nat
deriving DecidableEq, Repr

/-- The pointers are those of the call with the given number. -/
structure OutstandingCall where
  response : Option Nat
  done : Option Nat
deriving DecidableEq, Repr

/-- The closure over `doneCallback` that a service has been given, for the REQUEST
with the given number. -/
structure Closure where
  request : Nat
  id : Nat
deriving DecidableEq, Repr

/-- A RESPONSE that was sent, for the REQUEST with the given number.  `result` is what
the method left in its response. -/
structure Reply where
  request : Nat
  result : Option Bytes
  message : RpcMessage
deriving DecidableEq, Repr

/-- What is done with the objects of a call. -/
inductive Effect
  | filled (c : Nat) (data : Bytes)
  | ran (c : Nat)
  | deleted (c : Nat)
deriving DecidableEq, Repr

inductive Event
  | registered (c : Nat)
  | received (m : RpcMessage) (effects : List Effect)
deriving DecidableEq, Repr

inductive Fault
  /-- `assert(message.has_response() || message.has_error())` -/
  | onRpcMessage
deriving DecidableEq, Repr

end RpcChannel

structure RpcChannel where
  services : Option ServiceMap
  id : Nat
  outstandings : AList fun _ : Nat => RpcChannel.OutstandingCall
  sent : List RpcMessage
  calls : List RpcChannel.Call
  stage : Nat → RpcChannel.Stage
  closures : List RpcChannel.Closure
  requests : List RpcMessage
  replies : List RpcChannel.Reply
  log : List RpcChannel.Event

namespace RpcChannel

def create (services : Option ServiceMap) : RpcChannel where
  services
  id := 0
  outstandings := ∅
  sent := []
  calls := []
  stage := fun _ => .drawn
  closures := []
  requests := []
  replies := []
  log := []

/-! ## calling -/

/-- The REQUEST of a call. -/
def Call.message (k : Call) : RpcMessage where
  type := .REQUEST
  id := k.id
  service := some k.service
  method := some k.method
  request := some k.request
  response := none
  error := none

/-- What `CallMethod` puts into `outstandings_` for the call number `c`. -/
def Call.out (k : Call) (c : Nat) : OutstandingCall :=
  ⟨if k.response then some c else none, if k.done then some c else none⟩

/-- `CallMethod` up to `id_.incrementAndGet()`. -/
def callMethod (s : RpcChannel) (service method request : Bytes) (response done : Bool) :
    RpcChannel :=
  let id := s.id + 1
  { s with id, calls := s.calls ++ [⟨service, method, request, response, done, id⟩] }

/-- `outstandings_[id] = out` -/
def register (s : RpcChannel) (c : Nat) (k : Call) : RpcChannel :=
  { s with
    outstandings := s.outstandings.insert k.id (k.out c),
    stage := Function.update s.stage c .registered,
    log := s.log ++ [.registered c] }

/-- `codec_.send(conn_, message)` at the end of `CallMethod`. -/
def send (s : RpcChannel) (c : Nat) (k : Call) : RpcChannel :=
  { s with sent := s.sent ++ [k.message], stage := Function.update s.stage c .sent }

/-- What is done for a RESPONSE to an outstanding call. -/
def complete (m : RpcMessage) (out : OutstandingCall) : List Effect :=
  match out.response with
  | none => []
  | some c => m.response.toList.map (.filled c) ++ out.done.toList.map .ran ++ [.deleted c]

/-- The branch for a RESPONSE. -/
def onResponse (s : RpcChannel) (m : RpcMessage) : Except Fault RpcChannel := do
  check .onRpcMessage (m.response.isSome ∨ m.error.isSome)
  match s.outstandings.lookup m.id with
  | some out =>
    return { s with
      outstandings := s.outstandings.erase m.id,
      log := s.log ++ [.received m (complete m out)] }
  -- both pointers of `out` stay null
  | none => return { s with log := s.log ++ [.received m []] }

/-! ## serving -/

/-- The error of a REQUEST, as it is looked up and parsed. -/
def errorOf (services : Option ServiceMap) (m : RpcMessage) : RpcMessage.ErrorCode :=
  match services with
  | none => .NO_SERVICE
  | some services => match services (m.service.getD []) with
    | none => .NO_SERVICE
    | some service => match service.findMethodByName (m.method.getD []) with
      | none => .NO_METHOD
      | some method =>
        if method.parseRequest (m.request.getD []) then .NO_ERROR else .INVALID_REQUEST

/-- The RESPONSE with an error code. -/
def errorReply (id : Nat) (error : RpcMessage.ErrorCode) : RpcMessage :=
  ⟨.RESPONSE, id, none, none, none, none, some error⟩

/-- The RESPONSE with the response of a method. -/
def doneReply (id : Nat) (response : Bytes) : RpcMessage :=
  ⟨.RESPONSE, id, none, none, none, some response, none⟩

/-- A RESPONSE to the REQUEST with the number `n` is sent. -/
def reply (s : RpcChannel) (n : Nat) (result : Option Bytes) (m : RpcMessage) : RpcChannel :=
  { s with sent := s.sent ++ [m], replies := s.replies ++ [⟨n, result, m⟩] }

/-- The branch for a REQUEST.  A service is called with a new closure. -/
def onRequest (s : RpcChannel) (m : RpcMessage) : RpcChannel :=
  let n := s.requests.length
  let s : RpcChannel :=
    { s with requests := s.requests ++ [m], log := s.log ++ [.received m []] }
  let error := errorOf s.services m
  if error = .NO_ERROR then { s with closures := s.closures ++ [⟨n, m.id⟩] }
  else s.reply n none (errorReply m.id error)

def onRpcMessage (s : RpcChannel) (m : RpcMessage) : Except Fault RpcChannel :=
  match m.type with
  | .RESPONSE => s.onResponse m
  | .REQUEST => .ok (s.onRequest m)
  | .ERROR => .ok { s with log := s.log ++ [.received m []] }

/-- The service invokes the closure with its response filled in; a closure can be
invoked once. -/
def doneCallback (s : RpcChannel) (closure : Closure) (response : Bytes) : RpcChannel :=
  { s with closures := s.closures.erase closure }.reply closure.request (some response)
    (doneReply closure.id response)

/-! ## the threads -/

/-- What a thread does, messages that arrive apart. -/
inductive Action
  | callMethod (service method request : Bytes) (response done : Bool)
  /-- The call with this number goes on, on its thread. -/
  | register (c : Nat)
  | send (c : Nat)
  /-- The service invokes the closure for the REQUEST with this number. -/
  | done (n : Nat) (response : Bytes)
deriving DecidableEq, Repr

/-- One step of a thread.  A step that is not possible leaves the state unchanged. -/
def act (s : RpcChannel) : Action → RpcChannel
  | .callMethod service method request response done =>
    s.callMethod service method request response done
  | .register c => match s.calls[c]? with
    | some k => if s.stage c = .drawn then s.register c k else s
    | none => s
  | .send c => match s.calls[c]? with
    | some k => if s.stage c = .registered then s.send c k else s
    | none => s
  | .done n response => match s.closures.find? (·.request = n) with
    | some closure => s.doneCallback closure response
    | none => s

end RpcChannel

end Muduo
