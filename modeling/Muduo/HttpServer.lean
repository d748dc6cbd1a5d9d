import Muduo.HttpContext.Segmentation

/-!
# Muduo.HttpServer

`muduo::net::HttpServer::onMessage` for one connection: the reads that the kernel
delivers, the parser in the context of the connection, and `httpCallback_`.

Of the connection there is its input buffer, and whether `shutdown()` has been
called.  Data may arrive after that, for `shutdown()` closes one direction only.
Of the response there is `closeConnection_`; `httpCallback` is the value that the
callback leaves there.

`received`, `requests` and `failures` are what has arrived, what `httpCallback_`
has been called for, and the contexts before and after each call of
`parseRequest` that returned false.  No code reads the three.
-/

namespace Muduo

open Lib HttpContext

/-- A connection of an `HttpServer`. -/
structure HttpConn where
  context : HttpContext
  inputBuffer : Buffer
  connected : Bool
  received : List UInt8
  requests : List HttpRequest
  failures : List (HttpContext × HttpContext)
deriving DecidableEq

namespace HttpConn

/-- `onConnection` for a new connection. -/
def create : HttpConn where
  context := .create
  inputBuffer := Buffer.newBuffer
  connected := true
  received := []
  requests := []
  failures := []

/-- `conn->shutdown()` -/
def shutdown (s : HttpConn) : HttpConn := { s with connected := false }

/-- `closeConnection_` of the response, before the callback. -/
def wantsClose (req : HttpRequest) : Bool :=
  let connection := req.getHeader (ascii "Connection")
  connection = ascii "close" ||
    (req.version = .kHttp10 && connection ≠ ascii "Keep-Alive")

def onRequest (httpCallback : HttpRequest → Bool → Bool) (s : HttpConn) (req : HttpRequest) :
    HttpConn :=
  let s := { s with requests := s.requests ++ [req] }
  if httpCallback req (wantsClose req) then s.shutdown else s

/-- `HttpServer::onMessage` behind the call of `parseRequest`, which returned `ok`
and was called with the context `before`. -/
def onParsed (httpCallback : HttpRequest → Bool → Bool) (before : HttpContext) (ok : Bool)
    (s : HttpConn) : HttpConn :=
  let s := if ok then s
    else { s with failures := s.failures ++ [(before, s.context)] }.shutdown
  if s.context.gotAll then
    let s := s.onRequest httpCallback s.context.request
    { s with context := s.context.reset }
  else s

/-- `HttpServer::onMessage`, for a read that has brought the bytes of `c`. -/
def onMessage (httpCallback : HttpRequest → Bool → Bool) (s : HttpConn) (c : Chunk) :
    Except Fault HttpConn := do
  let buf ← (s.inputBuffer.append c.bytes.data).mapError .buffer
  let (ok, context, inputBuffer) ← s.context.parseRequest buf c.receiveTime
  let received := s.received ++ c.bytes.data
  return { s with context, inputBuffer, received }.onParsed httpCallback s.context ok

end HttpConn

end Muduo
