import Muduo.HttpContext
import Muduo.SudokuStat

/-!
# Muduo.SudokuServer

The Sudoku server, `examples/sudoku/server_prod.cc`: how `onMessage` cuts the bytes of a
client into requests.

The input buffer of the connection is the list of its readable bytes, and an `Event` is
a call that `onMessage` makes.  The size of the pool's queue and `throttle`, the context of
the connection, change behind its back: they come with the read.
-/

namespace Muduo.SudokuServer

open Lib

def kCells : Nat := 81

structure Request where
  id : List UInt8
  puzzle : List UInt8
  receiveTime : Int
deriving DecidableEq

/-- What one call of `onMessage` meets.  `queueSize k` is what `threadPool_.queueSize()`
returns for the request `k` of the call. -/
structure Read where
  bytes : List UInt8
  receiveTime : Int
  throttle : Bool
  queueSize : Nat → Nat

inductive Event
  /-- `threadPool_.run(std::bind(&SudokuServer::solve, this, conn, req))` -/
  | solve (req : Request)
  | send (message : List UInt8)
  | shutdown
  /-- a call of `stat_` -/
  | record (l : SudokuStat.Label)
deriving DecidableEq

/-- `processRequest` behind the parsing of the request. -/
def dispatch (r : Read) (k : Nat) (req : Request) : Bool × List Event :=
  if req.puzzle.length = kCells then
    if r.queueSize k < 1000 * 1000 ∧ r.throttle = false then (true, [.solve req])
    else
      let busy := if req.id = [] then ascii "ServerTooBusy\r\n"
        else req.id ++ ascii ":ServerTooBusy\r\n"
      (true, [.send busy, .record .droppedRequest])
  else (false, [])

def processRequest (numThreads : Int) (r : Read) (k : Nat) (request : List UInt8) :
    Bool × List Event :=
  let colon := request.idxOf ':'.toUInt8
  if colon ≠ request.length then
    dispatch r k ⟨request.take colon, request.drop (colon + 1), r.receiveTime⟩
  else if numThreads > 1 then (false, [])
  else dispatch r k ⟨[], request, r.receiveTime⟩

/-- The loop of `onMessage`, which has made `k` rounds.  It returns what is left in the
buffer. -/
def loop (numThreads : Int) (r : Read) : Nat → Nat → List UInt8 → List Event × List UInt8
  | 0, _, buf => ([], buf)
  | fuel + 1, k, buf =>
    if kCells + 2 ≤ buf.length then
      match Buffer.searchCRLF buf with
      | some crlf =>
        match processRequest numThreads r k (buf.take crlf) with
        | (true, events) =>
          let (more, rest) := loop numThreads r fuel (k + 1) (buf.drop (crlf + 2))
          (.record .request :: events ++ more, rest)
        | (false, events) =>
          (.record .request :: events ++
            [.send (ascii "Bad Request!\r\n"), .shutdown, .record .badRequest],
            buf.drop (crlf + 2))
      | none =>
        if buf.length > 100 then
          ([.send (ascii "Id too long!\r\n"), .shutdown, .record .badRequest], buf)
        else ([], buf)
    else ([], buf)

/-- A round that goes on takes at least two bytes. -/
def onMessage (numThreads : Int) (r : Read) (buf : List UInt8) : List Event × List UInt8 :=
  let buf := buf ++ r.bytes
  loop numThreads r buf.length 0 buf

/-- The events of a connection with the bytes `buf` in its buffer. -/
def serve (numThreads : Int) : List UInt8 → List Read → List Event
  | _, [] => []
  | buf, r :: rs =>
    let (events, rest) := onMessage numThreads r buf
    events ++ serve numThreads rest rs

end Muduo.SudokuServer
