import Muduo.Lib.CircularBuffer
import Muduo.LogStream

/-!
# Muduo.SudokuStat

The statistics of the Sudoku server, `examples/sudoku/stat.h`: counters, and for each of
the last `kSeconds` seconds the number of responses and the sum of their latencies.

A time is its microseconds since the epoch.  The counters do not overflow.  `queueSize`
is what `pool_.queueSize()` returns.
-/

namespace Muduo

open Lib

namespace SudokuStat

def kSeconds : Nat := 60

/-- The assertions of `recordResponse`, and `back()` of an empty buffer. -/
inductive Fault
  | sizes
  | index
  | discard
  | back
deriving DecidableEq, Repr

end SudokuStat

open SudokuStat in
structure SudokuStat where
  lastSecond : Int
  requests : CircularBuffer Int kSeconds
  latencies : CircularBuffer Int kSeconds
  totalRequests : Int
  totalResponses : Int
  totalSolved : Int
  badRequests : Int
  droppedRequests : Int
  totalLatency : Int
  badLatency : Int
deriving DecidableEq

namespace SudokuStat

/-- `boost::circular_buffer<int64_t>(kSeconds)` is empty. -/
def create : SudokuStat where
  lastSecond := 0
  requests := .empty
  latencies := .empty
  totalRequests := 0
  totalResponses := 0
  totalSolved := 0
  badRequests := 0
  droppedRequests := 0
  totalLatency := 0
  badLatency := 0

def reset (s : SudokuStat) : SudokuStat :=
  { s with
    lastSecond := 0
    requests := .empty
    latencies := .empty
    totalRequests := 0
    totalResponses := 0
    totalSolved := 0
    badRequests := 0
    totalLatency := 0
    badLatency := 0 }

/-! ## recording -/

/-- `requests_.push_back(0); latencies_.push_back(0);` -/
def pushBack (s : SudokuStat) : SudokuStat :=
  { s with requests := s.requests.pushBack 0, latencies := s.latencies.pushBack 0 }

/-- `++requests_.back(); latencies_.back() += elapsed_us;` -/
def addBack (s : SudokuStat) (elapsed_us : Int) : Except Fault SudokuStat := do
  check .back (0 < s.requests.size ∧ 0 < s.latencies.size)
  return { s with
    requests := s.requests.modifyBack (· + 1)
    latencies := s.latencies.modifyBack (· + elapsed_us) }

/-- The loop that jumps ahead to `second`. -/
def jumpAhead (second : Int) : Nat → SudokuStat → SudokuStat
  | 0, s => s
  | fuel + 1, s =>
    if s.lastSecond < second then
      jumpAhead second fuel { s.pushBack with lastSecond := s.lastSecond + 1 }
    else s

/-- The part of `recordResponse` behind `totalLatency_ += elapsed_us`. -/
def recordSecond (s : SudokuStat) (second elapsed_us : Int) : Except Fault SudokuStat := do
  let firstSecond := s.lastSecond - s.requests.size + 1
  if s.lastSecond = second then s.addBack elapsed_us
  else if s.lastSecond + 1 = second ∨ s.lastSecond = 0 then
    ({ s.pushBack with lastSecond := second } : SudokuStat).addBack elapsed_us
  else if second > s.lastSecond then
    if second < s.lastSecond + kSeconds then
      (jumpAhead second (second - s.lastSecond).toNat s).addBack elapsed_us
    else
      ({ s with requests := .empty, latencies := .empty, lastSecond := second } :
        SudokuStat).pushBack.addBack elapsed_us
  else if second ≥ firstSecond then
    let idx := (second - firstSecond).toNat
    check .index (idx < s.requests.size ∧ idx < s.latencies.size)
    return { s with
      requests := s.requests.modify idx (· + 1)
      latencies := s.latencies.modify idx (· + elapsed_us) }
  else
    check .discard (second < firstSecond)
    return s

def kMicroSecondsPerSecond : Int := 1000 * 1000

def secondsSinceEpoch (now : Int) : Int := now.tdiv kMicroSecondsPerSecond

def recordResponse (s : SudokuStat) (now receive : Int) (solved : Bool) :
    Except Fault SudokuStat := do
  let second := secondsSinceEpoch now
  let elapsed_us := now - receive
  check .sizes (s.requests.size = s.latencies.size)
  let s := { s with
    totalResponses := s.totalResponses + 1
    totalSolved := if solved then s.totalSolved + 1 else s.totalSolved }
  if elapsed_us < 0 then return { s with badLatency := s.badLatency + 1 }
  else
    let s := { s with totalLatency := s.totalLatency + elapsed_us }
    let s ← s.recordSecond second elapsed_us
    check .sizes (s.requests.size = s.latencies.size)
    return s

inductive Label
  | response (now receive : Int) (solved : Bool)
  | request
  | badRequest
  | droppedRequest
  | reset
deriving DecidableEq

def step (s : SudokuStat) : Label → Except Fault SudokuStat
  | .response now receive solved => s.recordResponse now receive solved
  | .request => .ok { s with totalRequests := s.totalRequests + 1 }
  | .badRequest => .ok { s with badRequests := s.badRequests + 1 }
  | .droppedRequest => .ok { s with droppedRequests := s.droppedRequests + 1 }
  | .reset => .ok s.reset

/-! ## `report` -/

/-- What is written into the `LogStream` of `report`. -/
inductive Output
  | text (s : String)
  | number (T : IntType) (v : Int)
deriving DecidableEq

def write (garbage : Nat → UInt8) (b : LogStream.Buffer) : Output → Except LogStream.Fault LogStream.Buffer
  | .text s => .ok (b.append (s.toList.map Char.toUInt8))
  | .number T v => LogStream.writeInteger T garbage b v

/-- A line with a name and a number. -/
def line (name : String) (v : Int) : List Output := [.text name, .number .int64 v, .text "\n"]

/-- A line with a number for each second, and their sum. -/
def series (name : String) (b : CircularBuffer Int kSeconds) : List Output :=
  .text name :: b.data.flatMap (fun v => [.text " ", .number .int64 v]) ++ [.text "\n"]

def outputs (s : SudokuStat) (queueSize : Nat) : List Output :=
  let requests := s.requests.data.sum
  let latency := s.latencies.data.sum
  let latencyAvg60s := if requests = 0 then 0 else latency.tdiv requests
  let latencyAvg := if s.totalResponses = 0 then 0 else s.totalLatency.tdiv s.totalResponses
  [.text "task_queue_size ", .number .uint64 queueSize, .text "\n"] ++
    line "total_requests " s.totalRequests ++
    line "total_responses " s.totalResponses ++
    line "total_solved " s.totalSolved ++
    line "bad_requests " s.badRequests ++
    line "dropped_requests " s.droppedRequests ++
    line "latency_sum_us " s.totalLatency ++
    (if 0 < s.badLatency then line "bad_latency" s.badLatency else []) ++
    line "last_second " s.lastSecond ++
    series "requests_per_second" s.requests ++
    line "requests_60s " requests ++
    series "latency_sum_us_per_second" s.latencies ++
    line "latency_sum_us_60s " latency ++
    line "latency_us_60s " latencyAvg60s ++
    line "latency_us_avg " latencyAvg

def report (garbage : Nat → UInt8) (s : SudokuStat) (queueSize : Nat) :
    Except LogStream.Fault (List UInt8) := do
  let b ← run (write garbage) FixedBuffer.create (s.outputs queueSize)
  return b.data

end SudokuStat

end Muduo
