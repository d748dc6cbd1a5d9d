import Muduo.Format
import Muduo.Lib.Outcome

/-!
# Muduo.AsyncLogging

`muduo::AsyncLogging`: the threads that call `append`, and the back end, which
runs `threadFunc`.

What is done under `mutex_` is one step.  The back end gives the mutex up only
inside `cond_.waitForSeconds`, which returns after a notification, after the
interval, or for no reason; so the end of the wait is a step that is possible at
any time.  Outside the critical section the back end is cut at the test of
`running_`, before the lock, and around each call of `LogFile::append`.

`appended` has the lines in the order in which `append` took the mutex, `due`
those that were there when `stop()` was called, and `output` the arguments of the
calls of `LogFile::append`.  No code reads the three.
-/

namespace Muduo

open Lib

/-! ## buffers -/

def kLargeBuffer : Nat := 4000 * 1000

/-- `detail::FixedBuffer<SIZE>`: the bytes between `data_` and `cur_`. -/
structure FixedBuffer (SIZE : Nat) where
  data : List UInt8
  length_le : data.length ≤ SIZE
deriving DecidableEq

namespace FixedBuffer

variable {SIZE : Nat}

def create : FixedBuffer SIZE := ⟨[], Nat.zero_le SIZE⟩

def length (b : FixedBuffer SIZE) : Nat := b.data.length

def avail (b : FixedBuffer SIZE) : Nat := SIZE - b.length

/-- What does not fit is left out as a whole. -/
def append (b : FixedBuffer SIZE) (buf : List UInt8) : FixedBuffer SIZE :=
  if h : buf.length < b.avail then
    ⟨b.data ++ buf, by simp only [avail, length, List.length_append] at h ⊢; omega⟩
  else b

def reset (_ : FixedBuffer SIZE) : FixedBuffer SIZE := create

@[simp] theorem data_create : (create : FixedBuffer SIZE).data = [] := rfl

theorem data_append {b : FixedBuffer SIZE} {buf : List UInt8} (h : buf.length < b.avail) :
    (b.append buf).data = b.data ++ buf := by
  rw [append, dif_pos h]

end FixedBuffer

/-- A line that fits into a buffer. -/
abbrev LogLine := { line : List UInt8 // line.length < kLargeBuffer }

/-! ## the state -/

namespace AsyncLogging

abbrev Buffer := FixedBuffer kLargeBuffer

/-- Where the back end is. -/
inductive Pc
  /-- `start()` has not been called. -/
  | notStarted
  /-- Before the first statement of `threadFunc`. -/
  | starting
  /-- At `while (running_)`. -/
  | head
  /-- Before the lock. -/
  | locking
  /-- In `cond_.waitForSeconds`. -/
  | waiting
  /-- Behind the critical section. -/
  | swapped
  /-- In the loop over `buffersToWrite`, before the buffer number `i`. -/
  | writing (i : Nat)
  /-- `threadFunc` has returned. -/
  | finished
deriving DecidableEq, Repr

inductive Assert
  | running
  | newBuffer1
  | newBuffer2
  | buffersToWriteEmpty
  | buffersToWriteNotEmpty
  | spare1
  | spare2
deriving DecidableEq, Repr

inductive Fault
  | assertion (site : Assert)
  | nullBuffer
deriving DecidableEq, Repr

end AsyncLogging

/-- `joined` is set when `stop()` returns. -/
structure AsyncLogging where
  running : Bool
  currentBuffer : Option AsyncLogging.Buffer
  nextBuffer : Option AsyncLogging.Buffer
  buffers : List AsyncLogging.Buffer
  newBuffer1 : Option AsyncLogging.Buffer
  newBuffer2 : Option AsyncLogging.Buffer
  buffersToWrite : List AsyncLogging.Buffer
  pc : AsyncLogging.Pc
  stopping : Bool
  joined : Bool
  appended : List LogLine
  due : List LogLine
  output : List (List UInt8)
deriving DecidableEq

namespace AsyncLogging

def create : AsyncLogging where
  running := false
  currentBuffer := some .create
  nextBuffer := some .create
  buffers := []
  newBuffer1 := none
  newBuffer2 := none
  buffersToWrite := []
  pc := .notStarted
  stopping := false
  joined := false
  appended := []
  due := []
  output := []

def deref (b : Option Buffer) : Except Fault Buffer :=
  match b with
  | some b => .ok b
  | none => .error .nullBuffer

def append (s : AsyncLogging) (line : LogLine) : Except Fault AsyncLogging := do
  let s := { s with appended := s.appended ++ [line] }
  let current ← deref s.currentBuffer
  if line.val.length < current.avail then
    return { s with currentBuffer := some (current.append line) }
  else
    let next := s.nextBuffer.getD .create
    return { s with
      buffers := s.buffers ++ [current]
      nextBuffer := none
      currentBuffer := some (next.append line) }

/-! ## `threadFunc` -/

/-- Up to the loop. -/
def begin (s : AsyncLogging) : Except Fault AsyncLogging := do
  check (.assertion .running) (s.running = true)
  return { s with newBuffer1 := some .create, newBuffer2 := some .create, pc := .head }

/-- The buffer is there and has nothing in it. -/
def IsEmptyBuffer (b : Option Buffer) : Prop := ∀ c ∈ b, c.length = 0

instance (b : Option Buffer) : Decidable (IsEmptyBuffer b) :=
  inferInstanceAs (Decidable (∀ c ∈ b, c.length = 0))

/-- The test of `running_`, and the assertions at the top of the loop. -/
def iterate (s : AsyncLogging) : Except Fault AsyncLogging :=
  if s.running then do
    check (.assertion .newBuffer1) (s.newBuffer1 ≠ none ∧ IsEmptyBuffer s.newBuffer1)
    check (.assertion .newBuffer2) (s.newBuffer2 ≠ none ∧ IsEmptyBuffer s.newBuffer2)
    check (.assertion .buffersToWriteEmpty) (s.buffersToWrite = [])
    return { s with pc := .locking }
  else .ok { s with pc := .finished }

/-- The critical section behind the wait.  A null `currentBuffer_` would be put
into the vector and fail when it is written; it fails here. -/
def swap (s : AsyncLogging) : Except Fault AsyncLogging := do
  let current ← deref s.currentBuffer
  let s := { s with
    buffers := s.buffersToWrite
    buffersToWrite := s.buffers ++ [current]
    currentBuffer := s.newBuffer1
    newBuffer1 := none
    pc := .swapped }
  if s.nextBuffer = none then
    return { s with nextBuffer := s.newBuffer2, newBuffer2 := none }
  else return s

/-- The critical section up to the wait. -/
def lock (s : AsyncLogging) : Except Fault AsyncLogging :=
  if s.buffers = [] then .ok { s with pc := .waiting } else s.swap

/-- The message about what is dropped. -/
def droppedMessage (now : List Char) (n : Nat) : List UInt8 :=
  (snprintf 256 ("Dropped log messages at ".toList ++ now ++ ", ".toList ++ decimal n ++
    " larger buffers\n".toList)).map Char.toUInt8

/-- Between the critical section and the loop over the buffers. -/
def limit (s : AsyncLogging) (now : List Char) : Except Fault AsyncLogging := do
  check (.assertion .buffersToWriteNotEmpty) (s.buffersToWrite ≠ [])
  let s := { s with pc := .writing 0 }
  if 25 < s.buffersToWrite.length then
    return { s with
      output := s.output ++ [droppedMessage now (s.buffersToWrite.length - 2)]
      buffersToWrite := s.buffersToWrite.take 2 }
  else return s

/-- A null buffer is replaced by the last of those written. -/
def refill (site : Assert) (newBuffer : Option Buffer) (buffersToWrite : List Buffer) :
    Except Fault (Option Buffer × List Buffer) :=
  if newBuffer = none then do
    check (.assertion site) (buffersToWrite ≠ [])
    return (buffersToWrite.getLast?.map FixedBuffer.reset, buffersToWrite.dropLast)
  else .ok (newBuffer, buffersToWrite)

/-- Behind the loop over the buffers. -/
def recycle (s : AsyncLogging) : Except Fault AsyncLogging := do
  let buffersToWrite :=
    if 2 < s.buffersToWrite.length then s.buffersToWrite.take 2 else s.buffersToWrite
  let (newBuffer1, buffersToWrite) ← refill .spare1 s.newBuffer1 buffersToWrite
  let (newBuffer2, _) ← refill .spare2 s.newBuffer2 buffersToWrite
  return { s with newBuffer1, newBuffer2, buffersToWrite := [], pc := .head }

/-- The next statement of the loop over the buffers, or what is behind it. -/
def write (s : AsyncLogging) (i : Nat) : Except Fault AsyncLogging :=
  match s.buffersToWrite[i]? with
  | some buffer => .ok { s with output := s.output ++ [buffer.data], pc := .writing (i + 1) }
  | none => s.recycle

/-- The next step of the back end.  `now` is the formatted time. -/
def backEnd (s : AsyncLogging) (now : List Char) : Except Fault AsyncLogging :=
  match s.pc with
  | .notStarted | .finished => .ok s
  | .starting => s.begin
  | .head => s.iterate
  | .locking => s.lock
  | .waiting => s.swap
  | .swapped => s.limit now
  | .writing i => s.write i

inductive Label
  | start
  | append (line : LogLine)
  | backEnd (now : List Char)
  /-- `running_ = false` in `stop()`; the notification wakes the back end. -/
  | stop
  /-- `thread_.join()` returns, and with it `stop()`. -/
  | join
deriving DecidableEq

/-- `start()` has returned, for the latch has been counted down. -/
def Started (s : AsyncLogging) : Prop := s.pc ≠ .notStarted ∧ s.pc ≠ .starting

instance (s : AsyncLogging) : Decidable s.Started := inferInstanceAs (Decidable (_ ∧ _))

/-- One step.  A step that is not possible leaves the state unchanged: the
thread is started once, and stopped once after that. -/
def step (s : AsyncLogging) : Label → Except Fault AsyncLogging
  | .start =>
    if s.pc = .notStarted then .ok { s with running := true, pc := .starting } else .ok s
  | .append line => s.append line
  | .backEnd now => s.backEnd now
  | .stop =>
    if s.Started ∧ s.stopping = false then
      .ok { s with running := false, stopping := true, due := s.appended }
    else .ok s
  | .join => if s.stopping = true ∧ s.pc = .finished then .ok { s with joined := true } else .ok s

end AsyncLogging

end Muduo
