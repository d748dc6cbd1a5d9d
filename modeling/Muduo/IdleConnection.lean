import Mathlib.Data.List.Nodup
import Muduo.Lib.Outcome
import Muduo.Lib.TimingWheel

/-!
# Muduo.IdleConnection

The echo server that closes idle connections, `examples/idleconnection/echo.cc`.

A connection is a number.  It makes one `Entry`, and so a pointer to an entry is the
entry.  Outside of the callbacks only the buckets share an entry: it lives as long as one
of them holds it.  `calls` lists what the server calls on its connections.
-/

namespace Muduo.IdleConnection

open Lib Function

/-- The connection is held weakly. -/
structure Entry where
  weakConn : Nat
deriving DecidableEq, Repr

/-- `std::unordered_set<EntryPtr>` -/
structure Bucket where
  entries : List Entry
  nodup : entries.Nodup
deriving DecidableEq

def Bucket.empty : Bucket := ⟨[], .nil⟩

def Bucket.insert (e : Entry) (b : Bucket) : Bucket := ⟨b.entries.insert e, List.Nodup.insert b.nodup⟩

/-- A connection that has not been made; that is connected, or shutting down; that is
disconnected; whose object has been destroyed. -/
inductive Phase
  | fresh
  | up
  | down
  | gone
deriving DecidableEq, Repr

inductive Call
  | send (conn : Nat) (message : List UInt8)
  | shutdown (conn : Nat)
deriving DecidableEq, Repr

/-- The assertions about the context, and `back()` of an empty buffer. -/
inductive Fault
  | context
  | back
deriving DecidableEq, Repr

structure EchoServer (idleSeconds : Nat) where
  connectionBuckets : CircularBuffer Bucket idleSeconds
  phase : Nat → Phase
  context : Nat → Option Entry
  calls : List Call

namespace EchoServer

variable {idleSeconds : Nat}

/-- The constructor makes the buffer full, of empty buckets. -/
def create (idleSeconds : Nat) : EchoServer idleSeconds where
  connectionBuckets := ⟨List.replicate idleSeconds .empty, by simp⟩
  phase _ := .fresh
  context _ := none
  calls := []

/-- `use_count()` -/
def useCount (s : EchoServer idleSeconds) (e : Entry) : Nat :=
  s.connectionBuckets.data.countP (e ∈ ·.entries)

/-- `weakEntry.lock()` -/
def lock (s : EchoServer idleSeconds) (e : Entry) : Option Entry :=
  if 0 < s.useCount e then some e else none

/-- `connectionBuckets_.back().insert(entry)` -/
def insertBack (s : EchoServer idleSeconds) (e : Entry) : Except Fault (EchoServer idleSeconds) := do
  check .back (0 < s.connectionBuckets.size)
  return { s with connectionBuckets := s.connectionBuckets.modifyBack (.insert e) }

def onConnection (s : EchoServer idleSeconds) (conn : Nat) :
    Except Fault (EchoServer idleSeconds) := do
  if s.phase conn = .up then
    let entry : Entry := ⟨conn⟩
    let s ← s.insertBack entry
    return { s with context := update s.context conn (some entry) }
  else
    check .context (s.context conn ≠ none)
    return s

def onMessage (s : EchoServer idleSeconds) (conn : Nat) (msg : List UInt8) :
    Except Fault (EchoServer idleSeconds) := do
  let s : EchoServer idleSeconds := { s with calls := s.calls ++ [.send conn msg] }
  match s.context conn with
  | none => .error .context
  | some weakEntry => match s.lock weakEntry with
    | some entry => s.insertBack entry
    | none => return s

/-- The entries in the buckets that make room for a new one. -/
def overwritten (s : EchoServer idleSeconds) : List Entry :=
  (s.connectionBuckets.data.take (s.connectionBuckets.size + 1 - idleSeconds)).flatMap (·.entries)

/-- `~Entry` -/
def destroy (s : EchoServer idleSeconds) (e : Entry) : List Call :=
  if s.phase e.weakConn = .gone then [] else [.shutdown e.weakConn]

/-- The entries that no bucket holds any more are destroyed. -/
def onTimer (s : EchoServer idleSeconds) : EchoServer idleSeconds :=
  let s' := { s with connectionBuckets := s.connectionBuckets.pushBack .empty }
  let dead := s.overwritten.filter fun e => s'.useCount e = 0
  { s' with calls := s.calls ++ dead.flatMap s.destroy }

inductive Label
  | connect (conn : Nat)
  | message (conn : Nat) (msg : List UInt8)
  | disconnect (conn : Nat)
  | destroyed (conn : Nat)
  | timer
deriving DecidableEq

def step (s : EchoServer idleSeconds) : Label → Except Fault (EchoServer idleSeconds)
  | .connect conn => ({ s with phase := update s.phase conn .up } :
      EchoServer idleSeconds).onConnection conn
  | .message conn msg => s.onMessage conn msg
  | .disconnect conn => ({ s with phase := update s.phase conn .down } :
      EchoServer idleSeconds).onConnection conn
  | .destroyed conn => .ok { s with phase := update s.phase conn .gone }
  | .timer => .ok s.onTimer

/-- A connection is made once, has messages while it is up, and is destroyed after it has
been disconnected. -/
def Allowed (s : EchoServer idleSeconds) : Label → Prop
  | .connect conn => s.phase conn = .fresh
  | .message conn _ | .disconnect conn => s.phase conn = .up
  | .destroyed conn => s.phase conn = .down
  | .timer => True

instance (s : EchoServer idleSeconds) : (l : Label) → Decidable (s.Allowed l)
  | .connect _ | .message _ _ | .disconnect _ | .destroyed _ => inferInstanceAs (Decidable (_ = _))
  | .timer => .isTrue trivial

end EchoServer

end Muduo.IdleConnection
