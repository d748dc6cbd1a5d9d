import Muduo.TcpConnection

/-!
# Muduo.Tunnel

The flow control of a tunnel of `examples/socks4a`, on one loop.

Of a connection there is its state, the number of bytes in `outputBuffer_`, whether it is read
from, and whether `writeCompleteCallback_` is set; the channel is writing while there are bytes.
`serverConn_` is never reset.
-/

namespace Muduo.Tunnel

open Lib Function TcpConnection

inductive ServerClient
  | kServer
  | kClient
deriving DecidableEq, Repr

def ServerClient.other : ServerClient → ServerClient
  | .kServer => .kClient
  | .kClient => .kServer

inductive Functor
  | highWaterMark (which : ServerClient)
  | writeComplete (which : ServerClient)
deriving DecidableEq, Repr

structure Conn where
  state : StateE
  output : Nat
  reading : Bool
  writeComplete : Bool
deriving DecidableEq, Repr

/-- `clientConn`: `clientConn_` is set.  `context`: that of `serverConn_` is.  The tunnel exists while
`g_tunnels` has it or the callbacks of `client_` are bound to it. -/
structure State where
  conns : ServerClient → Conn
  clientConn : Bool
  context : Bool
  inTunnels : Bool
  bound : Bool
  pending : List Functor

inductive Fault
  | nullPointer
deriving DecidableEq, Repr

def kHighWaterMark : Nat := 1024 * 1024

namespace State

/-- After `setup`, with some of the response in the output buffer. -/
def setup (output : Nat) : State where
  conns
    | .kServer => ⟨.kConnected, output, true, false⟩
    | .kClient => ⟨.kConnecting, 0, true, false⟩
  clientConn := false
  context := false
  inTunnels := true
  bound := true
  pending := []

def set (s : State) (which : ServerClient) (c : Conn) : State :=
  { s with conns := update s.conns which c }

def queueIf (s : State) (p : Prop) [Decidable p] (f : Functor) : State :=
  if p then { s with pending := s.pending ++ [f] } else s

/-! ## `TcpConnection` -/

def sendInLoop (s : State) (which : ServerClient) (len : Nat) (io : WriteResult) : State :=
  let c := s.conns which
  if c.state = .kDisconnected then s
  else
    let remaining := len - if c.output = 0 then io.accepted len else 0
    let s := s.queueIf (c.output = 0 ∧ io.returned ∧ remaining = 0 ∧ c.writeComplete)
      (.writeComplete which)
    if ¬ (c.output = 0 ∧ io.reset) ∧ 0 < remaining then
      let s := s.queueIf (kHighWaterMark ≤ c.output + remaining ∧ c.output < kHighWaterMark)
        (.highWaterMark which)
      s.set which { c with output := c.output + remaining }
    else s

def send (s : State) (which : ServerClient) (len : Nat) (io : WriteResult) : State :=
  if (s.conns which).state = .kConnected then s.sendInLoop which len io else s

def handleWrite (s : State) (which : ServerClient) (io : WriteResult) : State :=
  let c := s.conns which
  let n := io.accepted c.output
  if c.output ≠ 0 ∧ 0 < n then
    let c := { c with output := c.output - n }
    (s.set which c).queueIf (c.output = 0 ∧ c.writeComplete) (.writeComplete which)
  else s

def setState (s : State) (which : ServerClient) (state : StateE) : State :=
  s.set which { s.conns which with state }

def shutdown (s : State) (which : ServerClient) : State :=
  if (s.conns which).state = .kConnected then s.setState which .kDisconnecting else s

def setReading (s : State) (which : ServerClient) (reading : Bool) : State :=
  s.set which { s.conns which with reading }

def setWriteComplete (s : State) (which : ServerClient) (writeComplete : Bool) : State :=
  s.set which { s.conns which with writeComplete }

/-! ## `Tunnel` -/

def teardown (s : State) : State :=
  { { s with bound := false, context := false }.shutdown .kServer with clientConn := false }

/-- `onClientConnection` of a connection that is up, with `len` bytes of input from before. -/
def onClientUp (s : State) (len : Nat) (io : WriteResult) : State :=
  let s := { s.setState .kClient .kConnected with context := true }
  let s := { s.setReading .kServer true with clientConn := true }
  if 0 < len then s.send .kClient len io else s

def onServerDown (s : State) : State :=
  if s.inTunnels then { s.shutdown .kClient with inTunnels := false } else s

def onServerMessage (s : State) (len : Nat) (io : WriteResult) : State :=
  if s.inTunnels ∧ s.context then s.send .kClient len io else s

def onHighWaterMark (s : State) : ServerClient → Except Fault State
  | .kServer =>
    if 0 < (s.conns .kServer).output then do
      check .nullPointer s.clientConn
      return (s.setReading .kClient false).setWriteComplete .kServer true
    else return s
  | .kClient => do
    check .nullPointer s.clientConn
    if 0 < (s.conns .kClient).output then
      return (s.setReading .kServer false).setWriteComplete .kClient true
    else return s

def onWriteComplete (s : State) (which : ServerClient) : Except Fault State := do
  check .nullPointer s.clientConn
  return (s.setReading which.other true).setWriteComplete which false

/-- The functor at the head of the queue, which has the tunnel as a `weak_ptr`. -/
def runFunctor (s : State) : Except Fault State :=
  match s.pending with
  | [] => .ok s
  | f :: pending =>
    let s := { s with pending }
    if s.inTunnels || s.bound then
      match f with
      | .highWaterMark which => s.onHighWaterMark which
      | .writeComplete which => s.onWriteComplete which
    else .ok s

/-- The connection is one of the loop. -/
def Open (s : State) (which : ServerClient) : Prop :=
  (s.conns which).state = .kConnected ∨ (s.conns which).state = .kDisconnecting

instance (s : State) (which : ServerClient) : Decidable (s.Open which) :=
  inferInstanceAs (Decidable (_ ∨ _))

end State

inductive Label
  | clientUp (len : Nat) (io : WriteResult)
  | message (which : ServerClient) (len : Nat) (io : WriteResult)
  | write (which : ServerClient) (io : WriteResult)
  | close (which : ServerClient)
  | runFunctor
deriving DecidableEq, Repr

/-- An event of a connection, or a queued functor. -/
def step (s : State) : Label → Except Fault State
  | .clientUp len io =>
    .ok (if (s.conns .kClient).state = .kConnecting then s.onClientUp len io else s)
  | .message which len io => .ok (if s.Open which then
      match which with
      | .kServer => s.onServerMessage len io
      | .kClient => s.send .kServer len io
    else s)
  | .write which io => .ok (if s.Open which then s.handleWrite which io else s)
  | .close which => .ok (if s.Open which then
      let s := s.setState which .kDisconnected
      match which with
      | .kServer => s.onServerDown
      | .kClient => s.teardown
    else s)
  | .runFunctor => s.runFunctor

/-! ## flow control -/

/-- What runs next finds both connections, and a connection that is not read from waits for the
other one to be written. -/
structure Controlled (s : State) : Prop where
  endpoints : s.inTunnels || s.bound → s.pending ≠ [] → s.clientConn
  resumes : s.Open .kServer → s.Open .kClient → ∀ which, (s.conns which.other).reading = false →
    (s.conns which).output ≠ 0 ∨ .writeComplete which ∈ s.pending

structure Inv (s : State) : Prop where
  before : (s.conns .kClient).state = .kConnecting → s.bound ∧ s.pending = [] ∧
    ∀ which, (s.conns which).writeComplete = false ∧ (s.conns which).reading = true
  during : s.Open .kClient → s.clientConn ∧ s.bound
  after : (s.conns .kClient).state = .kDisconnected → ¬ (s.inTunnels || s.bound)
  context : s.context → s.Open .kClient
  stopped : s.Open .kClient → ∀ which, (s.conns which.other).reading = false →
    (s.conns which).writeComplete ∧
      ((s.conns which).output ≠ 0 ∨ .writeComplete which ∈ s.pending)

variable {s : State} {which : ServerClient} {len : Nat} {io : WriteResult}

theorem forall_which {p : ServerClient → Prop} : (∀ which, p which) ↔ p .kServer ∧ p .kClient := by
  constructor
  · exact fun h => ⟨h _, h _⟩
  · rintro ⟨hs, hc⟩ (_ | _) <;> assumption

theorem inv_setup (output : Nat) : Inv (.setup output) := by
  constructor <;> simp [State.setup, State.Open, forall_which]

theorem Inv.alive_iff (h : Inv s) (hpending : s.pending ≠ []) :
    s.inTunnels || s.bound ↔ s.Open .kClient := by
  have hbefore := h.before
  have hduring := h.during
  have hafter := h.after
  cases hs : (s.conns .kClient).state <;> simp_all [State.Open]

theorem Inv.controlled (h : Inv s) : Controlled s where
  endpoints halive hpending := (h.during ((h.alive_iff hpending).mp halive)).1
  resumes _ hs which hreading := (h.stopped hs which hreading).2

theorem inv_of_open (hs : s.Open .kClient) (hduring : s.clientConn ∧ s.bound)
    (hstopped : ∀ which, (s.conns which.other).reading = false → (s.conns which).writeComplete ∧
      ((s.conns which).output ≠ 0 ∨ .writeComplete which ∈ s.pending)) : Inv s where
  before h := by simp [State.Open, h] at hs
  during _ := hduring
  after h := by simp [State.Open, h] at hs
  context _ := hs
  stopped _ := hstopped

/-- Bytes are sent or written.  A buffer that becomes empty is reported. -/
theorem Inv.output (h : Inv s) (which : ServerClient) {output : Nat} {fs : List Functor}
    (hreport : (s.conns which).writeComplete → (s.conns which).output ≠ 0 →
      output ≠ 0 ∨ .writeComplete which ∈ fs)
    (hnone : (s.conns .kClient).state = .kConnecting → fs = []) :
    Inv { s.set which { s.conns which with output } with pending := s.pending ++ fs } := by
  obtain ⟨hbefore, hduring, hafter, hcontext, hstopped⟩ := h
  cases which <;> constructor <;>
    simp_all [State.set, State.Open, forall_which, ServerClient.other]
  all_goals grind

theorem queueIf_eq (s : State) (p : Prop) [Decidable p] (f : Functor) :
    s.queueIf p f = { s with pending := s.pending ++ if p then [f] else [] } := by
  unfold State.queueIf
  split_ifs <;> simp

theorem sendInLoop_eq (s : State) (which : ServerClient) (len : Nat) (io : WriteResult) :
    ∃ n fs, s.sendInLoop which len io = { s.set which { s.conns which with
      output := (s.conns which).output + n } with pending := s.pending ++ fs } := by
  simp only [State.sendInLoop, queueIf_eq, State.set]
  split
  · exact ⟨0, [], by simp⟩
  · generalize (len - if (s.conns which).output = 0 then io.accepted len else 0) = n
    split
    · exact ⟨n, _, by rw [List.append_assoc]⟩
    · exact ⟨0, _, by rw [Nat.add_zero, update_eq_self]⟩

theorem Inv.send (h : Inv s) (hs : s.Open .kClient) : Inv (s.send which len io) := by
  unfold State.send
  split_ifs
  · obtain ⟨n, fs, hsend⟩ := sendInLoop_eq s which len io
    rw [hsend]
    exact h.output which (by omega) fun hc => by simp [State.Open, hc] at hs
  · exact h

theorem Inv.handleWrite (h : Inv s) : Inv (s.handleWrite which io) := by
  simp only [State.handleWrite, queueIf_eq]
  split
  · refine h.output which (fun hwc _ => ?_) fun hc => ?_
    · simp only [hwc, and_true]
      grind
    · simp [((h.before hc).2.2 which).1]
  · exact h

theorem Inv.onClientUp (h : Inv s) (hs : (s.conns .kClient).state = .kConnecting) :
    Inv (s.onClientUp len io) := by
  obtain ⟨hbound, -, hconns⟩ := h.before hs
  have hopen : (s.onClientUp 0 io).Open .kClient := by
    simp [State.onClientUp, State.setState, State.setReading, State.set, State.Open]
  have hup : Inv (s.onClientUp 0 io) := inv_of_open hopen ⟨rfl, hbound⟩ (by
    simp [State.onClientUp, State.setState, State.setReading, State.set, forall_which,
      ServerClient.other, hconns])
  simp only [State.onClientUp] at hup hopen ⊢
  split_ifs
  · exact hup.send hopen
  · exact hup

theorem Inv.closeServer (h : Inv s) : Inv (s.setState .kServer .kDisconnected).onServerDown := by
  obtain ⟨hbefore, hduring, hafter, hcontext, hstopped⟩ := h
  by_cases ht : s.inTunnels <;> by_cases hs : (s.conns .kClient).state = .kConnected <;>
    constructor <;>
    simp_all [State.onServerDown, State.shutdown, State.setState, State.set, State.Open,
      forall_which, ServerClient.other]

theorem inv_closeClient (ht : s.inTunnels = false) :
    Inv (s.setState .kClient .kDisconnected).teardown := by
  by_cases hs : (s.conns .kServer).state = .kConnected <;> constructor <;>
    simp_all [State.teardown, State.shutdown, State.setState, State.set, State.Open]

section
variable {f : Functor} {pending : List Functor}

/-- A functor that does nothing. -/
theorem Inv.pop (h : Inv s) (hpending : s.pending = f :: pending)
    (hf : s.Open .kClient → ∃ which, f = .highWaterMark which) : Inv { s with pending } := by
  obtain ⟨hbefore, hduring, hafter, hcontext, hstopped⟩ := h
  refine ⟨by simp_all, hduring, hafter, hcontext, fun hs => ?_⟩
  obtain ⟨which, rfl⟩ := hf hs
  simpa [hpending] using hstopped hs

/-- A functor that stops or starts the reading of the other side. -/
theorem Inv.toggle (h : Inv s) (hs : s.Open .kClient) (hpending : s.pending = f :: pending)
    {stop : Bool} (hf : f = .highWaterMark which ∧ stop ∧ (s.conns which).output ≠ 0 ∨
      f = .writeComplete which ∧ stop = false) :
    Inv (({ s with pending }.setReading which.other !stop).setWriteComplete which stop) := by
  have hstopped := h.stopped hs
  refine inv_of_open ?_ (h.during hs) ?_
  · cases which <;>
      simpa [State.setReading, State.setWriteComplete, State.set, State.Open, ServerClient.other]
        using hs
  · obtain ⟨rfl, rfl, hout⟩ | ⟨rfl, rfl⟩ := hf <;> cases which <;>
      simp_all [State.setReading, State.setWriteComplete, State.set, forall_which,
        ServerClient.other]

/-- A functor that runs finds both connections. -/
theorem Inv.runFunctor (h : Inv s) : ∃ s', s.runFunctor = .ok s' ∧ Inv s' := by
  cases hpending : s.pending with
  | nil => exact ⟨s, by simp [State.runFunctor, hpending], h⟩
  | cons f pending =>
    have halive := h.alive_iff (by simp [hpending])
    by_cases hs : s.Open .kClient
    · have hconn := (h.during hs).1
      rw [iff_true_right hs] at halive
      cases f with
      | highWaterMark which =>
        by_cases hout : (s.conns which).output = 0
        · refine ⟨_, ?_, h.pop hpending fun _ => ⟨which, rfl⟩⟩
          cases which <;> simp [State.runFunctor, hpending, halive, State.onHighWaterMark, hconn,
            hout, check_of, ok_bind, pure, Except.pure]
        · refine ⟨_, ?_, h.toggle hs hpending (.inl ⟨rfl, rfl, hout⟩)⟩
          cases which <;> simp [State.runFunctor, hpending, halive, State.onHighWaterMark, hconn,
            Nat.pos_of_ne_zero hout, check_of, ok_bind, pure, Except.pure, ServerClient.other]
      | writeComplete which =>
        refine ⟨_, ?_, h.toggle hs hpending (.inr ⟨rfl, rfl⟩)⟩
        simp [State.runFunctor, hpending, halive, State.onWriteComplete, hconn, check_of, ok_bind,
          pure, Except.pure]
    · refine ⟨_, ?_, h.pop hpending fun ho => absurd ho hs⟩
      rw [iff_false_right hs] at halive
      simp only [State.runFunctor, hpending, halive]
      rfl

end

/-- The connection to the client of the proxy is closed before the one of `client_`. -/
def ServerFirst (s : State) (a : Label) : Prop := a = .close .kClient → s.inTunnels = false

instance (s : State) (a : Label) : Decidable (ServerFirst s a) :=
  inferInstanceAs (Decidable (_ → _))

theorem Inv.step (h : Inv s) {a : Label} (ha : ServerFirst s a) :
    ∃ s', step s a = .ok s' ∧ Inv s' := by
  cases a with
  | clientUp len io => exact ⟨_, rfl, by split_ifs with hs; exacts [h.onClientUp hs, h]⟩
  | message which len io =>
    refine ⟨_, rfl, ?_⟩
    split_ifs with hs
    · cases which with
      | kServer =>
        unfold State.onServerMessage
        split_ifs with hcontext
        · exact h.send (h.context hcontext.2)
        · exact h
      | kClient => exact h.send hs
    · exact h
  | write which io => exact ⟨_, rfl, by split_ifs; exacts [h.handleWrite, h]⟩
  | close which =>
    refine ⟨_, rfl, ?_⟩
    split_ifs
    · cases which with
      | kServer => exact h.closeServer
      | kClient => exact inv_closeClient (ha rfl)
    · exact h
  | runFunctor => exact h.runFunctor

/-- **Flow control.** In every run in which the connection to the client of the proxy is closed
first, a functor finds both connections, and a connection that is not read from is waiting. -/
theorem tunnel_controlled (output : Nat) (as : List Label)
    (h : Meets step ServerFirst (.setup output) as) :
    ∃ s, run step (.setup output) as = .ok s ∧ Controlled s := by
  obtain ⟨s, hok, hinv⟩ := exists_run (fun s a hs ha => Inv.step hs ha) (inv_setup output) h
  exact ⟨s, hok, hinv.controlled⟩

/-- The client sends more than the mark, is paused, and read from again when all is written; the
proxy's client closes, and then the other side. -/
theorem tunnel_controlled_pause :
    ∃ s, run step (.setup 8) [.write .kServer (.wrote 8), .clientUp 0 (.wrote 0),
        .message .kClient (2 ^ 21) (.wrote 5), .runFunctor, .write .kServer (.wrote (2 ^ 21)),
        .runFunctor, .close .kServer, .close .kClient] = .ok s ∧ Controlled s :=
  tunnel_controlled 8 _ (by decide)

/-- The other side closes while it is paused: the buffer is written all the same, and
`onWriteComplete` finds no `clientConn_`. -/
theorem write_complete_after_teardown :
    run step (.setup 0) [.clientUp 0 (.wrote 0), .message .kClient (2 ^ 21) (.wrote 5), .runFunctor,
      .close .kClient, .write .kServer (.wrote (2 ^ 21)), .runFunctor] = .error .nullPointer := rfl

end Muduo.Tunnel
