import Mathlib.Data.List.Perm.Basic
import Muduo.TcpConnection.Output

/-!
# Muduo.TcpConnection.Shutdown

Graceful shutdown while other threads send.

`send` on another thread is two steps: the test of `state_`, and putting
`sendInLoop` on the FIFO queue of the loop.  The loop thread runs the queue,
its own `send` and `shutdown`, and the events of the socket, in any
interleaving with those steps.

`shutdownInLoop` asks only whether the channel is writing, not whether
messages are on their way through the queue.
-/

namespace Muduo.TcpConnection

open Lib Buffer List

/-- The steps of the other threads and of the loop thread. -/
inductive SharedEvent
  /-- Another thread calls `send` and tests `state_`. -/
  | test (message : CharRange)
  /-- The `i`-th of the threads past the test puts its functor on the queue. -/
  | enqueue (i : Nat)
  /-- The loop runs the functor at the head of its queue. -/
  | runFunctor (io : WriteResult)
  | send (message : CharRange) (io : WriteResult)
  | shutdown
  | handleWrite (io : WriteResult)

/-- `tested` are the messages of the threads between the two steps of `send`,
`passed` the history of all messages that passed the test. -/
structure SharedState where
  conn : TcpConnection
  tested : List CharRange
  passed : List (List UInt8)

/-- The message of a queued `sendInLoop`. -/
def Functor.message? : Functor → Option (List UInt8)
  | .sendInLoop message => some message.data
  | _ => none

namespace SharedEvent

/-- The bytes passed to `send`. -/
def message : SharedEvent → List UInt8
  | .test message | .send message _ => message.data
  | .enqueue _ | .runFunctor _ | .shutdown | .handleWrite _ => []

/-- No `write(2)` of the step fails with `EPIPE` or `ECONNRESET`. -/
def NoReset : SharedEvent → Prop
  | .runFunctor io | .send _ io | .handleWrite io => io.reset = false
  | .test _ | .enqueue _ | .shutdown => True

/-- The step calls `shutdownWrite()`: the channel is not writing when
`shutdown` is called, or the write drains the buffer of a connection that is
shutting down. -/
def HalfCloses (c : TcpConnection) : SharedEvent → Prop
  | .shutdown => c.state = .kConnected ∧ c.outputBuffer.content = []
  | .handleWrite io => c.state = .kDisconnecting ∧ c.outputBuffer.content ≠ [] ∧
      io.accepted c.outputBuffer.content.length = c.outputBuffer.content.length
  | .test _ | .enqueue _ | .runFunctor _ | .send _ _ => False

instance : DecidablePred NoReset
  | .runFunctor _ | .send _ _ | .handleWrite _ => inferInstanceAs (Decidable (_ = false))
  | .test _ | .enqueue _ | .shutdown => inferInstanceAs (Decidable True)

instance (c : TcpConnection) : DecidablePred (HalfCloses c)
  | .shutdown | .handleWrite _ => inferInstanceAs (Decidable (_ ∧ _))
  | .test _ | .enqueue _ | .runFunctor _ | .send _ _ => inferInstanceAs (Decidable False)

end SharedEvent

namespace SharedState

/-- The messages that passed the test and did not reach `sendInLoop` yet. -/
def inFlight (s : SharedState) : List (List UInt8) :=
  s.conn.pendingFunctors.filterMap Functor.message? ++ s.tested.map (·.data)

/-- One step of one thread. -/
def step (s : SharedState) : SharedEvent → Except Fault SharedState
  | .test message => .ok (if s.conn.state = .kConnected then
      { s with tested := s.tested ++ [message], passed := s.passed ++ [message.data] } else s)
  | .enqueue i => .ok (match s.tested[i]? with
      | some message =>
        { s with
          conn := s.conn.queueInLoop (.sendInLoop message)
          tested := s.tested.eraseIdx i }
      | none => s)
  | .runFunctor io => match s.conn.pendingFunctors with
      | [] => .ok s
      | f :: fs => do
        let c ← { s.conn with pendingFunctors := fs }.runFunctor f io
        return { s with conn := c }
  | .send message io => do
    let c ← s.conn.send message io
    return { s with
      conn := c
      passed := s.passed ++ if s.conn.state = .kConnected then [message.data] else [] }
  | .shutdown => .ok { s with conn := s.conn.shutdown }
  | .handleWrite io => do
    let c ← s.conn.handleWrite io
    return { s with conn := c }

/-- A step is quiet when it does not half-close the connection with messages
in flight. -/
def Quiet (s : SharedState) (e : SharedEvent) : Prop := e.HalfCloses s.conn → s.inFlight = []

instance (s : SharedState) (e : SharedEvent) : Decidable (s.Quiet e) :=
  inferInstanceAs (Decidable (_ → _))

/-- All messages that passed the test are written before `shutdownWrite()`,
each as a whole, and nothing is written after it. -/
def Graceful (s : SharedState) : Prop :=
  ∀ pre n post, s.conn.log = pre ++ .shutdownWrite n :: post →
    (∃ ms : List (List UInt8), ms.Perm s.passed ∧ acceptedBytes pre = ms.flatten) ∧
      ∀ e ∈ post, e.isWrite = false

end SharedState

/-! ## the invariant -/

/-- `ms` are the messages that reached `sendInLoop`, in that order. -/
structure SharedInv (ms : List (List UInt8)) (s : SharedState) : Prop where
  output : OutputInv ⟨s.conn, ms.flatten⟩
  passed : (ms ++ s.inFlight).Perm s.passed
  noClose : .forceCloseInLoop ∉ s.conn.pendingFunctors
  quiet : (∃ e ∈ s.conn.log, e.isShutdownWrite = true) → s.inFlight = []

/-- A connection that is half-closed with nothing in flight has written
everything before. -/
theorem SharedInv.graceful {ms : List (List UInt8)} {s : SharedState} (h : SharedInv ms s) :
    s.Graceful := by
  intro pre n post hlog
  have hshut : ∃ e ∈ s.conn.log, e.isShutdownWrite = true :=
    ⟨.shutdownWrite n, by simp [hlog], rfl⟩
  have hempty := (h.output.halfClosed hshut).2
  have hordered := h.output.ordered
  simp only [hlog, NoWriteAfterShutdown, pairwise_append, pairwise_cons] at hordered
  have hpost : ∀ e ∈ post, e.isWrite = false := fun e he => hordered.2.1.1 e he rfl
  have hstream := h.output.stream
  simp only [hlog, hempty, append_nil, acceptedBytes_append] at hstream
  rw [acceptedBytes_of_noWrite (forall_mem_cons.mpr ⟨rfl, hpost⟩), append_nil] at hstream
  constructor
  · exact ⟨ms, by simpa [h.quiet hshut] using h.passed, hstream⟩
  · exact hpost

variable {c : TcpConnection}

section
variable {ms : List (List UInt8)} {s : SharedState}

/-- Callbacks of the user carry no message. -/
theorem QueuesCallbacks.filterMap_message {c c' : TcpConnection} (h : QueuesCallbacks c c') :
    c'.pendingFunctors.filterMap Functor.message? =
      c.pendingFunctors.filterMap Functor.message? := by
  obtain ⟨fs, hqueue, hfs⟩ := h
  have hnone : fs.filterMap Functor.message? = [] := by
    rw [filterMap_eq_nil_iff]
    intro f hf
    have hcb := hfs f hf
    cases f with
    | sendInLoop message => contradiction
    | _ => rfl
  rw [hqueue, filterMap_append, hnone, append_nil]

theorem QueuesCallbacks.noClose {c c' : TcpConnection} (h : QueuesCallbacks c c')
    (hc : .forceCloseInLoop ∉ c.pendingFunctors) : .forceCloseInLoop ∉ c'.pendingFunctors := by
  obtain ⟨fs, hqueue, hfs⟩ := h
  rw [hqueue, mem_append, not_or]
  exact ⟨hc, fun hf => absurd (hfs _ hf) (by decide)⟩

theorem SharedInv.notShut_of_inFlight (h : SharedInv ms s) (hflight : s.inFlight ≠ []) :
    ∀ e ∈ s.conn.log, e.isShutdownWrite = false := by
  intro e he
  by_contra hs
  exact hflight (h.quiet ⟨e, he, by simpa using hs⟩)

variable {sent : List UInt8} {message : CharRange}

theorem OutputInv.withFunctors (h : OutputInv ⟨c, sent⟩)
    (fs : List Functor) : OutputInv ⟨{ c with pendingFunctors := fs }, sent⟩ :=
  { h with steady := h.steady.congr rfl rfl rfl }

theorem OutputInv.emit_callback (h : OutputInv ⟨c, sent⟩) {e : Effect}
    (hw : e.isWrite = false) (hs : e.isShutdownWrite = false) : OutputInv ⟨c.emit e, sent⟩ := by
  have hbytes : acceptedBytes [e] = [] := acceptedBytes_of_noWrite (by simpa using hw)
  have hmem : ∀ e' ∈ c.log ++ [e], e'.isShutdownWrite = true → e' ∈ c.log := by
    intro e' he' hs'
    rw [mem_append, mem_singleton] at he'
    exact he'.resolve_right fun heq => by simp [heq, hs] at hs'
  constructor
  · exact h.steady.congr rfl rfl rfl
  · exact h.state
  · have hstream := h.stream
    simpa [hbytes] using hstream
  · exact fun n hn => h.emptyShutdown n (hmem _ hn rfl)
  · exact pairwise_append.mpr ⟨h.ordered, pairwise_singleton _ _, fun _ _ e' he' _ => by
      rw [mem_singleton.mp he', hw]⟩
  · exact fun ⟨e', he', hs'⟩ => h.halfClosed ⟨e', hmem e' he' hs', hs'⟩
  · exact h.size

theorem SharedInv.test (h : SharedInv ms s) (message : CharRange)
    (hconn : s.conn.state = .kConnected) :
    SharedInv ms { s with
      tested := s.tested ++ [message], passed := s.passed ++ [message.data] } := by
  have hnone := h.output.notShut (.inl hconn)
  have hpassed := h.passed
  constructor
  · exact h.output
  · have happ := hpassed.append_right [message.data]
    simpa [SharedState.inFlight] using happ
  · exact h.noClose
  · exact fun ⟨e, he, hs⟩ => absurd hs (by simp [hnone e he])

theorem SharedInv.enqueue (h : SharedInv ms s) {i : Nat} (hi : s.tested[i]? = some message) :
    SharedInv ms { s with
      conn := s.conn.queueInLoop (.sendInLoop message), tested := s.tested.eraseIdx i } := by
  obtain ⟨hlt, hget⟩ := List.getElem?_eq_some_iff.mp hi
  have hperm : (message.data :: (s.tested.eraseIdx i).map (·.data)).Perm (s.tested.map (·.data)) := by
    have herase := (getElem_cons_eraseIdx_perm hlt).map (·.data)
    rwa [map_cons, hget] at herase
  have hflight : s.inFlight ≠ [] := by
    intro hnil
    have hmem := mem_map_of_mem (f := (·.data)) (mem_of_getElem? hi)
    rw [SharedState.inFlight, append_eq_nil_iff] at hnil
    simp [hnil.2] at hmem
  have hnone := h.notShut_of_inFlight hflight
  constructor
  · exact h.output.withFunctors _
  · refine List.Perm.trans (List.Perm.append_left ms ?_) h.passed
    simp only [SharedState.inFlight, queueInLoop, filterMap_append, append_assoc]
    exact List.Perm.append_left _ hperm
  · simpa [queueInLoop] using h.noClose
  · exact fun ⟨e, he, hs⟩ => absurd hs (by simp [hnone e he])

variable {io : WriteResult}

/-- `sendInLoop` with a message that leaves the flight: `flight` are the
messages still in flight behind it. -/
theorem OutputInv.shared_sendInLoop (h : OutputInv ⟨c, ms.flatten⟩)
    (hopen : ∀ e ∈ c.log, e.isShutdownWrite = false)
    (hclose : .forceCloseInLoop ∉ c.pendingFunctors) {tested : List CharRange}
    {passed : List (List UInt8)}
    (hpassed : (ms ++ message.data :: (c.pendingFunctors.filterMap Functor.message? ++
      tested.map (·.data))).Perm passed) (hio : io.reset = false) :
    Outcome (fun c' => SharedInv (ms ++ [message.data]) ⟨c', tested, passed⟩)
      (OutputTooLong (kInitialVector + passed.flatten.length))
      (c.sendInLoop message.data io) := by
  have hlen := hpassed.flatten.length_eq
  simp only [flatten_append, flatten_cons, length_append] at hlen
  refine (h.outcome_sendInLoop hopen message.length_le hio).mono (fun c' hc => ?_)
    fun f hf => hf.mono (by simp only; omega)
  obtain ⟨houtput, hcallbacks, hopen'⟩ := hc
  constructor
  · simpa using houtput
  · rw [SharedState.inFlight, hcallbacks.filterMap_message, append_assoc]
    exact hpassed
  · exact hcallbacks.noClose hclose
  · exact fun ⟨e, he, hs⟩ => absurd hs (by simp [hopen' e he])

/-- The loop runs the functor at the head of its queue. -/
theorem SharedInv.outcome_runFunctor (h : SharedInv ms s) {f : Functor} {fs : List Functor}
    (hqueue : s.conn.pendingFunctors = f :: fs) (hio : io.reset = false) :
    Outcome (fun c => ∃ ms', SharedInv ms' { s with conn := c })
      (OutputTooLong (kInitialVector + s.passed.flatten.length))
      ({ s.conn with pendingFunctors := fs }.runFunctor f io) := by
  have hclose : .forceCloseInLoop ∉ fs := by
    have hmem := h.noClose
    rw [hqueue] at hmem
    exact fun hfs => hmem (mem_cons_of_mem _ hfs)
  have hflight : s.inFlight = [f].filterMap Functor.message? ++
      (fs.filterMap Functor.message? ++ s.tested.map (·.data)) := by
    rw [SharedState.inFlight, hqueue, ← append_assoc, ← filterMap_append]
    rfl
  -- a callback of the user changes the log only
  have hcallback : ∀ e : Effect, e.isWrite = false → e.isShutdownWrite = false →
      [f].filterMap Functor.message? = [] →
      SharedInv ms { s with conn := emit { s.conn with pendingFunctors := fs } e } := by
    intro e hw hs hnil
    have hflight' : SharedState.inFlight
        { s with conn := emit { s.conn with pendingFunctors := fs } e } = s.inFlight := by
      rw [hflight, hnil]
      rfl
    constructor
    · exact (h.output.withFunctors fs).emit_callback hw hs
    · rw [hflight']
      exact h.passed
    · exact hclose
    · intro hshut
      obtain ⟨e', he', hs'⟩ := hshut
      rw [hflight']
      simp only [emit_log, mem_append, mem_singleton] at he'
      exact h.quiet ⟨e', he'.resolve_right fun heq => by simp [heq, hs] at hs', hs'⟩
  cases f with
  | sendInLoop message =>
    have hpassed := h.passed
    rw [hflight] at hpassed
    have hnone := h.notShut_of_inFlight (by simp [hflight, Functor.message?])
    exact ((h.output.withFunctors fs).shared_sendInLoop hnone hclose hpassed hio).mono
      (fun c hc => ⟨_, hc⟩) fun _ hf => hf
  | forceCloseInLoop => exact absurd (by simp [hqueue]) h.noClose
  | writeCompleteCallback => exact .ok ⟨ms, hcallback _ rfl rfl rfl⟩
  | highWaterMarkCallback len => exact .ok ⟨ms, hcallback _ rfl rfl rfl⟩

/-- `shutdown` on the loop thread, with nothing in flight when it half-closes
at once. -/
theorem SharedInv.shutdown (h : SharedInv ms s) (hquiet : s.Quiet .shutdown) :
    SharedInv ms { s with conn := s.conn.shutdown } := by
  have hqueue : s.conn.shutdown.pendingFunctors = s.conn.pendingFunctors := by
    simp only [TcpConnection.shutdown, shutdownInLoop]
    split
    · split <;> rfl
    · rfl
  have hflight : SharedState.inFlight { s with conn := s.conn.shutdown } = s.inFlight := by
    rw [SharedState.inFlight, hqueue]
    rfl
  constructor
  · exact h.output.of_shutdown
  · rw [hflight]
    exact h.passed
  · rw [hqueue]
    exact h.noClose
  · intro hshut
    rw [hflight]
    by_cases hconn : s.conn.state = .kConnected
    · by_cases hempty : s.conn.outputBuffer.content = []
      · exact hquiet ⟨hconn, hempty⟩
      · have hsteady : Steady true { s.conn with state := .kDisconnecting } :=
          h.output.steady.congr rfl rfl rfl
        rw [TcpConnection.shutdown, if_pos hconn, shutdownInLoop_of_buffered hsteady hempty] at hshut
        exact h.quiet hshut
    · rw [TcpConnection.shutdown, if_neg hconn] at hshut
      exact h.quiet hshut

/-- A `POLLOUT` event, with nothing in flight when it half-closes. -/
theorem SharedInv.of_drains (h : SharedInv ms s) (hquiet : s.Quiet (.handleWrite io))
    (hdrains : Drains true s.conn io c) : SharedInv ms { s with conn := c } := by
  have hflight : SharedState.inFlight { s with conn := c } = s.inFlight := by
    rw [SharedState.inFlight, hdrains.queue.filterMap_message]
    rfl
  constructor
  · exact h.output.of_drains hdrains
  · rw [hflight]
    exact h.passed
  · exact hdrains.queue.noClose h.noClose
  · intro hshut
    obtain ⟨ws, hlog, hshape, hstream⟩ := hdrains.log
    rw [hlog] at hshut
    rw [hflight]
    cases hshape with
    | idle _ => exact h.quiet (by simpa using hshut)
    | wrote hbuf _ =>
      have hnone := h.output.notShut (.inr hbuf)
      obtain ⟨e, he, hs⟩ := hshut
      simp only [mem_append, mem_singleton] at he
      cases he with
      | inl hold => exact absurd hs (by simp [hnone e hold])
      | inr hnew => simp [hnew, Effect.isShutdownWrite] at hs
    | halfClosed hbuf hempty hdisc =>
      -- the kernel took all that was buffered
      have hall : s.conn.outputBuffer.content.take
          (io.accepted s.conn.outputBuffer.content.length) = s.conn.outputBuffer.content := by
        simpa [hempty, acceptedBytes, Effect.acceptedBytes] using hstream
      have hle := accepted_le io s.conn.outputBuffer.content.length
      have hlen := congrArg List.length hall
      rw [length_take] at hlen
      exact hquiet ⟨hdisc, hbuf, by omega⟩

/-- **Step.** A quiet step of any thread keeps the invariant. -/
theorem step_shared (h : SharedInv ms s) {e : SharedEvent} (hio : e.NoReset) (hquiet : s.Quiet e) :
    Outcome (fun s' => (∃ ms', SharedInv ms' s') ∧
        kInitialVector + s'.passed.flatten.length ≤
          kInitialVector + s.passed.flatten.length + e.message.length)
      (OutputTooLong (kInitialVector + s.passed.flatten.length + e.message.length))
      (s.step e) := by
  cases e with
  | test message =>
    simp only [SharedState.step]
    by_cases hconn : s.conn.state = .kConnected
    · rw [if_pos hconn]
      exact .ok ⟨⟨ms, h.test message hconn⟩, by simp [SharedEvent.message]; omega⟩
    · rw [if_neg hconn]
      exact .ok ⟨⟨ms, h⟩, by omega⟩
  | enqueue i =>
    cases hi : s.tested[i]? with
    | some message =>
      simp only [SharedState.step, hi]
      exact .ok ⟨⟨ms, h.enqueue hi⟩, by simp⟩
    | none =>
      simp only [SharedState.step, hi]
      exact .ok ⟨⟨ms, h⟩, by omega⟩
  | runFunctor io =>
    simp only [SharedState.step]
    cases hqueue : s.conn.pendingFunctors with
    | nil => exact .ok ⟨⟨ms, h⟩, by omega⟩
    | cons f fs =>
      exact Outcome.bind (h.outcome_runFunctor hqueue hio) fun c hc => .ok ⟨hc, by simp⟩
  | send message io =>
    simp only [SharedState.step, send]
    by_cases hconn : s.conn.state = .kConnected
    · rw [if_pos hconn, if_pos hconn]
      have hpassed : (ms ++ message.data :: (s.conn.pendingFunctors.filterMap Functor.message? ++
          s.tested.map (·.data))).Perm (s.passed ++ [message.data]) := by
        exact perm_middle.trans
          ((List.Perm.cons _ h.passed).trans (perm_append_singleton _ _).symm)
      have hsend := h.output.shared_sendInLoop (h.output.notShut (.inl hconn)) h.noClose hpassed hio
      simp only [flatten_append, length_append, flatten_singleton] at hsend
      refine (hsend.mono (fun c hc => hc) fun f hf => hf.mono ?_).bind
        fun c hc => .ok ⟨⟨_, hc⟩, ?_⟩
      · simp only [SharedEvent.message]
        omega
      · simp [SharedEvent.message]
        omega
    · rw [if_neg hconn, if_neg hconn, append_nil]
      exact .ok ⟨⟨ms, h⟩, by simp⟩
  | shutdown => exact .ok ⟨⟨ms, h.shutdown hquiet⟩, by simp⟩
  | handleWrite io =>
    obtain ⟨c, hwrite, hdrains⟩ := handleWrite_spec h.output.steady io
    simp only [SharedState.step, hwrite]
    exact .ok ⟨⟨ms, h.of_drains hquiet hdrains⟩, by simp⟩

end

theorem SharedInv.of_established {loop : EventLoop} {addr : Nat}
    (h : Established loop addr c) : SharedInv [] ⟨c, [], []⟩ := by
  have hflight : SharedState.inFlight ⟨c, [], []⟩ = [] := by simp [SharedState.inFlight, h.queue]
  constructor
  · exact OutputInv.of_established h
  · simp [hflight]
  · simp [h.queue]
  · exact fun _ => hflight

/-- A message of another thread that is on the queue when `shutdown` is
called, behind a message that is still buffered. -/
def sendBehindBuffered : List SharedEvent :=
  [.send ⟨[1, 2], by decide⟩ (.wrote 1), .test ⟨[3], by decide⟩, .enqueue 0, .shutdown,
    .runFunctor (.wrote 1), .handleWrite (.wrote 2)]

/-- The same message with nothing buffered in front of it. -/
def sendThenShutdown : List SharedEvent :=
  [.test ⟨[3], by decide⟩, .enqueue 0, .shutdown, .runFunctor (.wrote 1)]

/-- A connection on descriptor 5 that was just established. -/
def freshConn : TcpConnection where
  state := .kConnected
  reading := true
  channel := ⟨1, 5, kReadEvent, .kAdded, true⟩
  inputBuffer := ⟨List.replicate kInitialVector 0, kCheapPrepend, kCheapPrepend⟩
  outputBuffer := ⟨List.replicate kInitialVector 0, kCheapPrepend, kCheapPrepend⟩
  highWaterMark := 64 * 1024 * 1024
  writeCompleteCallback := false
  highWaterMarkCallback := false
  loop := { idleLoop with
    poller := ⟨Function.update (fun _ => none) 5 (some 1),
      Function.update (fun _ => none) 5 (some kReadEvent), [(.add, 5)]⟩ }
  pendingFunctors := []
  log := [.connectionCallback .kConnected]

theorem establish_freshConn : establish idleLoop 1 5 ⟨false, none⟩ = .ok freshConn := by
  have hbuffer : Buffer.create kInitialSize =
      .ok ⟨List.replicate kInitialVector 0, kCheapPrepend, kCheapPrepend⟩ := by decide +kernel
  rw [establish, create, hbuffer]
  rfl

theorem quiet_sendBehindBuffered : Meets SharedState.step (fun s e => e.NoReset ∧ s.Quiet e)
    ⟨freshConn, [], []⟩ sendBehindBuffered := by
  decide +kernel

end Muduo.TcpConnection
