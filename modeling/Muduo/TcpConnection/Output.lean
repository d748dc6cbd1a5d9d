import Muduo.TcpConnection.Spec

/-!
# Muduo.TcpConnection.Output

The output of a connection is the byte stream that its user sent.

A run is any sequence of `send`, `shutdown` and `handleWrite` on the loop
thread, with an arbitrary answer of the kernel to each `write(2)`.
`OutputState.sent` is the history of the run: the messages passed to `send`
while the connection was connected, in call order.
-/

namespace Muduo.TcpConnection

open Lib Buffer List

/-- The calls and events that work on the output. -/
inductive OutputEvent
  | send (message : CharRange) (io : WriteResult)
  | sendBuffer (buf : { b : Buffer // b.WF }) (io : WriteResult)
  | shutdown
  | handleWrite (io : WriteResult)

namespace OutputEvent

/-- The bytes passed to `send`. -/
def message : OutputEvent → List UInt8
  | .send message _ => message.data
  | .sendBuffer buf _ => buf.1.content
  | .shutdown | .handleWrite _ => []

/-- The event makes no `write(2)` that fails with `EPIPE` or `ECONNRESET`. -/
def NoReset : OutputEvent → Prop
  | .send _ io | .sendBuffer _ io | .handleWrite io => io.reset = false
  | .shutdown => True

instance : DecidablePred NoReset
  | .send _ _ | .sendBuffer _ _ | .handleWrite _ => inferInstanceAs (Decidable (_ = false))
  | .shutdown => inferInstanceAs (Decidable True)

end OutputEvent

/-- A connection with the messages that were passed to `send` while it was
connected. -/
structure OutputState where
  conn : TcpConnection
  sent : List UInt8

namespace OutputState

/-- One call or event on the loop thread. -/
def exec (c : TcpConnection) : OutputEvent → Except Fault TcpConnection
  | .send message io => c.send message io
  | .sendBuffer buf io => do
    let (c, _) ← c.sendBuffer buf.1 io
    return c
  | .shutdown => .ok c.shutdown
  | .handleWrite io => c.handleWrite io

/-- The same, with the history. -/
def step (s : OutputState) (e : OutputEvent) : Except Fault OutputState := do
  let c ← exec s.conn e
  return ⟨c, s.sent ++ if s.conn.state = .kConnected then e.message else []⟩

end OutputState

/-- No `write(2)` is attempted after `shutdownWrite()`. -/
def NoWriteAfterShutdown (log : List Effect) : Prop :=
  log.Pairwise fun e e' => e.isShutdownWrite = true → e'.isWrite = false

/-! ## the invariant -/

/-- The connection is still open, and half-closed at most when it is
shutting down and nothing is buffered. -/
structure OutputInv (s : OutputState) : Prop where
  steady : s.conn.Steady true
  state : s.conn.state = .kConnected ∨ s.conn.state = .kDisconnecting
  stream : acceptedBytes s.conn.log ++ s.conn.outputBuffer.content = s.sent
  emptyShutdown : ∀ n, .shutdownWrite n ∈ s.conn.log → n = 0
  ordered : NoWriteAfterShutdown s.conn.log
  halfClosed : (∃ e ∈ s.conn.log, e.isShutdownWrite = true) →
    s.conn.state = .kDisconnecting ∧ s.conn.outputBuffer.content = []
  size : s.conn.outputBuffer.buffer.length ≤ kInitialVector + s.sent.length

theorem noWriteAfterShutdown_of_none {log : List Effect}
    (h : ∀ e ∈ log, e.isShutdownWrite = false) : NoWriteAfterShutdown log :=
  pairwise_of_forall_mem_list fun e he _ _ hs => absurd hs (by simp [h e he])

theorem NoWriteAfterShutdown.snoc {log : List Effect} (h : NoWriteAfterShutdown log) (n : Nat) :
    NoWriteAfterShutdown (log ++ [.shutdownWrite n]) :=
  pairwise_append.mpr ⟨h, pairwise_singleton _ _, fun _ _ e' he' _ => by
    rw [mem_singleton.mp he']
    rfl⟩

theorem isShutdownWrite_of_isWrite {e : Effect} (h : e.isWrite = true) :
    e.isShutdownWrite = false := by
  cases e <;> simp_all [Effect.isWrite, Effect.isShutdownWrite]

variable {data : List UInt8} {io : WriteResult}

theorem Sends.notShut {reading : Bool} {c c' : TcpConnection} (h : Sends reading c data io c')
    (hopen : ∀ e ∈ c.log, e.isShutdownWrite = false) : ∀ e ∈ c'.log, e.isShutdownWrite = false := by
  obtain ⟨ws, hlog, hws, -⟩ := h.log
  intro e he
  rw [hlog, mem_append] at he
  exact he.elim (hopen e) fun hw => isShutdownWrite_of_isWrite (hws e hw)

section
variable {s : OutputState} {c : TcpConnection}

/-- Before the half-close of a connection that is connected or has output
buffered. -/
theorem OutputInv.notShut (h : OutputInv s)
    (hopen : s.conn.state = .kConnected ∨ s.conn.outputBuffer.content ≠ []) :
    ∀ e ∈ s.conn.log, e.isShutdownWrite = false := by
  intro e he
  by_contra hs
  obtain ⟨hstate, hempty⟩ := h.halfClosed ⟨e, he, by simpa using hs⟩
  cases hopen with
  | inl hconn => rw [hconn] at hstate; contradiction
  | inr hbuf => exact hbuf hempty

theorem OutputInv.of_writes (h : OutputInv s) {ws : List Effect} (data : List UInt8)
    (hopen : ∀ e ∈ s.conn.log, e.isShutdownWrite = false) (hsteady : c.Steady true)
    (hstate : c.state = s.conn.state) (hlog : c.log = s.conn.log ++ ws)
    (hws : ∀ e ∈ ws, e.isWrite = true)
    (hstream : acceptedBytes ws ++ c.outputBuffer.content = s.conn.outputBuffer.content ++ data)
    (hsize : c.outputBuffer.buffer.length ≤ s.conn.outputBuffer.buffer.length + data.length) :
    OutputInv ⟨c, s.sent ++ data⟩ := by
  have hnone : ∀ e ∈ c.log, e.isShutdownWrite = false := by
    intro e he
    rw [hlog, mem_append] at he
    exact he.elim (hopen e) fun hw => isShutdownWrite_of_isWrite (hws e hw)
  refine ⟨hsteady, by simpa [hstate] using h.state, ?_, ?_, noWriteAfterShutdown_of_none hnone,
    ?_, ?_⟩
  · rw [hlog, acceptedBytes_append, append_assoc, hstream, ← append_assoc, h.stream]
  · exact fun n hn => absurd (hnone _ hn) (by simp [Effect.isShutdownWrite])
  · rintro ⟨e, he, hs⟩
    exact absurd (hnone e he) (by simp [hs])
  · have := h.size
    simp only [length_append]
    omega

theorem OutputInv.of_sends (h : OutputInv s) (hopen : ∀ e ∈ s.conn.log, e.isShutdownWrite = false)
    (hio : io.reset = false)
    (hsends : Sends true s.conn data io c) : OutputInv ⟨c, s.sent ++ data⟩ := by
  obtain ⟨ws, hlog, hws, hstream⟩ := hsends.log
  exact h.of_writes data hopen hsends.steady (state_eq_of_rest hsends.rest) hlog hws
    (hstream hio) hsends.growth

/-- The half-close of a connection that is shutting down with nothing
buffered. -/
theorem OutputInv.of_halfClose (h : OutputInv s) (hstate : s.conn.state = .kDisconnecting)
    (hempty : s.conn.outputBuffer.content = []) :
    OutputInv ⟨s.conn.emit (.shutdownWrite 0), s.sent⟩ := by
  refine ⟨h.steady.congr rfl rfl rfl, .inr hstate, ?_, ?_, h.ordered.snoc 0,
    fun _ => ⟨hstate, hempty⟩, h.size⟩
  · simpa [acceptedBytes, Effect.acceptedBytes] using h.stream
  · intro n hn
    rw [emit_log, mem_append] at hn
    cases hn with
    | inl hold => exact h.emptyShutdown n hold
    | inr hnew => simpa using hnew

/-- `handleWrite` moves bytes from the buffer to the kernel, and half-closes
when it was asked to. -/
theorem OutputInv.of_drains (h : OutputInv s) (hdrains : Drains true s.conn io c) :
    OutputInv ⟨c, s.sent⟩ := by
  obtain ⟨ws, hlog, hshape, hstream⟩ := hdrains.log
  have hstate := state_eq_of_rest hdrains.rest
  have hsize := hdrains.size
  cases hshape with
  | idle hempty =>
    have hempty' : c.outputBuffer.content = [] := by simpa [hempty] using hstream
    rw [append_nil] at hlog
    refine ⟨hdrains.steady, by simpa [hstate] using h.state, ?_, ?_, ?_, ?_, ?_⟩
    · simpa [hlog, hempty, hempty'] using h.stream
    · simpa [hlog] using h.emptyShutdown
    · simpa [hlog] using h.ordered
    · exact fun hs => ⟨by simpa [hstate] using (h.halfClosed (by simpa [hlog] using hs)).1, hempty'⟩
    · simpa [hsize] using h.size
  | wrote hbuf _ =>
    have hinv := h.of_writes [] (h.notShut (.inr hbuf)) hdrains.steady hstate hlog
      (by simp [Effect.isWrite]) (by simpa using hstream) (by simp [hsize])
    simpa using hinv
  | halfClosed hbuf hempty hdisc =>
    -- the state between the write and the half-close
    obtain ⟨n, hn⟩ : ∃ n, n = io.accepted s.conn.outputBuffer.content.length := ⟨_, rfl⟩
    rw [← hn] at hlog hstream
    have hmid := h.of_writes []
      (c := { c with log := s.conn.log ++ [.write s.conn.outputBuffer.content n] })
      (h.notShut (.inr hbuf)) (hdrains.steady.congr rfl rfl rfl) hstate rfl
      (by simp [Effect.isWrite]) (by simpa [acceptedBytes, Effect.acceptedBytes] using hstream) (by simp [hsize])
    have hend := hmid.of_halfClose (hstate.trans hdisc) hempty
    have hc : emit { c with log := s.conn.log ++ [.write s.conn.outputBuffer.content n] }
        (.shutdownWrite 0) = c := by
      simp [emit, ← hlog]
    simpa [hc] using hend

/-- `shutdown` half-closes at once when nothing is buffered. -/
theorem OutputInv.of_shutdown (h : OutputInv s) : OutputInv ⟨s.conn.shutdown, s.sent⟩ := by
  unfold shutdown
  by_cases hconn : s.conn.state = .kConnected
  · rw [if_pos hconn]
    have hnone := h.notShut (.inl hconn)
    have hmid : OutputInv ⟨{ s.conn with state := .kDisconnecting }, s.sent⟩ :=
      ⟨h.steady.congr rfl rfl rfl, .inr rfl, h.stream, h.emptyShutdown, h.ordered,
        fun ⟨e, he, hs⟩ => absurd hs (by simp [hnone e he]), h.size⟩
    by_cases hempty : s.conn.outputBuffer.content = []
    · rw [shutdownInLoop_of_empty hmid.steady hempty]
      exact hmid.of_halfClose rfl hempty
    · rw [shutdownInLoop_of_buffered hmid.steady hempty]
      exact hmid
  · rw [if_neg hconn]
    exact h

end

theorem OutputInv.outcome_sendInLoop {s : OutputState} (h : OutputInv s)
    (hopen : ∀ e ∈ s.conn.log, e.isShutdownWrite = false) (hlen : data.length ≤ maxSize)
    (hio : io.reset = false) :
    Outcome (fun c => OutputInv ⟨c, s.sent ++ data⟩ ∧ QueuesCallbacks s.conn c ∧
        ∀ e ∈ c.log, e.isShutdownWrite = false)
      (OutputTooLong (kInitialVector + s.sent.length + data.length))
      (s.conn.sendInLoop data io) := by
  have hsize := h.size
  have hstate := ne_kDisconnected h.state
  exact (TcpConnection.outcome_sendInLoop h.steady hstate hlen).mono
    (fun c hc => ⟨h.of_sends hopen hio hc, hc.queue, hc.notShut hopen⟩)
    fun f hf => hf.mono (by omega)

theorem outcome_exec {s : OutputState} (h : OutputInv s) {e : OutputEvent} (he : e.NoReset) :
    Outcome (fun c => OutputInv ⟨c, s.sent ++
        if s.conn.state = .kConnected then e.message else []⟩)
      (OutputTooLong (kInitialVector + s.sent.length + e.message.length))
      (OutputState.exec s.conn e) := by
  cases e with
  | send message io =>
    simp only [OutputState.exec, send]
    by_cases hconn : s.conn.state = .kConnected
    · rw [if_pos hconn, if_pos hconn]
      exact (h.outcome_sendInLoop (h.notShut (.inl hconn)) message.length_le he).mono
        (fun c hc => hc.1) fun f hf => hf
    · rw [if_neg hconn, if_neg hconn, append_nil]
      exact .ok h
  | sendBuffer buf io =>
    simp only [OutputState.exec, sendBuffer]
    by_cases hconn : s.conn.state = .kConnected
    · rw [if_pos hconn, if_pos hconn, buf.2.chars_readable]
      refine Outcome.bind (P := fun r => OutputInv ⟨r.1, s.sent ++ buf.1.content⟩) ?_
        fun r hr => .ok hr
      exact (h.outcome_sendInLoop (h.notShut (.inl hconn)) buf.2.length_content_le he).bind
        fun c hc => .ok hc.1
    · rw [if_neg hconn, if_neg hconn, append_nil]
      exact .ok h
  | shutdown =>
    have hinv := h.of_shutdown
    simpa [OutputState.exec, OutputEvent.message] using hinv
  | handleWrite io =>
    obtain ⟨c, hwrite, hdrains⟩ := handleWrite_spec h.steady io
    have hinv := h.of_drains hdrains
    simpa [OutputState.exec, OutputEvent.message, hwrite] using hinv

/-- **Step.** Every call and event keeps the invariant; only a message too
long for the memory of the machine fails. -/
theorem step_output {s : OutputState} (h : OutputInv s) {e : OutputEvent} (he : e.NoReset) :
    Outcome (fun s' => OutputInv s' ∧ kInitialVector + s'.sent.length ≤
        kInitialVector + s.sent.length + e.message.length)
      (OutputTooLong (kInitialVector + s.sent.length + e.message.length)) (s.step e) := by
  refine (outcome_exec h he).bind fun c hc => .ok ⟨hc, ?_⟩
  simp only [length_append]
  split
  · omega
  · simp only [length_nil]
    omega

theorem OutputInv.of_established {loop : EventLoop} {addr : Nat} {c : TcpConnection}
    (h : Established loop addr c) : OutputInv ⟨c, []⟩ := by
  obtain ⟨b, -, hrest⟩ := h.rest
  have hstate : c.state = .kConnected := congrArg Rest.state hrest
  have hnone : ∀ e ∈ c.log, e.isShutdownWrite = false := by simp [h.log, Effect.isShutdownWrite]
  refine ⟨h.steady, .inl hstate, ?_, ?_, noWriteAfterShutdown_of_none hnone, ?_, ?_⟩
  · simp [h.log, h.empty, acceptedBytes, Effect.acceptedBytes]
  · simp [h.log]
  · simp [h.log, Effect.isShutdownWrite]
  · simp [h.size]

/-- **Output fidelity.** Over every run of an established connection, with
any answers of the kernel other than `EPIPE` and `ECONNRESET`:

* the bytes the kernel accepted, followed by the readable bytes of
  `outputBuffer_`, are the messages passed to `send` while the connection was
  connected;
* the channel is writing exactly while `outputBuffer_` is not empty;
* `shutdownWrite` is called with `outputBuffer_` empty, and no `write(2)`
  follows it.

The run only fails when it sends more than the memory of the machine. -/
theorem output_is_stream_sent {loop : EventLoop} {fd : Nat} (hfd : Unused loop fd) (addr : Nat)
    (cb : Callbacks) {es : List OutputEvent} (hes : ∀ e ∈ es, e.NoReset) :
    Outcome (fun s : OutputState =>
        acceptedBytes s.conn.log ++ s.conn.outputBuffer.content = s.sent ∧
        (s.conn.channel.isWriting = true ↔ s.conn.outputBuffer.content ≠ []) ∧
        (∀ n, .shutdownWrite n ∈ s.conn.log → n = 0) ∧
        NoWriteAfterShutdown s.conn.log)
      (OutputTooLong (kInitialVector + (es.map (·.message.length)).sum))
      (establish loop addr fd cb >>= fun c => run OutputState.step ⟨c, []⟩ es) := by
  obtain ⟨c, hc, hnew⟩ := establish_spec hfd addr cb
  have hrun := Outcome.run_cost (P := OutputInv) (E := OutputTooLong)
    (fun s : OutputState => kInitialVector + s.sent.length)
    (fun e : OutputEvent => e.message.length) OutputTooLong.mono
    (fun s e hs he => step_output hs he) (OutputInv.of_established hnew) (meets_of_forall _ hes)
  rw [hc]
  refine hrun.mono (fun s hs => ⟨hs.stream, ?_, hs.emptyShutdown, hs.ordered⟩) fun f hf => hf
  rw [hs.steady.isWriting, decide_eq_true_iff]

/-- A partial write, a shutdown with output buffered, and two drains. -/
def partialWrite : List OutputEvent :=
  [.send ⟨[1, 2, 3], by decide⟩ (.wrote 1), .shutdown, .send ⟨[4], by decide⟩ (.wrote 1),
    .handleWrite (.failed .EWOULDBLOCK), .handleWrite (.wrote 2)]

/-- A loop without channels. -/
def idleLoop : EventLoop := ⟨⟨fun _ => none, fun _ => none, []⟩, false, [], none⟩

theorem unused_idleLoop : Unused idleLoop 5 := ⟨rfl, rfl⟩

theorem noReset_partialWrite : ∀ e ∈ partialWrite, e.NoReset := by decide

theorem output_is_stream_sent_partialWrite :
    ∃ s, (establish idleLoop 1 5 ⟨true, none⟩ >>= fun c =>
        run OutputState.step ⟨c, []⟩ partialWrite) = .ok s ∧
      acceptedBytes s.conn.log ++ s.conn.outputBuffer.content = s.sent := by
  obtain ⟨s, hs, hstream, -⟩ := (output_is_stream_sent unused_idleLoop 1 ⟨true, none⟩
    noReset_partialWrite).exists_ok
    fun e he => absurd he.2 (by decide)
  exact ⟨s, hs, hstream⟩

end Muduo.TcpConnection
