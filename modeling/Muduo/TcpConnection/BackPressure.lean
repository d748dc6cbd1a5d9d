import Mathlib.Data.List.Chain
import Muduo.TcpConnection.Closed

/-!
# Muduo.TcpConnection.BackPressure

The notifications about the backlog of a connection: `highWaterMarkCallback_`
and `writeCompleteCallback_`.

Both are queued by `sendInLoop` and `handleWrite`, on comparisons of what was
buffered before, what the kernel took and the mark.  A run here is any
sequence of calls on the loop thread, of messages put on the queue by other
threads, of queued functors and of events of the socket.  Each step leaves a
`Transition` behind: what it was, the unsent bytes before and after it, and
the functors it queued.
-/

namespace Muduo.TcpConnection

open Lib Buffer List

/-! ## transitions -/

/-- What a step did to the output. -/
inductive Cause
  | sendInLoop (data : List UInt8) (io : WriteResult)
  | handleWrite (io : WriteResult)
  | other
deriving DecidableEq

namespace Cause

/-- The bytes that a step adds to the output. -/
def offered : Cause → Nat
  | .sendInLoop data _ => data.length
  | .handleWrite _ | .other => 0

/-- The bytes that the kernel takes in a step, with `unsent` bytes buffered
before it. -/
def written (unsent : Nat) : Cause → Nat
  | .sendInLoop data io => if unsent = 0 then io.accepted data.length else 0
  | .handleWrite io => io.accepted unsent
  | .other => 0

def isSend : Cause → Bool
  | .sendInLoop _ _ => true
  | .handleWrite _ | .other => false

def isDrain : Cause → Bool
  | .handleWrite _ => true
  | .sendInLoop _ _ | .other => false

end Cause

/-- One step: `before` and `after` are the numbers of unsent bytes. -/
structure Transition where
  cause : Cause
  before : Nat
  after : Nat
  queued : List Functor
deriving DecidableEq

def Functor.isHighWaterMark : Functor → Bool
  | .highWaterMarkCallback _ => true
  | .sendInLoop _ | .forceCloseInLoop | .writeCompleteCallback => false

def Functor.isWriteComplete : Functor → Bool
  | .writeCompleteCallback => true
  | .sendInLoop _ | .forceCloseInLoop | .highWaterMarkCallback _ => false

namespace Transition

/-- A message met an empty output buffer, and `write(2)` took all of it. -/
def WrittenDirectly (t : Transition) : Prop :=
  t.before = 0 ∧ match t.cause with
    | .sendInLoop data io => io.returned = true ∧ io.accepted data.length = data.length
    | .handleWrite _ | .other => False

/-- `handleWrite` drained the output buffer. -/
def Drained (t : Transition) : Prop := t.cause.isDrain = true ∧ t.before ≠ 0 ∧ t.after = 0

/-- `sendInLoop` took the unsent bytes from below the mark to the mark or
above it. -/
def Reaches (m : Nat) (t : Transition) : Prop := t.cause.isSend = true ∧ t.before < m ∧ m ≤ t.after

instance : DecidablePred WrittenDirectly
  | ⟨.sendInLoop _ _, _, _, _⟩ => inferInstanceAs (Decidable (_ ∧ _ ∧ _))
  | ⟨.handleWrite _, _, _, _⟩ | ⟨.other, _, _, _⟩ => inferInstanceAs (Decidable (_ ∧ False))

instance (t : Transition) : Decidable t.Drained := inferInstanceAs (Decidable (_ ∧ _))

instance (m : Nat) (t : Transition) : Decidable (t.Reaches m) := inferInstanceAs (Decidable (_ ∧ _))

/-- The notifications of a step are those that its unsent bytes call for. -/
structure Exact (m : Nat) (t : Transition) : Prop where
  unsent : t.after = t.before + t.cause.offered - t.cause.written t.before
  highWaterMark : t.queued.filter Functor.isHighWaterMark =
    if t.Reaches m then [.highWaterMarkCallback t.after] else []
  writeComplete : t.queued.filter Functor.isWriteComplete =
    if t.WrittenDirectly ∨ t.Drained then [.writeCompleteCallback] else []
  allSent : .writeCompleteCallback ∈ t.queued → t.after = 0

/-- The step queued a `highWaterMarkCallback_`. -/
def NotifiesMark (t : Transition) : Prop := ∃ f ∈ t.queued, f.isHighWaterMark = true

end Transition

/-- Each step starts with the unsent bytes that the step before it left. -/
def Chained (record : List Transition) : Prop := record.IsChain fun t u => t.after = u.before

/-- Between two notifications of the mark, `handleWrite` took the unsent bytes
below the mark; where it left none, `writeCompleteCallback_` was queued. -/
def Separated (m : Nat) (record : List Transition) : Prop :=
  ∀ pre t mid u post, record = pre ++ t :: (mid ++ u :: post) → t.NotifiesMark → u.NotifiesMark →
    ∃ w ∈ mid, w.cause.isDrain = true ∧ m ≤ w.before ∧ w.after < m ∧
      (0 < w.after ∨ .writeCompleteCallback ∈ w.queued)

/-- What happens to an open connection. -/
inductive FlowEvent
  /-- A call or a `POLLOUT` event on the loop thread. -/
  | output (e : OutputEvent)
  /-- Another thread, in `send`, puts `sendInLoop` on the queue. -/
  | enqueue (message : CharRange)
  /-- The loop runs the functor at the head of its queue. -/
  | runFunctor (io : WriteResult)
  | startRead
  | stopRead
  | read (io : ReadvResult)

/-- What a functor does to the output when it runs. -/
def Functor.cause (io : WriteResult) : Functor → Cause
  | .sendInLoop message => .sendInLoop message.data io
  | .forceCloseInLoop | .writeCompleteCallback | .highWaterMarkCallback _ => .other

namespace FlowEvent

/-- No `write(2)` of the step fails with `EPIPE` or `ECONNRESET`. -/
def NoReset : FlowEvent → Prop
  | .output e => e.NoReset
  | .runFunctor io => io.reset = false
  | .enqueue _ | .startRead | .stopRead | .read _ => True

instance : DecidablePred NoReset
  | .output e => inferInstanceAs (Decidable e.NoReset)
  | .runFunctor _ => inferInstanceAs (Decidable (_ = false))
  | .enqueue _ | .startRead | .stopRead | .read _ => inferInstanceAs (Decidable True)

/-- What the step does to the output of `c`. -/
def cause (c : TcpConnection) : FlowEvent → Cause
  | .output (.send message io) =>
    if c.state = .kConnected then .sendInLoop message.data io else .other
  | .output (.sendBuffer buf io) =>
    if c.state = .kConnected then .sendInLoop buf.1.content io else .other
  | .output (.handleWrite io) => .handleWrite io
  | .runFunctor io => match c.pendingFunctors with
      | [] => .other
      | f :: _ => f.cause io
  | .output .shutdown | .enqueue _ | .startRead | .stopRead | .read _ => .other

/-- The functors of `c` that are still on the queue after the step. -/
def kept (c : TcpConnection) : FlowEvent → List Functor
  | .runFunctor _ => c.pendingFunctors.tail
  | .output _ | .enqueue _ | .startRead | .stopRead | .read _ => c.pendingFunctors

/-- One step on the connection. -/
def exec (c : TcpConnection) : FlowEvent → Except Fault TcpConnection
  | .output e => OutputState.exec c e
  | .enqueue message => .ok (c.queueInLoop (.sendInLoop message))
  | .runFunctor io => match c.pendingFunctors with
      | [] => .ok c
      | f :: fs => { c with pendingFunctors := fs }.runFunctor f io
  | .startRead => c.startReadInLoop
  | .stopRead => c.stopReadInLoop
  | .read io => c.openStep (.read io)

/-- The transition from `c` to `c'`. -/
def transition (c : TcpConnection) (e : FlowEvent) (c' : TcpConnection) : Transition where
  cause := e.cause c
  before := c.outputBuffer.readableBytes
  after := c'.outputBuffer.readableBytes
  queued := c'.pendingFunctors.drop (e.kept c).length

end FlowEvent

/-- A connection with the transitions of its run. -/
structure FlowState where
  conn : TcpConnection
  record : List Transition

def FlowState.step (s : FlowState) (e : FlowEvent) : Except Fault FlowState := do
  let c ← e.exec s.conn
  return ⟨c, s.record ++ [e.transition s.conn c]⟩

/-! ## what the two functions queue -/

/-- The mark and whether the callbacks are set. -/
structure Settings where
  highWaterMark : Nat
  writeCompleteCallback : Bool
  highWaterMarkCallback : Bool

def settings (c : TcpConnection) : Settings :=
  ⟨c.highWaterMark, c.writeCompleteCallback, c.highWaterMarkCallback⟩

/-- `c'` is `c` with the functors `fs` queued, the settings untouched. -/
structure Queues (c : TcpConnection) (fs : List Functor) (c' : TcpConnection) : Prop where
  settings : c'.settings = c.settings
  pendingFunctors : c'.pendingFunctors = c.pendingFunctors ++ fs

variable {e : FlowEvent} {t : Transition}

section
variable {c c' c'' : TcpConnection} {fs fs' : List Functor}

theorem Queues.refl (c : TcpConnection) : Queues c [] c := ⟨rfl, (append_nil _).symm⟩

theorem Queues.trans (h : Queues c fs c') (h' : Queues c' fs' c'') : Queues c (fs ++ fs') c'' := by
  constructor
  · rw [h'.settings, h.settings]
  · rw [h'.pendingFunctors, h.pendingFunctors, append_assoc]

theorem queues_queueIf (c : TcpConnection) (b : Bool) (f : Functor) :
    Queues c (queued b f) (c.queueIf b f) := by
  rw [queueIf_eq]
  exact ⟨rfl, rfl⟩

theorem Queues.of_eq (hsettings : c'.settings = c.settings)
    (hqueue : c'.pendingFunctors = c.pendingFunctors) : Queues c [] c' :=
  ⟨hsettings, by rw [hqueue, append_nil]⟩

theorem outcome_onChannel_queues (c : TcpConnection)
    (op : Channel → EventLoop → Except Channel.Fault (EventLoop × Channel)) :
    Outcome (fun c' => Queues c [] c' ∧ c'.outputBuffer = c.outputBuffer) (fun _ => True)
      (c.onChannel op) := by
  rw [onChannel]
  cases op c.channel c.loop with
  | error f => exact .error trivial
  | ok r => exact .ok ⟨.of_eq rfl rfl, rfl⟩

theorem outcome_onOutputBuffer_queues (c : TcpConnection) (op : Buffer → Except Buffer.Fault Buffer) :
    Outcome (Queues c []) (fun _ => True) (c.onOutputBuffer op) := by
  rw [onOutputBuffer]
  cases op c.outputBuffer with
  | error f => exact .error trivial
  | ok b => exact .ok (.of_eq rfl rfl)

/-- `bufferRest` queues the notification of the mark. -/
theorem outcome_bufferRest_queues (c : TcpConnection) (rest : List UInt8) :
    Outcome (Queues c (queued (c.crossesHighWaterMark c.outputBuffer.readableBytes rest.length)
        (.highWaterMarkCallback (addSize c.outputBuffer.readableBytes rest.length))))
      (fun _ => True) (c.bufferRest rest) := by
  have hmark := queues_queueIf c (c.crossesHighWaterMark c.outputBuffer.readableBytes rest.length)
    (.highWaterMarkCallback (addSize c.outputBuffer.readableBytes rest.length))
  rw [bufferRest]
  refine (outcome_onOutputBuffer_queues _ _).bind fun d hd => ?_
  have hbuffered := hmark.trans hd
  rw [append_nil] at hbuffered
  split
  · refine (outcome_onChannel_queues d _).mono (fun c' hc => ?_) fun _ _ => trivial
    simpa using hbuffered.trans hc.1
  · exact .ok hbuffered

/-- The rest of `handleWrite` queues the notification of an empty buffer. -/
theorem outcome_drained_queues (c : TcpConnection) :
    Outcome (fun c' => Queues c (queued c.writeCompleteCallback .writeCompleteCallback) c' ∧
        c'.outputBuffer = c.outputBuffer) (fun _ => True) c.drained := by
  rw [drained]
  refine (outcome_onChannel_queues c _).bind fun d hd => .ok ?_
  obtain ⟨hqueues, hout⟩ := hd
  have hflag : d.writeCompleteCallback = c.writeCompleteCallback :=
    congrArg Settings.writeCompleteCallback hqueues.settings
  have hnotice := hqueues.trans (queues_queueIf d d.writeCompleteCallback .writeCompleteCallback)
  rw [hflag, nil_append] at hnotice
  have hout' : (d.queueIf c.writeCompleteCallback .writeCompleteCallback).outputBuffer =
      c.outputBuffer := (queueIf_outputBuffer ..).trans hout
  rw [hflag]
  split
  · rw [shutdownInLoop]
    split
    · exact ⟨⟨hnotice.settings, hnotice.pendingFunctors⟩, hout'⟩
    · exact ⟨hnotice, hout'⟩
  · exact ⟨hnotice, hout'⟩

/-! ## `sendInLoop` and `handleWrite` are exact -/

/-- The notification of the mark, when the unsent bytes go from `before` to
`after`. -/
def markNotice (m before after : Nat) : List Functor :=
  if before < m ∧ m ≤ after then [.highWaterMarkCallback after] else []

theorem exact_send {m : Nat} (hsend : t.cause.isSend = true)
    (hunsent : t.after = t.before + t.cause.offered - t.cause.written t.before)
    (hqueued : t.queued = queued (decide t.WrittenDirectly) .writeCompleteCallback ++
      markNotice m t.before t.after) (hdirect : t.WrittenDirectly → t.after = 0) : t.Exact m := by
  have hdrained : ¬ t.Drained := by
    rintro ⟨hdrain, -⟩
    cases hcause : t.cause <;> simp_all [Cause.isSend, Cause.isDrain]
  have hreaches : t.Reaches m ↔ t.before < m ∧ m ≤ t.after := by simp [Transition.Reaches, hsend]
  constructor
  · exact hunsent
  · rw [hqueued, filter_append, markNotice]
    simp only [hreaches]
    by_cases hd : t.WrittenDirectly <;> split <;> simp [queued, hd, Functor.isHighWaterMark]
  · rw [hqueued, filter_append, markNotice]
    by_cases hd : t.WrittenDirectly <;> split <;>
      simp [queued, hd, hdrained, Functor.isWriteComplete]
  · intro hmem
    refine hdirect ?_
    by_contra hd
    rw [hqueued, markNotice] at hmem
    split at hmem <;> simp [queued, hd] at hmem

variable {reading : Bool} {data : List UInt8} {io : WriteResult} {m : Nat}

/-- `bufferRest` notifies of the mark that the backlog reaches. -/
theorem outcome_bufferRest_marks (h : c.Steady reading) {rest : List UInt8} (hrest : rest ≠ [])
    (hlen : rest.length ≤ maxSize) (hset : c.settings = ⟨m, true, true⟩) :
    Outcome (fun c' => c'.outputBuffer.readableBytes = c.outputBuffer.readableBytes + rest.length ∧
        Queues c (markNotice m c.outputBuffer.readableBytes c'.outputBuffer.readableBytes) c')
      (fun _ => True) (c.bufferRest rest) := by
  refine ((outcome_bufferRest h hrest hlen).and (outcome_bufferRest_queues c rest)).mono ?_
    fun _ _ => trivial
  rintro c' ⟨⟨hsteady, -, -, -, hcontent, -⟩, hqueues⟩
  have hreadable : c'.outputBuffer.readableBytes =
      c.outputBuffer.readableBytes + rest.length := by
    rw [hsteady.wf.readableBytes_eq_length, hcontent, length_append,
      h.wf.readableBytes_eq_length]
  -- the buffer was appended to, so the sum is the length of a vector
  have hadd : addSize c.outputBuffer.readableBytes rest.length =
      c'.outputBuffer.readableBytes := by
    have hmax := hsteady.wf.length_content_le
    rw [← hsteady.wf.readableBytes_eq_length, hreadable] at hmax
    rw [hreadable]
    exact addSize_of_lt (Nat.lt_of_le_of_lt hmax (by decide))
  have hmark : c.highWaterMark = m := congrArg Settings.highWaterMark hset
  have hcallback : c.highWaterMarkCallback = true := congrArg Settings.highWaterMarkCallback hset
  refine ⟨hreadable, ?_⟩
  rw [crossesHighWaterMark, hadd, hmark, hcallback] at hqueues
  simpa [queued, markNotice, and_comm] using hqueues

/-- The connection `c'` follows `c` by an exact transition with that cause. -/
def Follows (m : Nat) (cause : Cause) (c c' : TcpConnection) : Prop :=
  ∃ fs, Queues c fs c' ∧ Transition.Exact m
    ⟨cause, c.outputBuffer.readableBytes, c'.outputBuffer.readableBytes, fs⟩

theorem follows_sendInLoop_of_buffered (h : c.Steady reading) (hbuf : c.outputBuffer.content ≠ [])
    (hstate : c.state ≠ .kDisconnected) (hlen : data.length ≤ maxSize)
    (hset : c.settings = ⟨m, true, true⟩) :
    Outcome (Follows m (.sendInLoop data io) c) (fun _ => True) (c.sendInLoop data io) := by
  have hmax : maxSize < 2 ^ 64 := by decide
  have hbefore : c.outputBuffer.readableBytes ≠ 0 := fun hz => hbuf (h.readableBytes_eq_zero.mp hz)
  have hexact : ∀ after, after = c.outputBuffer.readableBytes + data.length →
      Transition.Exact m ⟨.sendInLoop data io, c.outputBuffer.readableBytes, after,
        markNotice m c.outputBuffer.readableBytes after⟩ := by
    intro after hafter
    have hnot : ¬ Transition.WrittenDirectly ⟨.sendInLoop data io, c.outputBuffer.readableBytes,
        after, markNotice m c.outputBuffer.readableBytes after⟩ := fun hd => hbefore hd.1
    refine exact_send rfl ?_ ?_ fun hd => absurd hd hnot
    · simp [Cause.offered, Cause.written, hbefore, hafter]
    · simp [queued, hnot]
  unfold sendInLoop
  rw [if_neg hstate]
  dsimp only
  rw [writeDirectly_of_buffered h hbuf, subSize_of_le (by omega) (Nat.zero_le _)]
  refine Outcome.check_bind (Nat.sub_le _ _) ?_
  by_cases hdata : data = []
  · subst hdata
    have hnone : markNotice m c.outputBuffer.readableBytes c.outputBuffer.readableBytes = [] := by
      rw [markNotice, if_neg (by omega)]
    have hsame := hexact c.outputBuffer.readableBytes rfl
    rw [hnone] at hsame
    exact .ok ⟨[], .refl c, hsame⟩
  · rw [if_pos (by simpa [length_pos_iff] using hdata), drop_zero]
    refine (outcome_bufferRest_marks h hdata hlen hset).mono ?_ fun _ _ => trivial
    rintro c' ⟨hreadable, hqueues⟩
    exact ⟨_, hqueues, hexact _ hreadable⟩

/-- `sendInLoop` with nothing buffered: a direct write, and the rest is
buffered. -/
theorem follows_sendInLoop_of_empty (h : c.Steady reading) (hempty : c.outputBuffer.content = [])
    (hstate : c.state ≠ .kDisconnected) (hlen : data.length ≤ maxSize) (hio : io.reset = false)
    (hset : c.settings = ⟨m, true, true⟩) :
    Outcome (Follows m (.sendInLoop data io) c) (fun _ => True) (c.sendInLoop data io) := by
  have hmax : maxSize < 2 ^ 64 := by decide
  have hzero : c.outputBuffer.readableBytes = 0 := h.readableBytes_eq_zero.mpr hempty
  have hwriting : c.channel.isWriting = false := by simp [h.isWriting, hempty]
  have hcallback : c.writeCompleteCallback = true := congrArg Settings.writeCompleteCallback hset
  have hn := accepted_le io data.length
  have hsub : subSize data.length (io.accepted data.length) =
      data.length - io.accepted data.length := subSize_of_le (by omega) hn
  obtain ⟨d, hd⟩ : ∃ d, d = (c.emit (.write data (io.accepted data.length))).queueIf
      (io.returned && decide (data.length - io.accepted data.length = 0)) .writeCompleteCallback :=
    ⟨_, rfl⟩
  have hdirect : c.writeDirectly data io = ⟨d, io.accepted data.length, io.reset⟩ := by
    rw [writeDirectly, if_pos (by simp [hwriting, hzero]), hd]
    simp only [hsub, emit, hcallback, Bool.and_true]
  have hqueues : Queues c (queued (io.returned && decide (data.length - io.accepted data.length = 0))
      .writeCompleteCallback) d := by
    rw [hd, queueIf_eq]
    exact ⟨rfl, rfl⟩
  have hout : d.outputBuffer = c.outputBuffer := by simp [hd]
  have hsteady : d.Steady reading := h.congr (by simp [hd]) (by simp [hd]) hout
  -- the transition, whatever is buffered of the message
  have hexact : ∀ after, after = data.length - io.accepted data.length →
      Transition.Exact m ⟨.sendInLoop data io, c.outputBuffer.readableBytes, after,
        queued (io.returned && decide (data.length - io.accepted data.length = 0))
          .writeCompleteCallback ++ markNotice m c.outputBuffer.readableBytes after⟩ := by
    intro after hafter
    refine exact_send rfl ?_ ?_ ?_
    · simp [Cause.offered, Cause.written, hzero, hafter]
    · have hall : (data.length - io.accepted data.length = 0) ↔
          io.accepted data.length = data.length := by omega
      simp [Transition.WrittenDirectly, hzero, hall, Bool.decide_and]
    · rintro ⟨-, -, hall⟩
      simp only [hafter]
      omega
  unfold sendInLoop
  rw [if_neg hstate]
  dsimp only
  rw [hdirect, hsub, hio]
  refine Outcome.check_bind (Nat.sub_le _ _) ?_
  by_cases hrest : 0 < data.length - io.accepted data.length
  · rw [if_pos (by simpa using hrest)]
    have hdrop := length_drop (i := io.accepted data.length) (l := data)
    have hne : data.drop (io.accepted data.length) ≠ [] := by
      rw [ne_eq, drop_eq_nil_iff]
      omega
    refine (outcome_bufferRest_marks hsteady hne (by omega) (hqueues.settings.trans hset)).mono ?_
      fun _ _ => trivial
    rintro c' ⟨hreadable, hmark⟩
    rw [hout] at hreadable hmark
    exact ⟨_, hqueues.trans hmark, hexact _ (by omega)⟩
  · rw [if_neg (by simpa using hrest)]
    have hnone : markNotice m c.outputBuffer.readableBytes d.outputBuffer.readableBytes = [] := by
      rw [markNotice, hout, if_neg (by omega)]
    have hdone := hexact d.outputBuffer.readableBytes (by rw [hout]; omega)
    rw [hnone, append_nil] at hdone
    exact .ok ⟨_, hqueues, hdone⟩

/-- **`sendInLoop`** notifies exactly. -/
theorem follows_sendInLoop (h : c.Steady reading) (hstate : c.state ≠ .kDisconnected)
    (hlen : data.length ≤ maxSize) (hio : io.reset = false) (hset : c.settings = ⟨m, true, true⟩) :
    Outcome (Follows m (.sendInLoop data io) c) (fun _ => True) (c.sendInLoop data io) := by
  by_cases hempty : c.outputBuffer.content = []
  · exact follows_sendInLoop_of_empty h hempty hstate hlen hio hset
  · exact follows_sendInLoop_of_buffered h hempty hstate hlen hset

/-- A step that takes bytes from the buffer, with the notification for an
empty one. -/
theorem exact_drain (hdrain : t.cause.isDrain = true)
    (hunsent : t.after = t.before - t.cause.written t.before)
    (hqueued : t.queued = queued (decide (t.before ≠ 0 ∧ t.after = 0)) .writeCompleteCallback) :
    t.Exact m := by
  have hsend : t.cause.isSend = false := by
    cases hcause : t.cause <;> simp_all [Cause.isSend, Cause.isDrain]
  have hoffered : t.cause.offered = 0 := by
    cases hcause : t.cause <;> simp_all [Cause.offered, Cause.isDrain]
  have hdirect : ¬ t.WrittenDirectly := by
    cases hcause : t.cause <;> simp_all [Transition.WrittenDirectly, Cause.isDrain]
  have hreaches : ¬ t.Reaches m := by simp [Transition.Reaches, hsend]
  have hdrained : t.Drained ↔ t.before ≠ 0 ∧ t.after = 0 := by simp [Transition.Drained, hdrain]
  constructor
  · rw [hoffered, Nat.add_zero]
    exact hunsent
  · by_cases hd : t.before ≠ 0 ∧ t.after = 0 <;>
      simp [hqueued, queued, hd, hreaches, Functor.isHighWaterMark]
  · simp only [hdrained, hdirect, false_or]
    by_cases hd : t.before ≠ 0 ∧ t.after = 0 <;>
      simp [hqueued, queued, hd, Functor.isWriteComplete]
  · intro hmem
    by_contra hafter
    simp [hqueued, queued, hafter] at hmem

/-- **`handleWrite`** notifies exactly. -/
theorem follows_handleWrite (h : c.Steady reading) (io : WriteResult)
    (hset : c.settings = ⟨m, true, true⟩) :
    Outcome (Follows m (.handleWrite io) c) (fun _ => True) (c.handleWrite io) := by
  have hreadable : c.outputBuffer.readableBytes = c.outputBuffer.content.length :=
    h.wf.readableBytes_eq_length
  have hcallback : c.writeCompleteCallback = true := congrArg Settings.writeCompleteCallback hset
  -- nothing is taken: the same connection
  have hidle : io.accepted c.outputBuffer.content.length = 0 → Transition.Exact m
      ⟨.handleWrite io, c.outputBuffer.readableBytes, c.outputBuffer.readableBytes, []⟩ := by
    intro hzero
    refine exact_drain rfl (by simp [Cause.written, hreadable, hzero]) ?_
    by_cases hr : c.outputBuffer.readableBytes = 0 <;> simp [queued, hr]
  unfold handleWrite
  by_cases hempty : c.outputBuffer.content = []
  · rw [if_neg (by simp [h.isWriting, hempty])]
    have hle := accepted_le io c.outputBuffer.content.length
    exact .ok ⟨[], .refl c, hidle (by simpa [hempty] using hle)⟩
  rw [if_pos (by simp [h.isWriting, hempty]), h.wf.chars_readable]
  change Outcome _ _ (if 0 < io.accepted c.outputBuffer.content.length then _ else _)
  have hbefore : c.outputBuffer.content.length ≠ 0 := by
    rwa [ne_eq, length_eq_zero_iff]
  by_cases hn : 0 < io.accepted c.outputBuffer.content.length
  · rw [if_pos hn]
    obtain ⟨b, hret, hwf, hcontent, -⟩ := retrieve_spec h.wf (accepted_le io _)
    have hb : b.readableBytes =
        c.outputBuffer.content.length - io.accepted c.outputBuffer.content.length := by
      rw [hwf.readableBytes_eq_length, hcontent, length_drop]
    simp only [onOutputBuffer, emit_outputBuffer, hret]
    change Outcome _ _ (if b.readableBytes = 0 then _ else _)
    have hexact : ∀ c' : TcpConnection, c'.outputBuffer = b → Transition.Exact m
        ⟨.handleWrite io, c.outputBuffer.readableBytes, c'.outputBuffer.readableBytes,
          queued (decide (b.readableBytes = 0)) .writeCompleteCallback⟩ := by
      intro c' hc
      refine exact_drain rfl (by simp [Cause.written, hreadable, hc, hb]) ?_
      simp [hc, hreadable, hempty]
    split
    · next hdone =>
      refine (outcome_drained_queues _).mono ?_ fun _ _ => trivial
      rintro c' ⟨hqueues, hout⟩
      refine ⟨_, ⟨hqueues.settings, ?_⟩, hexact c' hout⟩
      simpa [hdone, hcallback, emit] using hqueues.pendingFunctors
    · next hleft =>
      refine .ok ⟨_, ⟨rfl, ?_⟩, hexact _ rfl⟩
      simp [queued, hleft]
  · rw [if_neg hn]
    exact .ok ⟨[], .of_eq rfl rfl, hidle (by omega)⟩

/-- An open connection with the mark `m` and both callbacks set. -/
structure FlowInv (m : Nat) (c : TcpConnection) : Prop where
  opened : OpenInv c
  settings : c.settings = ⟨m, true, true⟩
  noClose : .forceCloseInLoop ∉ c.pendingFunctors

theorem FlowInv.outcome_sendInLoop (h : FlowInv m c) (hlen : data.length ≤ maxSize)
    (hio : io.reset = false) :
    Outcome (fun c' => FlowInv m c' ∧ Follows m (.sendInLoop data io) c c') LengthError
      (c.sendInLoop data io) := by
  have hstate := ne_kDisconnected h.opened.state
  refine ((TcpConnection.outcome_sendInLoop h.opened.steady hstate hlen).and
    (follows_sendInLoop h.opened.steady hstate hlen hio h.settings)).mono ?_ fun f hf => hf.1.1
  rintro c' ⟨hsends, fs, hqueues, hexact⟩
  exact ⟨⟨h.opened.of_rest hsends.rest hsends.steady, hqueues.settings.trans h.settings,
    hsends.queue.noClose h.noClose⟩, fs, hqueues, hexact⟩

theorem FlowInv.outcome_handleWrite (h : FlowInv m c) (io : WriteResult) :
    Outcome (fun c' => FlowInv m c' ∧ Follows m (.handleWrite io) c c') LengthError
      (c.handleWrite io) := by
  obtain ⟨c', hwrite, hdrains⟩ := handleWrite_spec h.opened.steady io
  obtain ⟨fs, hqueues, hexact⟩ :=
    (follows_handleWrite h.opened.steady io h.settings).of_ok hwrite
  rw [hwrite]
  exact .ok ⟨⟨h.opened.of_rest hdrains.rest hdrains.steady, hqueues.settings.trans h.settings,
    hdrains.queue.noClose h.noClose⟩, fs, hqueues, hexact⟩

/-- The step leaves the backlog and the queue alone. -/
structure Keeps (c c' : TcpConnection) : Prop where
  queues : Queues c [] c'
  outputBuffer : c'.outputBuffer = c.outputBuffer

theorem Keeps.refl (c : TcpConnection) : Keeps c c := ⟨.refl c, rfl⟩

theorem Keeps.flowInv (h : Keeps c c') (hc : FlowInv m c) (hopen : OpenInv c') : FlowInv m c' := by
  refine ⟨hopen, h.queues.settings.trans hc.settings, ?_⟩
  rw [h.queues.pendingFunctors, append_nil]
  exact hc.noClose

/-- A step that is none of the two functions, and queues no notification. -/
theorem exact_other {n : Nat} (hfs : ∀ f ∈ fs, f.isCallback = false) :
    Transition.Exact m ⟨.other, n, n, fs⟩ := by
  constructor
  · rfl
  · rw [if_neg (by simp [Transition.Reaches, Cause.isSend]), filter_eq_nil_iff]
    intro f hf hmark
    have hcb := hfs f hf
    cases f <;> simp_all [Functor.isHighWaterMark, Functor.isCallback]
  · rw [if_neg (by simp [Transition.WrittenDirectly, Transition.Drained, Cause.isDrain]),
      filter_eq_nil_iff]
    intro f hf hdone
    have hcb := hfs f hf
    cases f <;> simp_all [Functor.isWriteComplete, Functor.isCallback]
  · exact fun hmem => absurd (hfs _ hmem) (by decide)

theorem Keeps.follows (h : Keeps c c') : Follows m .other c c' := by
  refine ⟨[], h.queues, ?_⟩
  rw [h.outputBuffer]
  exact exact_other (by simp)

theorem keeps_shutdown (c : TcpConnection) : Keeps c c.shutdown := by
  rw [TcpConnection.shutdown]
  split
  · rw [shutdownInLoop]
    split
    · exact ⟨.of_eq rfl rfl, rfl⟩
    · exact ⟨.of_eq rfl rfl, rfl⟩
  · exact .refl c

theorem outcome_setReading_keeps (c : TcpConnection)
    (op : Channel → EventLoop → Except Channel.Fault (EventLoop × Channel)) (b r : Bool) :
    Outcome (Keeps c) (fun _ => True)
      (if b then do
        let c ← c.onChannel op
        return { c with reading := r }
      else .ok c) := by
  split
  · refine (outcome_onChannel_queues c op).bind fun d hd => .ok ?_
    exact ⟨⟨hd.1.settings, hd.1.pendingFunctors⟩, hd.2⟩
  · exact .ok (.refl c)

theorem outcome_read_keeps (c : TcpConnection) (io : ReadvResult) :
    Outcome (Keeps c) (fun _ => True) (c.openStep (.read io)) := by
  rw [openStep, readInput]
  cases (c.inputBuffer.readFd (io.upTo c.inputBuffer.offered)) with
  | error f => exact .error trivial
  | ok r =>
    obtain ⟨b, n⟩ := r
    refine .ok ?_
    split
    · exact ⟨.of_eq rfl rfl, rfl⟩
    · exact ⟨.of_eq rfl rfl, rfl⟩

theorem FlowInv.outcome_runFunctor (h : FlowInv m c) {f : Functor} (hf : f ≠ .forceCloseInLoop)
    (hio : io.reset = false) :
    Outcome (fun c' => FlowInv m c' ∧ Follows m (f.cause io) c c') LengthError
      (c.runFunctor f io) := by
  have hemit : ∀ e, Keeps c (c.emit e) := fun e => ⟨.of_eq rfl rfl, rfl⟩
  have hopen : ∀ e, OpenInv (c.emit e) := fun e =>
    ⟨h.opened.steady.congr rfl rfl rfl, h.opened.input, h.opened.state⟩
  cases f with
  | sendInLoop message => exact h.outcome_sendInLoop message.length_le hio
  | forceCloseInLoop => contradiction
  | writeCompleteCallback => exact .ok ⟨(hemit _).flowInv h (hopen _), (hemit _).follows⟩
  | highWaterMarkCallback len => exact .ok ⟨(hemit _).flowInv h (hopen _), (hemit _).follows⟩

/-- What the step queued is read off the end of the queue. -/
theorem exact_transition {d : TcpConnection} {cause : Cause} (hcause : e.cause c = cause)
    (hkept : e.kept c = d.pendingFunctors) (hout : d.outputBuffer = c.outputBuffer)
    (h : Follows m cause d c') : (e.transition c c').Exact m := by
  obtain ⟨fs, hqueues, hexact⟩ := h
  rw [FlowEvent.transition, hcause, hkept, hqueues.pendingFunctors, drop_left, ← hout]
  exact hexact

theorem FlowInv.outcome_keeps (h : FlowInv m c) (hcause : e.cause c = .other)
    (hkept : e.kept c = c.pendingFunctors) (hopen : Outcome OpenInv LengthError (e.exec c))
    (hkeeps : Outcome (Keeps c) (fun _ => True) (e.exec c)) :
    Outcome (fun c' => FlowInv m c' ∧ (e.transition c c').Exact m) LengthError (e.exec c) :=
  (hopen.and hkeeps).mono
    (fun _ hc => ⟨hc.2.flowInv h hc.1, exact_transition hcause hkept rfl hc.2.follows⟩)
    fun _ hf => hf.1

theorem FlowInv.outcome_send (h : FlowInv m c) (hkept : e.kept c = c.pendingFunctors)
    (hlen : data.length ≤ maxSize) (hio : io.reset = false)
    (hcause : e.cause c = if c.state = .kConnected then .sendInLoop data io else .other)
    (hexec : e.exec c = if c.state = .kConnected then c.sendInLoop data io else .ok c) :
    Outcome (fun c' => FlowInv m c' ∧ (e.transition c c').Exact m) LengthError (e.exec c) := by
  by_cases hconn : c.state = .kConnected
  · rw [if_pos hconn] at hcause hexec
    rw [hexec]
    exact (h.outcome_sendInLoop hlen hio).mono
      (fun c' hc => ⟨hc.1, exact_transition hcause hkept rfl hc.2⟩) fun _ hf => hf
  · rw [if_neg hconn] at hcause hexec
    rw [hexec]
    exact .ok ⟨h, exact_transition hcause hkept rfl (Keeps.refl c).follows⟩

/-- **Step.** The transition of every step is exact. -/
theorem step_flow (h : FlowInv m c) (he : e.NoReset) :
    Outcome (fun c' => FlowInv m c' ∧ (e.transition c c').Exact m) LengthError (e.exec c) := by
  cases e with
  | output e =>
    cases e with
    | send message io => exact h.outcome_send rfl message.length_le he rfl rfl
    | sendBuffer buf io =>
      refine h.outcome_send rfl buf.2.length_content_le he rfl ?_
      simp only [FlowEvent.exec, OutputState.exec, sendBuffer, buf.2.chars_readable]
      split
      · change (c.sendInLoop buf.1.content io >>= fun c => .ok (c, buf.1.retrieveAll)) >>=
          (fun r => .ok r.1) = _
        cases c.sendInLoop buf.1.content io <;> rfl
      · rfl
    | shutdown =>
      exact h.outcome_keeps rfl rfl (h.opened.outcome_call .shutdown) (.ok (keeps_shutdown c))
    | handleWrite io =>
      exact (h.outcome_handleWrite io).mono
        (fun c' hc => ⟨hc.1, exact_transition rfl rfl rfl hc.2⟩) fun _ hf => hf
  | enqueue message =>
    refine .ok ⟨⟨⟨h.opened.steady.congr rfl rfl rfl, h.opened.input, h.opened.state⟩, h.settings,
      ?_⟩, exact_transition rfl rfl rfl ⟨[.sendInLoop message], ⟨rfl, rfl⟩, ?_⟩⟩
    · simpa [queueInLoop] using h.noClose
    · exact exact_other (by simp [Functor.isCallback])
  | runFunctor io =>
    cases hqueue : c.pendingFunctors with
    | nil =>
      simp only [FlowEvent.exec, hqueue]
      refine .ok ⟨h, exact_transition ?_ ?_ rfl (Keeps.refl c).follows⟩
      · simp only [FlowEvent.cause, hqueue]
      · simp only [FlowEvent.kept, hqueue, tail_nil]
    | cons f fs =>
      have hpop : FlowInv m { c with pendingFunctors := fs } := by
        refine ⟨⟨h.opened.steady.congr rfl rfl rfl, h.opened.input, h.opened.state⟩, h.settings,
          fun hmem => h.noClose ?_⟩
        rw [hqueue]
        exact mem_cons_of_mem f hmem
      have hf : f ≠ .forceCloseInLoop := by
        rintro rfl
        exact h.noClose (by simp [hqueue])
      simp only [FlowEvent.exec, hqueue]
      refine (hpop.outcome_runFunctor hf he).mono (fun c' hc => ⟨hc.1, ?_⟩) fun _ hf => hf
      refine exact_transition (d := { c with pendingFunctors := fs }) ?_ ?_ rfl hc.2
      · simp only [FlowEvent.cause, hqueue]
      · simp only [FlowEvent.kept, hqueue, tail_cons]
  | startRead =>
    exact h.outcome_keeps rfl rfl (h.opened.outcome_call .startRead)
      (outcome_setReading_keeps c _ _ _)
  | stopRead =>
    exact h.outcome_keeps rfl rfl (h.opened.outcome_call .stopRead)
      (outcome_setReading_keeps c _ _ _)
  | read io =>
    exact h.outcome_keeps rfl rfl (step_open h.opened (.read io)) (outcome_read_keeps c io)

end

/-- A backlog that is at the mark and later below it was taken below it by one
of the steps between. -/
theorem Chained.exists_below {m : Nat} {t u : Transition} {mid post : List Transition}
    (h : Chained (t :: (mid ++ u :: post))) (ht : m ≤ t.after) (hu : u.before < m) :
    ∃ w ∈ mid, m ≤ w.before ∧ w.after < m := by
  induction mid generalizing t with
  | nil =>
    have hnext : t.after = u.before := (isChain_cons_cons.mp h).1
    omega
  | cons v mid ih =>
    obtain ⟨hnext, hrest⟩ := isChain_cons_cons.mp h
    by_cases hv : v.after < m
    · exact ⟨v, mem_cons_self, by omega, hv⟩
    · obtain ⟨w, hw, hbelow⟩ := ih hrest (by omega)
      exact ⟨w, mem_cons_of_mem v hw, hbelow⟩

namespace Transition

/-- Only `handleWrite` takes a backlog below the mark, and it notifies when
nothing is left. -/
theorem Exact.of_below {m : Nat} {w : Transition} (h : w.Exact m) (hbefore : m ≤ w.before)
    (hafter : w.after < m) :
    w.cause.isDrain = true ∧ (0 < w.after ∨ .writeCompleteCallback ∈ w.queued) := by
  have hunsent := h.unsent
  have hdrain : w.cause.isDrain = true := by
    cases hcause : w.cause with
    | handleWrite io => rfl
    | sendInLoop data io =>
      have hpos : w.before ≠ 0 := by omega
      simp only [hcause, Cause.offered, Cause.written, hpos, if_false] at hunsent
      omega
    | other =>
      simp only [hcause, Cause.offered, Cause.written] at hunsent
      omega
  refine ⟨hdrain, ?_⟩
  by_cases hzero : w.after = 0
  · have hnotice := h.writeComplete
    rw [if_pos (.inr ⟨hdrain, by omega, hzero⟩)] at hnotice
    exact .inr (mem_of_mem_filter (hnotice ▸ mem_singleton_self _))
  · exact .inl (by omega)

theorem Exact.reaches {m : Nat} (h : t.Exact m) (ht : t.NotifiesMark) : t.Reaches m := by
  obtain ⟨f, hf, hmark⟩ := ht
  by_contra hnot
  have hnone := h.highWaterMark
  rw [if_neg hnot, filter_eq_nil_iff] at hnone
  exact hnone f hf hmark

end Transition

/-- Exact transitions that follow each other keep the marks apart. -/
theorem separated_of_exact {m : Nat} {record : List Transition}
    (hexact : ∀ t ∈ record, t.Exact m) (hchain : Chained record) : Separated m record := by
  intro pre t mid u post hrecord ht hu
  subst hrecord
  have hreach := (hexact t (by simp)).reaches ht
  have hreach' := (hexact u (by simp)).reaches hu
  have htail : Chained (t :: (mid ++ u :: post)) := hchain.right_of_append
  obtain ⟨w, hw, hbefore, hafter⟩ := htail.exists_below hreach.2.2 hreach'.2.1
  obtain ⟨hdrain, hdone⟩ := (hexact w (by simp [hw])).of_below hbefore hafter
  exact ⟨w, hw, hdrain, hbefore, hafter, hdone⟩

/-- The transitions so far are exact, and end at the backlog of the
connection. -/
structure FlowRun (m : Nat) (s : FlowState) : Prop where
  inv : FlowInv m s.conn
  exact : ∀ t ∈ s.record, t.Exact m
  chained : Chained s.record
  last : ∀ t ∈ s.record.getLast?, t.after = s.conn.outputBuffer.readableBytes

theorem FlowRun.outcome_step {m : Nat} {s : FlowState} (h : FlowRun m s)
    (he : e.NoReset) : Outcome (FlowRun m) LengthError (s.step e) := by
  refine (step_flow h.inv he).bind fun c hc => .ok ?_
  obtain ⟨hinv, hexact⟩ := hc
  constructor
  · exact hinv
  · intro t ht
    simp only [mem_append, mem_singleton] at ht
    cases ht with
    | inl hold => exact h.exact t hold
    | inr hnew => exact hnew ▸ hexact
  · refine h.chained.append (isChain_singleton _) fun t ht u hu => ?_
    simp only [List.head?_cons, Option.mem_some_iff] at hu
    rw [h.last t ht, ← hu]
    rfl
  · intro t ht
    simp only [List.getLast?_append, List.getLast?_singleton, Option.some_or,
      Option.mem_some_iff] at ht
    rw [← ht]
    rfl

theorem outcome_connectEstablished_settings (c : TcpConnection) :
    Outcome (fun c' => c'.settings = c.settings) (fun _ => True) c.connectEstablished := by
  rw [connectEstablished]
  refine (outcome_check fun _ => trivial).bind fun _ _ => ?_
  exact (outcome_onChannel_queues _ _).bind fun d hd => .ok hd.1.settings

/-- The callbacks of a new connection. -/
theorem establish_settings {loop : EventLoop} {addr fd m : Nat} {c : TcpConnection}
    (h : establish loop addr fd ⟨true, some m⟩ = .ok c) : c.settings = ⟨m, true, true⟩ := by
  obtain ⟨b, hbuffer, -⟩ := create_kInitialSize
  have hsettings : Outcome (fun c => settings c = ⟨m, true, true⟩) (fun _ => True)
      (establish loop addr fd ⟨true, some m⟩) := by
    refine Outcome.bind (P := fun c => settings c = ⟨m, true, true⟩) ?_ fun c hc => ?_
    · rw [create, hbuffer]
      exact .ok rfl
    · exact (outcome_connectEstablished_settings c).mono (fun d hd => hd.trans hc) fun _ hf => hf
  exact hsettings.of_ok h

/-- **Back pressure.** Over every run of an established connection with the
mark `m` and both callbacks set, with any answers of the kernel other than
`EPIPE` and `ECONNRESET`:

* `highWaterMarkCallback_` is queued once for each `sendInLoop` that takes the
  unsent bytes from below `m` to `m` or more, with their new number, and by no
  other step;
* `writeCompleteCallback_` is queued once for each message that met an empty
  buffer and was written completely, and once for each `handleWrite` that
  drains the buffer, by no other step, and with nothing unsent;
* between two notifications of the mark, the buffer was drained below it.

The run only fails when a buffer outgrows the memory of the machine. -/
theorem backPressure_exact {loop : EventLoop} {fd : Nat} (hfd : Unused loop fd) (addr m : Nat)
    {es : List FlowEvent} (hes : ∀ e ∈ es, e.NoReset) :
    Outcome (fun s : FlowState =>
        (∀ t ∈ s.record, t.Exact m) ∧ Chained s.record ∧ Separated m s.record)
      LengthError
      (establish loop addr fd ⟨true, some m⟩ >>= fun c => run FlowState.step ⟨c, []⟩ es) := by
  obtain ⟨c, hc, hnew⟩ := establish_spec hfd addr ⟨true, some m⟩
  have hstart : FlowRun m ⟨c, []⟩ := by
    refine ⟨⟨OpenInv.of_established hnew, establish_settings hc, ?_⟩, by simp, ?_, by simp⟩
    · simp [hnew.queue]
    · exact isChain_nil
  rw [hc]
  exact (Outcome.run (fun s e hs he => hs.outcome_step he) hstart (meets_of_forall _ hes)).mono
    (fun s hs => ⟨hs.exact, hs.chained, separated_of_exact hs.exact hs.chained⟩) fun _ hf => hf

/-- The mark is reached by a partial write, the buffer partly drained, the mark
reached again by a message of another thread, and all is written. -/
def twoMarks : List FlowEvent :=
  [.output (.send ⟨[6, 7, 8], by decide⟩ (.wrote 1)), .enqueue ⟨[4, 5], by decide⟩,
    .output (.handleWrite (.wrote 1)), .runFunctor (.wrote 0), .runFunctor (.wrote 0),
    .output (.handleWrite (.wrote 3))]

theorem noReset_twoMarks : ∀ e ∈ twoMarks, e.NoReset := by decide

/-- An established connection with the mark 2. -/
def markedConn : TcpConnection :=
  { freshConn with
    highWaterMark := 2
    writeCompleteCallback := true
    highWaterMarkCallback := true }

theorem establish_markedConn : establish idleLoop 1 5 ⟨true, some 2⟩ = .ok markedConn := by
  have hbuffer : Buffer.create kInitialSize =
      .ok ⟨List.replicate kInitialVector 0, kCheapPrepend, kCheapPrepend⟩ := by decide +kernel
  rw [establish, create, hbuffer]
  rfl

theorem run_twoMarks :
    (run FlowState.step ⟨markedConn, []⟩ twoMarks).toOption.map
        (·.record.map fun t => (t.before, t.after, t.queued)) =
      some [(0, 2, [.highWaterMarkCallback 2]), (2, 2, [.sendInLoop ⟨[4, 5], by decide⟩]),
        (2, 1, []), (1, 1, []), (1, 3, [.highWaterMarkCallback 3]),
        (3, 0, [.writeCompleteCallback])] := by
  decide +kernel

theorem backPressure_exact_twoMarks :
    ∃ s, run FlowState.step ⟨markedConn, []⟩ twoMarks = .ok s ∧
      (∀ t ∈ s.record, t.Exact 2) ∧ Separated 2 s.record := by
  have hrun := backPressure_exact unused_idleLoop 1 2 noReset_twoMarks
  rw [establish_markedConn, ok_bind] at hrun
  cases hs : run FlowState.step ⟨markedConn, []⟩ twoMarks with
  | error f =>
    have hsome := run_twoMarks
    simp [hs, Except.toOption] at hsome
  | ok s =>
    obtain ⟨hexact, -, hseparated⟩ := hrun.of_ok hs
    exact ⟨s, rfl, hexact, hseparated⟩

end Muduo.TcpConnection
