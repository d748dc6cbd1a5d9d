import Muduo.Buffer.Spec
import Muduo.TcpConnection

/-!
# Muduo.TcpConnection.Spec

What the functions of a connection do, one specification for each.

The invariant behind all of them is `Steady`: the poller tracks the channel,
the output buffer is well formed, and the channel is interested in `POLLOUT`
exactly while output is buffered.
-/

namespace Muduo.TcpConnection

open Lib Buffer List

/-! ## the log -/

/-- The bytes that the kernel took. -/
def Effect.acceptedBytes : Effect → List UInt8
  | .write data n => data.take n
  | _ => []

def acceptedBytes (log : List Effect) : List UInt8 := log.flatMap Effect.acceptedBytes

@[simp] theorem acceptedBytes_nil : acceptedBytes [] = [] := rfl

@[simp] theorem acceptedBytes_append (l l' : List Effect) :
    acceptedBytes (l ++ l') = acceptedBytes l ++ acceptedBytes l' := flatMap_append

@[simp] theorem acceptedBytes_write (data : List UInt8) (n : Nat) :
    acceptedBytes [.write data n] = data.take n := flatMap_singleton ..

def Effect.isWrite : Effect → Bool
  | .write .. => true
  | _ => false

def Effect.isShutdownWrite : Effect → Bool
  | .shutdownWrite _ => true
  | _ => false

theorem acceptedBytes_of_noWrite {log : List Effect} (h : ∀ e ∈ log, e.isWrite = false) :
    acceptedBytes log = [] := by
  rw [acceptedBytes, flatMap_eq_nil_iff]
  intro e he
  have hw := h e he
  cases e with
  | write data n => contradiction
  | _ => rfl

/-- The functors that only call a callback of the user. -/
def Functor.isCallback : Functor → Bool
  | .writeCompleteCallback | .highWaterMarkCallback _ => true
  | .sendInLoop _ | .forceCloseInLoop => false

/-! ## the elementary updates -/

/-- The part of a connection that the functions on its output leave alone. -/
structure Rest where
  state : StateE
  reading : Bool
  inputBuffer : Buffer
  addr : Nat
  eventHandling : Bool
  activeChannels : List Nat
  currentActiveChannel : Option Nat

def rest (c : TcpConnection) : Rest :=
  ⟨c.state, c.reading, c.inputBuffer, c.channel.addr, c.loop.eventHandling,
    c.loop.activeChannels, c.loop.currentActiveChannel⟩

theorem state_eq_of_rest {c c' : TcpConnection} (h : c'.rest = c.rest) : c'.state = c.state :=
  congrArg Rest.state h

/-- The connection after its channel was updated to the interest set `e`. -/
def rewire (c : TcpConnection) (p : EPollPoller) (e : Events) : TcpConnection :=
  { c with loop := { c.loop with poller := p }, channel := c.channel.updated e }

section fields

variable (c : TcpConnection) (e : Effect) (b : Bool) (f : Functor) (p : EPollPoller) (ev : Events)

@[simp] theorem emit_state : (c.emit e).state = c.state := rfl
@[simp] theorem emit_channel : (c.emit e).channel = c.channel := rfl
@[simp] theorem emit_loop : (c.emit e).loop = c.loop := rfl
@[simp] theorem emit_outputBuffer : (c.emit e).outputBuffer = c.outputBuffer := rfl
@[simp] theorem emit_pendingFunctors : (c.emit e).pendingFunctors = c.pendingFunctors := rfl
@[simp] theorem emit_log : (c.emit e).log = c.log ++ [e] := rfl
@[simp] theorem emit_rest : (c.emit e).rest = c.rest := rfl

/-- The functors that `queueIf` adds. -/
def queued (b : Bool) (f : Functor) : List Functor := if b then [f] else []

theorem queueIf_eq :
    c.queueIf b f = { c with pendingFunctors := c.pendingFunctors ++ queued b f } := by
  cases b with
  | true => rfl
  | false => simp [queueIf, queued]

@[simp] theorem queueIf_state : (c.queueIf b f).state = c.state := by rw [queueIf_eq]
@[simp] theorem queueIf_channel : (c.queueIf b f).channel = c.channel := by rw [queueIf_eq]
@[simp] theorem queueIf_loop : (c.queueIf b f).loop = c.loop := by rw [queueIf_eq]
@[simp] theorem queueIf_outputBuffer : (c.queueIf b f).outputBuffer = c.outputBuffer := by
  rw [queueIf_eq]
@[simp] theorem queueIf_pendingFunctors :
    (c.queueIf b f).pendingFunctors = c.pendingFunctors ++ queued b f := by rw [queueIf_eq]
@[simp] theorem queueIf_log : (c.queueIf b f).log = c.log := by rw [queueIf_eq]
@[simp] theorem queueIf_rest : (c.queueIf b f).rest = c.rest := by
  rw [queueIf_eq]
  rfl

@[simp] theorem rewire_state : (c.rewire p ev).state = c.state := rfl
@[simp] theorem rewire_channel : (c.rewire p ev).channel = c.channel.updated ev := rfl
@[simp] theorem rewire_outputBuffer : (c.rewire p ev).outputBuffer = c.outputBuffer := rfl
@[simp] theorem rewire_pendingFunctors : (c.rewire p ev).pendingFunctors = c.pendingFunctors := rfl
@[simp] theorem rewire_log : (c.rewire p ev).log = c.log := rfl
@[simp] theorem rewire_rest : (c.rewire p ev).rest = c.rest := rfl

end fields

/-- Only callbacks of the user were queued. -/
def QueuesCallbacks (c c' : TcpConnection) : Prop :=
  ∃ fs, c'.pendingFunctors = c.pendingFunctors ++ fs ∧ ∀ f ∈ fs, f.isCallback = true

theorem QueuesCallbacks.refl (c : TcpConnection) : QueuesCallbacks c c := ⟨[], by simp, by simp⟩

theorem QueuesCallbacks.trans {c c' c'' : TcpConnection} (h : QueuesCallbacks c c')
    (h' : QueuesCallbacks c' c'') : QueuesCallbacks c c'' := by
  obtain ⟨fs, hq, hfs⟩ := h
  obtain ⟨fs', hq', hfs'⟩ := h'
  refine ⟨fs ++ fs', by rw [hq', hq, append_assoc], fun f hf => ?_⟩
  exact (mem_append.mp hf).elim (hfs f) (hfs' f)

/-! ## the invariant -/

structure Steady (reading : Bool) (c : TcpConnection) : Prop where
  tracked : c.channel.Tracked c.loop
  index : c.channel.index = Channel.openIndex c.channel.events
  wf : c.outputBuffer.WF
  events : c.channel.events = interest reading (decide (c.outputBuffer.content ≠ []))

section
variable {reading : Bool} {c : TcpConnection}

theorem Steady.isWriting (h : c.Steady reading) :
    c.channel.isWriting = decide (c.outputBuffer.content ≠ []) := by
  rw [Channel.isWriting, h.events, interest_meets_write]

theorem Steady.isReading (h : c.Steady reading) : c.channel.isReading = reading := by
  rw [Channel.isReading, h.events, interest_meets_read]

theorem Steady.readableBytes_eq_zero (h : c.Steady reading) :
    c.outputBuffer.readableBytes = 0 ↔ c.outputBuffer.content = [] := by
  rw [h.wf.readableBytes_eq_length, length_eq_zero_iff]

theorem Steady.congr (h : c.Steady reading) {c' : TcpConnection} (hch : c'.channel = c.channel)
    (hloop : c'.loop = c.loop) (hout : c'.outputBuffer = c.outputBuffer) : c'.Steady reading := by
  refine ⟨?_, ?_, ?_, ?_⟩
  · rw [hch, hloop]
    exact h.tracked
  · rw [hch]
    exact h.index
  · rw [hout]
    exact h.wf
  · rw [hch, hout]
    exact h.events

end

theorem onChannel_setEvents (op : Channel → EventLoop → Except Channel.Fault (EventLoop × Channel))
    {c : TcpConnection} (h : c.channel.Tracked c.loop) {e : Events}
    (hop : op c.channel = c.channel.setEvents e) :
    ∃ p, c.onChannel op = .ok (c.rewire p e) ∧
      (c.rewire p e).channel.Tracked (c.rewire p e).loop ∧ p.calls =
        c.loop.poller.calls ++ [(Channel.ctlOp c.channel.index e, c.channel.fd)] := by
  obtain ⟨p, hset, htracked, hcalls⟩ := Channel.setEvents_spec h e
  refine ⟨p, ?_, htracked, hcalls⟩
  rw [onChannel, hop, hset]
  rfl

theorem interest_ne_none (r w : Bool) (h : r = true ∨ w = true) : interest r w ≠ kNoneEvent := by
  rw [ne_eq, interest_eq_none]
  cases h with
  | inl hr => simp [hr]
  | inr hw => simp [hw]

theorem isCallback_of_mem_queued {b : Bool} {f g : Functor} (hf : f.isCallback = true)
    (hg : g ∈ queued b f) : g.isCallback = true := by
  cases b with
  | true => rwa [mem_singleton.mp hg]
  | false => exact absurd hg not_mem_nil

/-! ## sending -/

/-- What `sendInLoop` may change, with the bytes it takes over. -/
structure Sends (reading : Bool) (c : TcpConnection) (data : List UInt8) (io : WriteResult)
    (c' : TcpConnection) : Prop where
  steady : c'.Steady reading
  rest : c'.rest = c.rest
  queue : QueuesCallbacks c c'
  log : ∃ ws, c'.log = c.log ++ ws ∧ (∀ e ∈ ws, e.isWrite = true) ∧
    (io.reset = false →
      acceptedBytes ws ++ c'.outputBuffer.content = c.outputBuffer.content ++ data)
  growth : c'.outputBuffer.buffer.length ≤ c.outputBuffer.buffer.length + data.length

/-- The failure of a connection whose output buffer would need `n` bytes. -/
def OutputTooLong (n : Nat) (f : Fault) : Prop := f = .buffer .lengthError ∧ maxSize < n

theorem OutputTooLong.mono {m n : Nat} {f : Fault} (hmn : m ≤ n) (h : OutputTooLong m f) :
    OutputTooLong n f := ⟨h.1, Nat.lt_of_lt_of_le h.2 hmn⟩

theorem accepted_le (io : WriteResult) (len : Nat) : io.accepted len ≤ len := by
  cases io with
  | wrote n => exact Nat.min_le_right n len
  | failed errno => exact Nat.zero_le len

section
variable {reading : Bool} {c : TcpConnection} {data : List UInt8} {io : WriteResult}

theorem writeDirectly_of_empty (h : c.Steady reading) (hempty : c.outputBuffer.content = [])
    (data : List UInt8) (io : WriteResult) : ∃ b, c.writeDirectly data io =
      ⟨(c.emit (.write data (io.accepted data.length))).queueIf b .writeCompleteCallback,
        io.accepted data.length, io.reset⟩ := by
  have hw : c.channel.isWriting = false := by simp [h.isWriting, hempty]
  have hr : c.outputBuffer.readableBytes = 0 := h.readableBytes_eq_zero.mpr hempty
  rw [writeDirectly, if_pos (by simp [hw, hr])]
  exact ⟨_, rfl⟩

theorem writeDirectly_of_buffered (h : c.Steady reading) (hbuf : c.outputBuffer.content ≠ []) :
    c.writeDirectly data io = ⟨c, 0, false⟩ := by
  have hw : c.channel.isWriting = true := by
    rw [h.isWriting]
    exact decide_eq_true hbuf
  simp [writeDirectly, hw]

theorem ne_kDisconnected {state : StateE} (h : state = .kConnected ∨ state = .kDisconnecting) :
    state ≠ .kDisconnected := by
  rintro rfl
  simp at h

theorem outcome_bufferRest (h : c.Steady reading) {rest : List UInt8} (hrest : rest ≠ [])
    (hlen : rest.length ≤ maxSize) :
    Outcome (fun c' => c'.Steady reading ∧ c'.rest = c.rest ∧ c'.log = c.log ∧
        QueuesCallbacks c c' ∧
        c'.outputBuffer.content = c.outputBuffer.content ++ rest ∧
        c'.outputBuffer.buffer.length ≤ c.outputBuffer.buffer.length + rest.length)
      (OutputTooLong (c.outputBuffer.buffer.length + rest.length)) (c.bufferRest rest) := by
  unfold bufferRest
  extract_lets oldLen d
  have hqueue : QueuesCallbacks c d :=
    ⟨_, queueIf_pendingFunctors .., fun g hg => isCallback_of_mem_queued rfl hg⟩
  have happend : Outcome (fun c' => ∃ b, c' = { d with outputBuffer := b } ∧ b.WF ∧
        b.content = c.outputBuffer.content ++ rest ∧
        b.buffer.length ≤ c.outputBuffer.buffer.length + rest.length)
      (OutputTooLong (c.outputBuffer.buffer.length + rest.length))
      (d.onOutputBuffer (·.append rest)) := by
    have hout : d.outputBuffer = c.outputBuffer := queueIf_outputBuffer ..
    rw [onOutputBuffer, hout]
    refine Outcome.bind (outcome_append_mapError h.wf hlen fun hlong => ⟨rfl, hlong⟩) fun b hb => ?_
    exact .ok ⟨b, rfl, hb⟩
  refine happend.bind ?_
  rintro _ ⟨b, rfl, hwf, hcontent, hgrowth⟩
  have hch : d.channel = c.channel := queueIf_channel ..
  have hloop : d.loop = c.loop := queueIf_loop ..
  have hbuf : b.content ≠ [] := by simp [hcontent, hrest]
  have htracked : d.channel.Tracked d.loop := by
    rw [hch, hloop]
    exact h.tracked
  -- `POLLOUT` was on already, or is turned on now
  by_cases hwriting : c.channel.isWriting = true
  · rw [if_neg (by simp [hch, hwriting])]
    refine .ok ⟨⟨htracked, by rw [hch]; exact h.index, hwf, ?_⟩, queueIf_rest .., queueIf_log ..,
      hqueue, hcontent, hgrowth⟩
    rw [hch, h.events, ← h.isWriting, hwriting]
    simp [hbuf]
  · rw [if_pos (by simp [hch, hwriting])]
    obtain ⟨p, hon, htracked', -⟩ := onChannel_setEvents Channel.enableWriting
      (c := { d with outputBuffer := b }) htracked rfl
    rw [hon]
    have hon' : c.channel.events.union kWriteEvent = interest reading true := by
      rw [h.events, interest_union_write]
    refine .ok ⟨⟨htracked', ?_, hwf, ?_⟩, queueIf_rest .., queueIf_log .., hqueue, hcontent,
      hgrowth⟩
    · simp only [rewire_channel, Channel.updated_index, Channel.updated_events, hch, hon']
      exact Channel.nextIndex_eq_openIndex (.inr (interest_ne_none _ _ (.inr rfl)))
    · simp only [rewire_channel, Channel.updated_events, hch, hon']
      simp [hbuf]

/-- **`sendInLoop`.** The bytes go to the kernel or behind what is buffered,
none lost and none twice. -/
theorem outcome_sendInLoop (h : c.Steady reading) (hstate : c.state ≠ .kDisconnected)
    (hlen : data.length ≤ maxSize) :
    Outcome (Sends reading c data io)
      (OutputTooLong (c.outputBuffer.buffer.length + data.length)) (c.sendInLoop data io) := by
  have hmax : maxSize < 2 ^ 64 := by decide
  unfold sendInLoop
  rw [if_neg hstate]
  dsimp only
  by_cases hempty : c.outputBuffer.content = []
  · obtain ⟨b, hdirect⟩ := writeDirectly_of_empty h hempty data io
    have hn := accepted_le io data.length
    have hsub : subSize data.length (io.accepted data.length) =
        data.length - io.accepted data.length := subSize_of_le (by omega) hn
    have hsteady : Steady reading ((c.emit (.write data (io.accepted data.length))).queueIf b
        .writeCompleteCallback) := h.congr (by simp) (by simp) (by simp)
    have hqueue : QueuesCallbacks c ((c.emit (.write data (io.accepted data.length))).queueIf b
        .writeCompleteCallback) :=
      ⟨_, queueIf_pendingFunctors .., fun g hg => isCallback_of_mem_queued rfl hg⟩
    rw [hdirect, hsub]
    refine Outcome.check_bind (Nat.sub_le _ _) ?_
    by_cases hrest : (!io.reset && decide (0 < data.length - io.accepted data.length)) = true
    · rw [if_pos hrest]
      simp only [Bool.and_eq_true, decide_eq_true_eq] at hrest
      have hne : data.drop (io.accepted data.length) ≠ [] := by
        rw [ne_eq, drop_eq_nil_iff]
        omega
      have hdrop := length_drop (i := io.accepted data.length) (l := data)
      refine (outcome_bufferRest hsteady hne (by omega)).mono ?_
        fun e he => he.mono (by simp only [queueIf_outputBuffer, emit_outputBuffer]; omega)
      rintro c' ⟨hsteady', hrest', hlog, hqueue', hcontent, hgrowth⟩
      simp only [queueIf_rest, emit_rest, queueIf_log, emit_log, queueIf_outputBuffer,
        emit_outputBuffer] at hrest' hlog hcontent hgrowth
      refine ⟨hsteady', hrest', hqueue.trans hqueue', ⟨_, hlog, by simp [Effect.isWrite], ?_⟩,
        by omega⟩
      intro _
      rw [hcontent, hempty, acceptedBytes_write]
      exact take_append_drop _ data
    · rw [if_neg hrest]
      refine .ok ⟨hsteady, by simp, hqueue, ⟨[.write data (io.accepted data.length)], by simp,
        by simp [Effect.isWrite], ?_⟩, by simp⟩
      intro hreset
      simp only [hreset, Bool.not_false, Bool.true_and, decide_eq_true_eq] at hrest
      simp only [queueIf_outputBuffer, emit_outputBuffer]
      rw [hempty, acceptedBytes_write, take_of_length_le (by omega)]
      exact append_nil data
  · rw [writeDirectly_of_buffered h hempty, subSize_of_le (by omega) (Nat.zero_le _)]
    refine Outcome.check_bind (Nat.sub_le _ _) ?_
    by_cases hdata : data = []
    · subst hdata
      exact .ok ⟨h, rfl, .refl c, ⟨[], by simp, by simp, by simp⟩, Nat.le_refl _⟩
    · rw [if_pos (by simpa [length_pos_iff] using hdata), drop_zero]
      refine (outcome_bufferRest h hdata hlen).mono ?_ fun e he => he
      rintro c' ⟨hsteady', hrest, hlog, hqueue, hcontent, hgrowth⟩
      exact ⟨hsteady', hrest, hqueue,
        ⟨[], by simpa using hlog, by simp, fun _ => by simpa using hcontent⟩, hgrowth⟩

/-! ## writing what is buffered -/

theorem shutdownInLoop_of_empty (h : c.Steady reading) (hempty : c.outputBuffer.content = []) :
    c.shutdownInLoop = c.emit (.shutdownWrite 0) := by
  have hr : c.outputBuffer.readableBytes = 0 := h.readableBytes_eq_zero.mpr hempty
  rw [shutdownInLoop, if_pos (by simp [h.isWriting, hempty]), hr]

theorem shutdownInLoop_of_buffered (h : c.Steady reading) (hbuf : c.outputBuffer.content ≠ []) :
    c.shutdownInLoop = c := by
  rw [shutdownInLoop, if_neg (by simp [h.isWriting, hbuf])]

/-- An output buffer that has just become empty: `POLLOUT` goes off, and a
connection that is shutting down is half-closed. -/
theorem drained_spec (htracked : c.channel.Tracked c.loop) (hwf : c.outputBuffer.WF)
    (hevents : c.channel.events = interest reading true) (hindex : c.channel.index = .kAdded)
    (hempty : c.outputBuffer.content = []) :
    ∃ c', c.drained = .ok c' ∧ c'.Steady reading ∧ c'.rest = c.rest ∧ QueuesCallbacks c c' ∧
      c'.outputBuffer = c.outputBuffer ∧
      c'.log = c.log ++ if c.state = .kDisconnecting then [.shutdownWrite 0] else [] := by
  obtain ⟨p, hon, htracked', -⟩ := onChannel_setEvents Channel.disableWriting htracked rfl
  have hoff : c.channel.events.minus kWriteEvent = interest reading false := by
    rw [hevents, interest_minus_write]
  have hsteady : Steady reading (c.rewire p (c.channel.events.minus kWriteEvent)) :=
    ⟨htracked', Channel.nextIndex_eq_openIndex (.inl hindex), hwf, by simp [hoff, hempty]⟩
  have hqueued : Steady reading ((c.rewire p (c.channel.events.minus kWriteEvent)).queueIf
      c.writeCompleteCallback .writeCompleteCallback) :=
    hsteady.congr (by simp) (by simp) (by simp)
  have hqueue : QueuesCallbacks c ((c.rewire p (c.channel.events.minus kWriteEvent)).queueIf
      c.writeCompleteCallback .writeCompleteCallback) :=
    ⟨_, queueIf_pendingFunctors .., fun g hg => isCallback_of_mem_queued rfl hg⟩
  have hdrained : c.drained = .ok
      (if ((c.rewire p (c.channel.events.minus kWriteEvent)).queueIf c.writeCompleteCallback
          .writeCompleteCallback).state = .kDisconnecting then
        ((c.rewire p (c.channel.events.minus kWriteEvent)).queueIf c.writeCompleteCallback
          .writeCompleteCallback).shutdownInLoop
      else (c.rewire p (c.channel.events.minus kWriteEvent)).queueIf c.writeCompleteCallback
          .writeCompleteCallback) := by
    rw [drained, hon]
    rfl
  rw [hdrained, queueIf_state, rewire_state]
  by_cases hstate : c.state = .kDisconnecting
  · rw [if_pos hstate, if_pos hstate, shutdownInLoop_of_empty hqueued (by simpa using hempty)]
    exact ⟨_, rfl, hqueued.congr rfl rfl rfl, by simp, hqueue, by simp, by simp⟩
  · rw [if_neg hstate, if_neg hstate]
    exact ⟨_, rfl, hqueued, by simp, hqueue, by simp, by simp⟩

/-- The log of `handleWrite`: nothing without buffered output, one `write(2)`
otherwise, and the half-close behind the write that empties the buffer of a
connection that is shutting down. -/
inductive DrainLog (c : TcpConnection) (io : WriteResult) (c' : TcpConnection) :
    List Effect → Prop
  | idle : c.outputBuffer.content = [] → DrainLog c io c' []
  | wrote : c.outputBuffer.content ≠ [] →
      ¬ (c'.outputBuffer.content = [] ∧ c.state = .kDisconnecting) →
      DrainLog c io c'
        [.write c.outputBuffer.content (io.accepted c.outputBuffer.content.length)]
  | halfClosed : c.outputBuffer.content ≠ [] → c'.outputBuffer.content = [] →
      c.state = .kDisconnecting →
      DrainLog c io c'
        [.write c.outputBuffer.content (io.accepted c.outputBuffer.content.length),
          .shutdownWrite 0]

/-- What `handleWrite` may change. -/
structure Drains (reading : Bool) (c : TcpConnection) (io : WriteResult) (c' : TcpConnection) :
    Prop where
  steady : c'.Steady reading
  rest : c'.rest = c.rest
  queue : QueuesCallbacks c c'
  size : c'.outputBuffer.buffer.length = c.outputBuffer.buffer.length
  log : ∃ ws, c'.log = c.log ++ ws ∧ DrainLog c io c' ws ∧
    acceptedBytes ws ++ c'.outputBuffer.content = c.outputBuffer.content

/-- **`handleWrite`** never fails, and takes from the buffer what the kernel
took. -/
theorem handleWrite_spec (h : c.Steady reading) (io : WriteResult) :
    ∃ c', c.handleWrite io = .ok c' ∧ Drains reading c io c' := by
  unfold handleWrite
  by_cases hempty : c.outputBuffer.content = []
  · rw [if_neg (by simp [h.isWriting, hempty])]
    exact ⟨c, rfl, h, rfl, .refl c, rfl, [], by simp, .idle hempty, by simp⟩
  have hevents : c.channel.events = interest reading true := by simp [h.events, hempty]
  have hindex : c.channel.index = .kAdded := by
    rw [h.index, Channel.openIndex, hevents, if_neg (interest_ne_none _ _ (.inr rfl))]
  rw [if_pos (by simp [h.isWriting, hempty]), h.wf.chars_readable]
  change ∃ c', (if 0 < io.accepted c.outputBuffer.content.length then _ else _) = _ ∧ _
  by_cases hn : 0 < io.accepted c.outputBuffer.content.length
  · rw [if_pos hn]
    obtain ⟨b, hret, hwf, hcontent, hbuf⟩ := retrieve_spec h.wf (accepted_le io _)
    simp only [onOutputBuffer, emit_outputBuffer, hret]
    change ∃ c', (if b.readableBytes = 0 then _ else _) = _ ∧ _
    have htake : acceptedBytes [.write c.outputBuffer.content
        (io.accepted c.outputBuffer.content.length)] ++ b.content = c.outputBuffer.content := by
      rw [hcontent, acceptedBytes_write, take_append_drop]
    by_cases hdone : b.content = []
    · rw [if_pos (by rw [hwf.readableBytes_eq_length, hdone]; rfl)]
      obtain ⟨c', hdrained, hsteady, hrest, hqueue, hout, hlog⟩ := drained_spec
        (c := { c.emit (.write c.outputBuffer.content
          (io.accepted c.outputBuffer.content.length)) with outputBuffer := b }) h.tracked hwf hevents hindex hdone
      refine ⟨c', hdrained, hsteady, hrest, hqueue, by rw [hout, ← hbuf], ?_⟩
      have hempty' : c'.outputBuffer.content = [] := by rw [hout]; exact hdone
      rw [hdone] at htake
      by_cases hstate : c.state = .kDisconnecting
      · refine ⟨[.write c.outputBuffer.content (io.accepted c.outputBuffer.content.length),
          .shutdownWrite 0], ?_, .halfClosed hempty hempty' hstate, ?_⟩
        · simpa [hstate] using hlog
        · rw [hempty']
          exact htake
      · refine ⟨[.write c.outputBuffer.content (io.accepted c.outputBuffer.content.length)], ?_,
          .wrote hempty fun hc => hstate hc.2, ?_⟩
        · simpa [hstate] using hlog
        · rw [hempty']
          exact htake
    · rw [if_neg (by rwa [hwf.readableBytes_eq_length, length_eq_zero_iff])]
      refine ⟨_, rfl, ⟨h.tracked, h.index, hwf, ?_⟩, rfl, .refl c, by simp [hbuf], _, rfl,
        .wrote hempty fun hc => hdone hc.1, htake⟩
      simp [hevents, hdone]
  · rw [if_neg hn]
    refine ⟨_, rfl, h.congr rfl rfl rfl, rfl, .refl c, rfl, _, rfl, .wrote hempty ?_, ?_⟩
    · exact fun hc => hempty hc.1
    · have hzero : io.accepted c.outputBuffer.content.length = 0 := by omega
      simp [hzero]

end

/-! ## construction and establishment -/

/-- The size of the vector of a new buffer. -/
def kInitialVector : Nat := kCheapPrepend + kInitialSize

theorem create_kInitialSize : ∃ b, Buffer.create kInitialSize = .ok b ∧ b.WF ∧ b.content = [] ∧
    b.buffer.length = kInitialVector := by
  exact ⟨newBuffer, create_default, wf_newBuffer, content_newBuffer, length_newBuffer⟩

/-- A new connection, established. -/
def establish (loop : EventLoop) (addr fd : Nat) (cb : Callbacks) : Except Fault TcpConnection := do
  let c ← create loop addr fd cb
  c.connectEstablished

/-- No channel of the loop has the descriptor. -/
def Unused (loop : EventLoop) (fd : Nat) : Prop :=
  loop.poller.channels fd = none ∧ loop.poller.kernel fd = none

/-- A connection right after it was established. -/
structure Established (loop : EventLoop) (addr : Nat) (c : TcpConnection) : Prop where
  steady : c.Steady true
  rest : ∃ b, b.WF ∧ c.rest = ⟨.kConnected, true, b, addr, loop.eventHandling,
    loop.activeChannels, loop.currentActiveChannel⟩
  queue : c.pendingFunctors = []
  log : c.log = [.connectionCallback .kConnected]
  empty : c.outputBuffer.content = []
  size : c.outputBuffer.buffer.length = kInitialVector

theorem connectEstablished_spec {c : TcpConnection} (hstate : c.state = .kConnecting)
    (h : c.channel.Tracked c.loop) :
    ∃ p, c.connectEstablished = .ok ((({ c with state := .kConnected }).rewire p
        (c.channel.events.union kReadEvent)).emit (.connectionCallback .kConnected)) ∧
      (c.channel.updated (c.channel.events.union kReadEvent)).Tracked
        { c.loop with poller := p } := by
  obtain ⟨p, hon, htracked, -⟩ := onChannel_setEvents Channel.enableReading
    (c := { c with state := .kConnected }) h rfl
  refine ⟨p, ?_, htracked⟩
  rw [connectEstablished, check_of hstate]
  change (onChannel { c with state := .kConnected } Channel.enableReading >>= _) = _
  rw [hon]
  rfl

/-- **Establishment** of a connection on an unused descriptor succeeds. -/
theorem establish_spec {loop : EventLoop} {fd : Nat} (hfd : Unused loop fd) (addr : Nat)
    (cb : Callbacks) : ∃ c, establish loop addr fd cb = .ok c ∧ Established loop addr c := by
  obtain ⟨b, hcreate, hwf, hcontent, hlen⟩ := create_kInitialSize
  obtain ⟨c, hnew, hc⟩ : ∃ c, create loop addr fd cb = .ok c ∧ c =
      ⟨.kConnecting, true, .create addr fd, b, b, cb.highWaterMark.getD (64 * 1024 * 1024),
        cb.writeComplete, cb.highWaterMark.isSome, loop, [], []⟩ := by
    rw [create, hcreate]
    exact ⟨_, rfl, rfl⟩
  have hevents : c.channel.events.union kReadEvent = interest true false := by
    rw [hc]
    rfl
  obtain ⟨p, hestablish, htracked⟩ := connectEstablished_spec (c := c) (by rw [hc])
    (by rw [hc]; exact Channel.tracked_create hfd.1 hfd.2)
  rw [establish, hnew]
  refine ⟨_, hestablish, ⟨htracked, ?_, ?_, ?_⟩, ⟨b, hwf, ?_⟩, ?_, ?_, ?_, ?_⟩
  · simp only [emit_channel, rewire_channel, Channel.updated_index, Channel.updated_events, hevents]
    exact Channel.nextIndex_eq_openIndex (.inr (interest_ne_none _ _ (.inl rfl)))
  · simpa [hc] using hwf
  · simp only [emit_channel, rewire_channel, Channel.updated_events, hevents]
    simp [hc, hcontent]
  all_goals simp [hc, rest, rewire, emit, Channel.create, hcontent, hlen]

/-! ## closing -/

/-- The connection after `disableAll()` and `connectionCallback_`, where it
leaves the open states. -/
def disconnected (c : TcpConnection) (p : EPollPoller) : TcpConnection :=
  (rewire { c with state := .kDisconnected } p kNoneEvent).emit
    (.connectionCallback .kDisconnected)

/-- Both ways out of the open states do the same to the channel. -/
theorem disableAll_spec {c : TcpConnection} (h : c.channel.Tracked c.loop) :
    ∃ p, ({ c with state := .kDisconnected }.onChannel Channel.disableAll >>= fun d =>
        (.ok (d.emit (.connectionCallback d.state)) : Except Fault TcpConnection)) =
          .ok (c.disconnected p) ∧
      (c.disconnected p).channel.Tracked (c.disconnected p).loop ∧ p.calls =
        c.loop.poller.calls ++ [(Channel.ctlOp c.channel.index kNoneEvent, c.channel.fd)] := by
  obtain ⟨p, hon, htracked, hcalls⟩ := onChannel_setEvents Channel.disableAll
    (c := { c with state := .kDisconnected }) h rfl
  refine ⟨p, ?_, htracked, hcalls⟩
  rw [hon]
  rfl

theorem closeChannel_of_open {c : TcpConnection}
    (hopen : c.state = .kConnected ∨ c.state = .kDisconnecting) :
    c.closeChannel = { c with state := .kDisconnected }.onChannel Channel.disableAll >>= fun d =>
      .ok (d.emit (.connectionCallback d.state)) := by
  rw [closeChannel, check_of hopen]
  rfl

theorem leaveConnected_of_connected {c : TcpConnection} (hconn : c.state = .kConnected) :
    c.leaveConnected = { c with state := .kDisconnected }.onChannel Channel.disableAll >>= fun d =>
      .ok (d.emit (.connectionCallback d.state)) := by
  rw [leaveConnected, if_pos hconn]
  rfl

/-! ## reading -/

theorem outcome_readInput {c : TcpConnection} (h : c.inputBuffer.WF) (io : ReadvResult) :
    Outcome (fun r : TcpConnection × Int => ∃ b, b.WF ∧
        (r.1 = { c with inputBuffer := b } ∨
          r.1 = emit { c with inputBuffer := b } .messageCallback))
      (· = .buffer .lengthError) (c.readInput io) := by
  have hread : Outcome (fun r : Buffer × Int => r.1.WF) (· = Fault.buffer .lengthError)
      ((c.inputBuffer.readFd (io.upTo c.inputBuffer.offered)).mapError .buffer) := by
    cases io with
    | failed errno => exact .ok h
    | received data =>
      have hlen : (data.take c.inputBuffer.offered).length ≤ c.inputBuffer.offered :=
        length_take_le _ _
      exact ((outcome_readFd h hlen).mono (fun r hr => hr.1) fun e he => he).mapError
        fun e he => congrArg Fault.buffer he
  rw [readInput]
  refine hread.bind fun r hr => ?_
  obtain ⟨b, n⟩ := r
  by_cases hn : 0 < n
  · exact .ok ⟨b, hr, .inr (by simp [hn])⟩
  · exact .ok ⟨b, hr, .inl (by simp [hn])⟩

end Muduo.TcpConnection
