import Muduo.TcpConnection.Lifecycle

/-!
# Muduo.TcpConnection.Closed

A connection after `handleClose`, while its user still holds it.

`send`, `shutdown` and `forceClose` test `state_` and leave a closed
connection alone.  `startReadInLoop` and `stopReadInLoop` do not: they test
`reading_` and the interest of the channel, which `handleClose` has cleared
without touching `reading_`.
-/

namespace Muduo.TcpConnection

open Lib Buffer

/-- The public calls, on the loop thread. -/
inductive PublicCall
  | send (message : CharRange) (io : WriteResult)
  | shutdown
  | forceClose
  | startRead
  | stopRead
deriving DecidableEq

def call (c : TcpConnection) : PublicCall → Except Fault TcpConnection
  | .send message io => c.send message io
  | .shutdown => .ok c.shutdown
  | .forceClose => .ok c.forceClose
  | .startRead => c.startReadInLoop
  | .stopRead => c.stopReadInLoop

/-- What happens to a connection before `handleClose`. -/
inductive OpenEvent
  | call (p : PublicCall)
  | read (io : ReadvResult)
  | write (io : WriteResult)

def openStep (c : TcpConnection) : OpenEvent → Except Fault TcpConnection
  | .call p => c.call p
  | .read io => do
    let (c, _) ← c.readInput io
    return c
  | .write io => c.handleWrite io

/-- The number of times the descriptor was registered with the kernel. -/
def registrations (c : TcpConnection) : Nat := c.loop.poller.calls.count (.add, c.channel.fd)

/-- The connection is closed: no interest, and no registration after the
first `n`. -/
def StillClosed (n : Nat) (c : TcpConnection) : Prop :=
  c.state = .kDisconnected ∧ c.channel.isNoneEvent = true ∧ c.registrations = n

/-! ## while the connection is open -/

structure OpenInv (c : TcpConnection) : Prop where
  steady : c.Steady c.reading
  input : c.inputBuffer.WF
  state : c.state = .kConnected ∨ c.state = .kDisconnecting

section
variable {c : TcpConnection}

theorem OpenInv.of_rest (h : OpenInv c) {c' : TcpConnection} (hrest : c'.rest = c.rest)
    (hsteady : c'.Steady c.reading) : OpenInv c' := by
  have hreading : c'.reading = c.reading := congrArg Rest.reading hrest
  have hinput : c'.inputBuffer = c.inputBuffer := congrArg Rest.inputBuffer hrest
  constructor
  · rw [hreading]
    exact hsteady
  · rw [hinput]
    exact h.input
  · rw [state_eq_of_rest hrest]
    exact h.state

theorem OpenInv.index_of_reading (h : OpenInv c) (hreading : c.reading = true) :
    c.channel.index = .kAdded := by
  rw [h.steady.index, Channel.openIndex, h.steady.events,
    if_neg (interest_ne_none _ _ (.inl hreading))]

theorem OpenInv.startRead (h : OpenInv c) : ∃ c', c.startReadInLoop = .ok c' ∧ OpenInv c' := by
  rw [startReadInLoop, h.steady.isReading]
  cases hreading : c.reading with
  | true => exact ⟨c, rfl, h⟩
  | false =>
    obtain ⟨p, hon, htracked, -⟩ := onChannel_setEvents Channel.enableReading
      h.steady.tracked rfl
    have hevents : c.channel.events.union kReadEvent =
        interest true (decide (c.outputBuffer.content ≠ [])) := by
      rw [h.steady.events, interest_union_read]
    rw [if_pos (show (!false || !false) = true from rfl), hon]
    refine ⟨_, rfl, ⟨htracked, ?_, h.steady.wf, hevents⟩, h.input, h.state⟩
    show Channel.nextIndex _ (c.channel.events.union kReadEvent) = Channel.openIndex _
    rw [hevents]
    exact Channel.nextIndex_eq_openIndex (.inr (interest_ne_none _ _ (.inl rfl)))

theorem OpenInv.stopRead (h : OpenInv c) : ∃ c', c.stopReadInLoop = .ok c' ∧ OpenInv c' := by
  rw [stopReadInLoop, h.steady.isReading]
  cases hreading : c.reading with
  | false => exact ⟨c, rfl, h⟩
  | true =>
    obtain ⟨p, hon, htracked, -⟩ := onChannel_setEvents Channel.disableReading
      h.steady.tracked rfl
    have hevents : c.channel.events.minus kReadEvent =
        interest false (decide (c.outputBuffer.content ≠ [])) := by
      rw [h.steady.events, interest_minus_read]
    rw [if_pos (show (true || true) = true from rfl), hon]
    refine ⟨_, rfl, ⟨htracked, ?_, h.steady.wf, hevents⟩, h.input, h.state⟩
    exact Channel.nextIndex_eq_openIndex (.inl (h.index_of_reading hreading))

theorem OpenInv.outcome_call (h : OpenInv c) (p : PublicCall) :
    Outcome OpenInv LengthError (c.call p) := by
  cases p with
  | send message io =>
    simp only [call, TcpConnection.send]
    by_cases hconn : c.state = .kConnected
    · have hne : c.state ≠ .kDisconnected := by simp [hconn]
      rw [if_pos hconn]
      exact (outcome_sendInLoop h.steady hne message.length_le).mono
        (fun c' hc => h.of_rest hc.rest hc.steady) fun f hf => hf.1
    · rw [if_neg hconn]
      exact .ok h
  | shutdown =>
    simp only [call, TcpConnection.shutdown, shutdownInLoop]
    split
    · split
      · exact .ok ⟨h.steady.congr rfl rfl rfl, h.input, .inr rfl⟩
      · exact .ok ⟨h.steady.congr rfl rfl rfl, h.input, .inr rfl⟩
    · exact .ok h
  | forceClose =>
    rw [call, TcpConnection.forceClose, if_pos h.state]
    exact .ok ⟨h.steady.congr rfl rfl rfl, h.input, .inr rfl⟩
  | startRead =>
    obtain ⟨c', hstart, hinv⟩ := h.startRead
    rw [call, hstart]
    exact .ok hinv
  | stopRead =>
    obtain ⟨c', hstop, hinv⟩ := h.stopRead
    rw [call, hstop]
    exact .ok hinv

/-- **Step.** What happens to an open connection keeps `reading_` and the
interest of the channel in step. -/
theorem step_open (h : OpenInv c) (e : OpenEvent) : Outcome OpenInv LengthError (c.openStep e) := by
  cases e with
  | call p => exact h.outcome_call p
  | read io =>
    refine (outcome_readInput h.input io).bind fun r hread => .ok ?_
    obtain ⟨b, hwf, hc⟩ := hread
    cases hc with
    | inl hc =>
      rw [hc]
      exact ⟨h.steady.congr rfl rfl rfl, hwf, h.state⟩
    | inr hc =>
      rw [hc]
      exact ⟨h.steady.congr rfl rfl rfl, hwf, h.state⟩
  | write io =>
    obtain ⟨c', hwrite, hdrains⟩ := handleWrite_spec h.steady io
    rw [openStep, hwrite]
    exact .ok (h.of_rest hdrains.rest hdrains.steady)

/-! ## after the close -/

/-- A closed connection with `n` registrations so far. -/
structure ClosedInv (n : Nat) (c : TcpConnection) : Prop where
  tracked : c.channel.Tracked c.loop
  state : c.state = .kDisconnected
  events : c.channel.events = kNoneEvent
  index : c.reading = true → c.channel.index = .kDeleted
  registrations : c.registrations = n

variable {n : Nat}

theorem ClosedInv.stillClosed (h : ClosedInv n c) : StillClosed n c :=
  ⟨h.state, by simp [Channel.isNoneEvent, h.events], h.registrations⟩

/-- `handleClose` of an open connection; `reading_` keeps its value. -/
theorem OpenInv.handleClose (h : OpenInv c) :
    ∃ c', c.handleClose = .ok c' ∧ c'.reading = c.reading ∧ ClosedInv c'.registrations c' := by
  obtain ⟨p, hclose, htracked, -⟩ := disableAll_spec h.steady.tracked
  rw [TcpConnection.handleClose, closeChannel_of_open h.state, hclose]
  refine ⟨_, rfl, rfl, htracked, rfl, rfl, ?_, rfl⟩
  intro hreading
  show Channel.nextIndex c.channel.index kNoneEvent = .kDeleted
  rw [h.index_of_reading hreading]
  rfl

theorem ClosedInv.call_eq (h : ClosedInv n c) {p : PublicCall} (hstart : p ≠ .startRead)
    (hstop : p = .stopRead → c.reading = false) : c.call p = .ok c := by
  have hstate := h.state
  cases p with
  | send message io => simp [call, TcpConnection.send, hstate]
  | shutdown => simp [call, TcpConnection.shutdown, hstate]
  | forceClose => simp [call, TcpConnection.forceClose, hstate]
  | startRead => contradiction
  | stopRead =>
    have hreading : c.channel.isReading = false := by
      rw [Channel.isReading, h.events]
      rfl
    rw [call, stopReadInLoop, hreading, hstop rfl]
    rfl

theorem ClosedInv.startRead {n m : Nat} (h : ClosedInv n c) :
    ∃ c', c.call .startRead = .ok c' ∧ ¬ StillClosed m c' := by
  obtain ⟨p, hon, -, -⟩ := onChannel_setEvents Channel.enableReading h.tracked rfl
  have hreading : c.channel.isReading = false := by
    rw [Channel.isReading, h.events]
    rfl
  rw [call, startReadInLoop, if_pos (by simp [hreading]), hon]
  refine ⟨_, rfl, fun hstill => ?_⟩
  have hnone : (c.channel.updated (c.channel.events.union kReadEvent)).isNoneEvent = true :=
    hstill.2.1
  rw [h.events] at hnone
  contradiction

/-- `stopRead` of a connection that was reading updates a channel that the
poller has deleted: the descriptor is registered again. -/
theorem ClosedInv.stopRead (h : ClosedInv n c) (hreading : c.reading = true) :
    ∃ c', c.call .stopRead = .ok c' ∧ ¬ StillClosed n c' := by
  obtain ⟨p, hon, -, hcalls⟩ := onChannel_setEvents Channel.disableReading h.tracked rfl
  rw [call, stopReadInLoop, if_pos (by simp [hreading]), hon]
  refine ⟨_, rfl, fun hstill => ?_⟩
  have hcount : p.calls.count (.add, c.channel.fd) = n := hstill.2.2
  have hold : c.loop.poller.calls.count (.add, c.channel.fd) = n := h.registrations
  rw [hcalls, h.index hreading, List.count_append, hold] at hcount
  simp [Channel.ctlOp] at hcount

/-- **Calls on a closed connection.** -/
theorem ClosedInv.always_iff (h : ClosedInv n c) (calls : List PublicCall) :
    Always call (StillClosed n) c calls ↔
      .startRead ∉ calls ∧ (c.reading = true → .stopRead ∉ calls) := by
  -- the connection does not change up to the first call that reopens it
  induction calls with
  | nil => simp [Always, h.stillClosed]
  | cons p calls ih =>
    by_cases hstart : p = .startRead
    · obtain ⟨c', hcall, hopen⟩ := h.startRead (m := n)
      rw [hstart, always_cons hcall]
      exact ⟨fun hall => absurd hall.2.head hopen, fun hno => absurd List.mem_cons_self hno.1⟩
    · by_cases hstop : p = .stopRead ∧ c.reading = true
      · obtain ⟨c', hcall, hopen⟩ := h.stopRead hstop.2
        rw [hstop.1, always_cons hcall]
        exact ⟨fun hall => absurd hall.2.head hopen,
          fun hno => absurd List.mem_cons_self (hno.2 hstop.2)⟩
      · have hsame : c.call p = .ok c := h.call_eq hstart fun hp => by simpa [hp] using hstop
        rw [always_cons hsame, ih]
        have hstart' : .startRead ≠ p := fun hp => hstart hp.symm
        have hstop' : c.reading = true → .stopRead ≠ p := fun hr hp => hstop ⟨hp.symm, hr⟩
        simp only [List.mem_cons, not_or]
        exact ⟨fun hall => ⟨⟨hstart', hall.2.1⟩, fun hr => ⟨hstop' hr, hall.2.2 hr⟩⟩,
          fun hno => ⟨h.stillClosed, hno.1.2, fun hr => (hno.2 hr).2⟩⟩

end

theorem OpenInv.of_established {loop : EventLoop} {addr : Nat} {c : TcpConnection}
    (h : Established loop addr c) : OpenInv c := by
  obtain ⟨b, hwf, hrest⟩ := h.rest
  have hstate : c.state = .kConnected := congrArg Rest.state hrest
  have hreading : c.reading = true := congrArg Rest.reading hrest
  have hinput : c.inputBuffer = b := congrArg Rest.inputBuffer hrest
  constructor
  · rw [hreading]
    exact h.steady
  · rw [hinput]
    exact hwf
  · exact .inl hstate

/-- **A closed connection stays closed** over a sequence of public calls, in
every state of it, if and only if none of the calls is `startRead`, and none
is `stopRead` in case the connection was reading when `handleClose` was
called. -/
theorem stays_closed_iff {loop : EventLoop} {fd : Nat} (hfd : Unused loop fd) (addr : Nat)
    (cb : Callbacks) (es : List OpenEvent) (calls : List PublicCall) :
    Outcome (fun c => ∃ c', c.handleClose = .ok c' ∧
        (Always call (StillClosed c'.registrations) c' calls ↔
          .startRead ∉ calls ∧ (c.reading = true → .stopRead ∉ calls)))
      LengthError (establish loop addr fd cb >>= fun c => run openStep c es) := by
  obtain ⟨c, hc, hnew⟩ := establish_spec hfd addr cb
  rw [hc]
  refine (Outcome.run_all (fun c e h => step_open h e) (OpenInv.of_established hnew) es).mono
    (fun c h => ?_) fun f hf => hf
  obtain ⟨c', hclose, hreading, hclosed⟩ := h.handleClose
  refine ⟨c', hclose, ?_⟩
  rw [hclosed.always_iff, hreading]

theorem stays_closed_iff_send :
    ∃ c', freshConn.handleClose = .ok c' ∧
      Always call (StillClosed c'.registrations) c' [.send ⟨[1], by decide⟩ (.wrote 1), .forceClose] := by
  have hall := stays_closed_iff unused_idleLoop 1 ⟨false, none⟩ []
    [.send ⟨[1], by decide⟩ (.wrote 1), .forceClose]
  rw [establish_freshConn] at hall
  obtain ⟨c', hclose, hiff⟩ := hall.of_ok rfl
  exact ⟨c', hclose, hiff.mpr (by decide)⟩

/-- **Reopened.** After `handleClose`, `startRead` registers the descriptor
with the poller again, and `Channel::remove` fails in `connectDestroyed`. -/
theorem startRead_reopens :
    establish idleLoop 1 5 ⟨false, none⟩ = .ok freshConn ∧
    ∃ c c', freshConn.handleClose = .ok c ∧ StillClosed 1 c ∧ c.call .startRead = .ok c' ∧
      c'.channel.events = kReadEvent ∧ c'.registrations = 2 ∧
      c'.connectDestroyed = .error (.channel (.assertion .removeNoneEvent)) :=
  ⟨establish_freshConn, _, _, rfl, ⟨rfl, rfl, rfl⟩, rfl, rfl, rfl, rfl⟩

end Muduo.TcpConnection
