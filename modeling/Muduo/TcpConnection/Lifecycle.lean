import Muduo.TcpConnection.Shutdown

/-!
# Muduo.TcpConnection.Lifecycle

The life of a connection, from establishment to `connectDestroyed`.

The loop thread is modelled at the grain at which user code can run: the
poller reports events, the callbacks of the channel run one after the other,
`handleClose` calls `connectionCallback_` before `closeCallback_`, queued
functors run between the iterations; `send`, `shutdown` and `forceClose` may
be called at any of these points, and `connectDestroyed` may come at any of
them from the destructor of the server.
-/

namespace Muduo.TcpConnection

open Lib Buffer

/-- What remains to be called of the handler that is running. -/
inductive Phase
  | callback (cb : Channel.EventCallback)
  | closeCallback
deriving DecidableEq

/-- `revents` are the events that the poller reported and that are not
handled yet, `todo` is the rest of the handler that is running. -/
structure LifeState where
  conn : TcpConnection
  revents : Option Events
  todo : List Phase

/-- The events that the kernel may report for the interest set `ev`: those in
it, `POLLERR` and `POLLHUP`, the last with `POLLIN` while reading is on. -/
def Reportable (ev revents : Events) : Prop :=
  (revents.pollIn = true → ev.pollIn = true) ∧
  (revents.pollPri = true → ev.pollPri = true) ∧
  (revents.pollOut = true → ev.pollOut = true) ∧
  revents.pollNval = false ∧ revents.pollRdhup = false ∧
  (revents.pollHup = true → ev.meets kReadEvent = true → revents.pollIn = true)

instance (ev revents : Events) : Decidable (Reportable ev revents) :=
  inferInstanceAs (Decidable (_ ∧ _))

/-- The steps of the loop thread. -/
inductive LifeEvent
  /-- `poll()` returns, with or without events for this connection. -/
  | poll (revents : Option Events)
  /-- `Channel::handleEvent` of this connection starts. -/
  | beginEvent
  /-- The next callback of the handler that is running. -/
  | phase (rio : ReadvResult) (wio : WriteResult)
  /-- The loop goes on to another channel. -/
  | endEvent
  /-- All active channels are handled. -/
  | endPoll
  | runFunctor (io : WriteResult)
  | send (message : CharRange) (io : WriteResult)
  | shutdown
  | forceClose
  | forceCloseWithDelay

namespace LifeState

/-- Change the members of the loop. -/
def onLoop (s : LifeState) (f : EventLoop → EventLoop) : LifeState :=
  { s with conn := { s.conn with loop := f s.conn.loop } }

/-- The loop is between its iterations: it polls, or runs functors. -/
def betweenEvents (s : LifeState) : Bool :=
  !s.conn.loop.eventHandling && s.todo.isEmpty && s.revents.isNone

theorem todo_of_betweenEvents {s : LifeState} (h : s.betweenEvents = true) :
    s.todo = [] ∧ s.revents = none := by
  simp only [betweenEvents, Bool.and_eq_true, List.isEmpty_iff, Option.isNone_iff_eq_none] at h
  exact ⟨h.1.2, h.2⟩

/-- One callback of the handler that is running. -/
def runPhase (c : TcpConnection) (rio : ReadvResult) (wio : WriteResult) :
    Phase → Except Fault (TcpConnection × List Phase)
  | .callback .close => do
    let c ← c.closeChannel
    return (c, [.closeCallback])
  | .closeCallback => .ok (c.emit .closeCallback, [])
  | .callback .error => .ok (c, [])
  | .callback .read => do
    let (c, n) ← c.readInput rio
    return (c, if n = 0 then [.callback .close] else [])
  | .callback .write => do
    let c ← c.handleWrite wio
    return (c, [])

/-- One step of the loop thread; a step that is not enabled changes
nothing. -/
def step (s : LifeState) : LifeEvent → Except Fault LifeState
  | .poll none => .ok (if s.betweenEvents then
      s.onLoop fun l => { l with
        eventHandling := true, activeChannels := [], currentActiveChannel := none }
      else s)
  | .poll (some revents) => .ok (match s.conn.loop.poller.kernel s.conn.channel.fd with
      | some ev => if s.betweenEvents && decide (Reportable ev revents) then
          { s with revents := some revents }.onLoop fun l => { l with
            eventHandling := true, activeChannels := [s.conn.channel.addr]
            currentActiveChannel := none }
          else s
      | none => s)
  | .beginEvent => .ok (match s.revents with
      | some revents =>
        { s with
          revents := none
          todo := (Channel.handleEventWithGuard revents).map .callback }.onLoop fun l =>
            { l with currentActiveChannel := some s.conn.channel.addr }
      | none => s)
  | .phase rio wio => match s.todo with
      | [] => .ok s
      | ph :: rest => do
        let (c, more) ← runPhase s.conn rio wio ph
        return { s with conn := c, todo := more ++ rest }
  | .endEvent => .ok (if s.todo.isEmpty then
      s.onLoop fun l => { l with currentActiveChannel := none } else s)
  | .endPoll => .ok (if s.todo.isEmpty && s.revents.isNone then
      s.onLoop fun l => { l with eventHandling := false, currentActiveChannel := none } else s)
  | .runFunctor io => if s.betweenEvents then match s.conn.pendingFunctors with
      | [] => .ok s
      | f :: fs =>
        if f = .forceCloseInLoop then
          -- `forceCloseInLoop` tests `state_` and calls `handleClose`
          .ok { s with
            conn := { s.conn with pendingFunctors := fs }
            todo := if s.conn.state = .kConnected ∨ s.conn.state = .kDisconnecting then
              [.callback .close] else [] }
        else do
          let c ← { s.conn with pendingFunctors := fs }.runFunctor f io
          return { s with conn := c }
      else .ok s
  | .send message io => do
    let c ← s.conn.send message io
    return { s with conn := c }
  | .shutdown => .ok { s with conn := s.conn.shutdown }
  | .forceClose => .ok { s with conn := s.conn.forceClose }
  | .forceCloseWithDelay => .ok { s with conn := s.conn.forceCloseWithDelay }

end LifeState

/-! ## the invariant -/

/-- The callbacks that mark the life of a connection. -/
def Effect.isLife : Effect → Bool
  | .connectionCallback _ | .closeCallback => true
  | _ => false

def lifeLog (log : List Effect) : List Effect := log.filter Effect.isLife

@[simp] theorem lifeLog_append (l l' : List Effect) :
    lifeLog (l ++ l') = lifeLog l ++ lifeLog l' := List.filter_append ..

theorem lifeLog_of_none {l : List Effect} (h : ∀ e ∈ l, e.isLife = false) : lifeLog l = [] := by
  rw [lifeLog, List.filter_eq_nil_iff]
  intro e he
  simp [h e he]

variable {e : Effect} {data : List UInt8} {io : WriteResult} {reading : Bool}

theorem lifeLog_emit {c : TcpConnection} (he : e.isLife = false) :
    lifeLog (c.emit e).log = lifeLog c.log := by
  have hnone : lifeLog [e] = [] := lifeLog_of_none (by simpa using he)
  rw [emit_log, lifeLog_append, hnone, List.append_nil]

/-- The phases that can call `handleClose`. -/
def Phase.closes : Phase → Bool
  | .callback .close | .callback .read => true
  | _ => false

/-- The `closeCallback_` that is still to be called. -/
def Phase.life? : Phase → Option Effect
  | .closeCallback => some .closeCallback
  | _ => none

/-- An open connection: only one callback to come can close it. -/
structure LifeOpen (s : LifeState) : Prop where
  steady : s.conn.Steady true
  input : s.conn.inputBuffer.WF
  state : s.conn.state = .kConnected ∨ s.conn.state = .kDisconnecting
  life : lifeLog s.conn.log = [.connectionCallback .kConnected]
  closers : s.todo.countP Phase.closes ≤ 1
  noLife : s.todo.filterMap Phase.life? = []
  hup : ∀ r, s.revents = some r → (r.pollHup = true → r.pollIn = true) ∧ s.todo = []

/-- A closed connection: the poller reports nothing any more, and
`closeCallback_` was called or is about to be. -/
structure LifeClosed (s : LifeState) : Prop where
  tracked : s.conn.channel.Tracked s.conn.loop
  index : s.conn.channel.index = .kDeleted
  events : s.conn.channel.events = kNoneEvent
  state : s.conn.state = .kDisconnected
  life : lifeLog s.conn.log ++ s.todo.filterMap Phase.life? =
    [.connectionCallback .kConnected, .connectionCallback .kDisconnected, .closeCallback]
  closers : s.todo.countP Phase.closes = 0
  handled : s.revents = none

def LifeInv (s : LifeState) : Prop := LifeOpen s ∨ LifeClosed s

/-! ## what keeps the connection open or closed -/

/-- The failure that any growth of a buffer can end in. -/
def LengthError (f : Fault) : Prop := f = .buffer .lengthError

theorem isLife_of_isWrite (h : e.isWrite = true) : e.isLife = false := by
  cases e <;> simp_all [Effect.isWrite, Effect.isLife]

theorem Sends.lifeLog_eq {c c' : TcpConnection}
    (h : Sends reading c data io c') : lifeLog c'.log = lifeLog c.log := by
  obtain ⟨ws, hlog, hws, -⟩ := h.log
  rw [hlog, lifeLog_append, lifeLog_of_none fun e he => isLife_of_isWrite (hws e he),
    List.append_nil]

theorem Drains.lifeLog_eq {c c' : TcpConnection}
    (h : Drains reading c io c') : lifeLog c'.log = lifeLog c.log := by
  obtain ⟨ws, hlog, hshape, -⟩ := h.log
  have hws : lifeLog ws = [] := by
    cases hshape with
    | idle _ => rfl
    | wrote _ _ => rfl
    | halfClosed _ _ _ => rfl
  rw [hlog, lifeLog_append, hws, List.append_nil]

variable {loop : EventLoop}

/-- The flags of the loop do not matter to the output. -/
theorem Steady.withFlags {c : TcpConnection} (h : c.Steady reading)
    (hp : loop.poller = c.loop.poller) : Steady reading { c with loop := loop } := by
  constructor
  · have htracked := h.tracked
    simp only [Channel.Tracked] at htracked ⊢
    rw [hp]
    exact htracked
  · exact h.index
  · exact h.wf
  · exact h.events

section
variable {s : LifeState} {c : TcpConnection}

theorem LifeOpen.withConn (h : LifeOpen s) (hsteady : c.Steady true) (hinput : c.inputBuffer.WF)
    (hstate : c.state = .kConnected ∨ c.state = .kDisconnecting)
    (hlife : lifeLog c.log = lifeLog s.conn.log) : LifeOpen { s with conn := c } :=
  ⟨hsteady, hinput, hstate, hlife.trans h.life, h.closers, h.noLife, h.hup⟩

theorem LifeOpen.withLoop (h : LifeOpen s) (f : EventLoop → EventLoop)
    (hf : (f s.conn.loop).poller = s.conn.loop.poller) : LifeOpen (s.onLoop f) :=
  h.withConn (h.steady.withFlags hf) h.input h.state rfl

theorem LifeClosed.withLoop (h : LifeClosed s) (f : EventLoop → EventLoop)
    (hf : (f s.conn.loop).poller = s.conn.loop.poller) : LifeClosed (s.onLoop f) := by
  refine ⟨?_, h.index, h.events, h.state, h.life, h.closers, h.handled⟩
  have htracked := h.tracked
  simp only [Channel.Tracked] at htracked ⊢
  rw [LifeState.onLoop, hf]
  exact htracked

theorem LifeInv.withLoop (h : LifeInv s) (f : EventLoop → EventLoop)
    (hf : (f s.conn.loop).poller = s.conn.loop.poller) : LifeInv (s.onLoop f) :=
  h.imp (fun hopen => hopen.withLoop f hf) fun hclosed => hclosed.withLoop f hf

theorem LifeOpen.of_sends (h : LifeOpen s)
    (hs : Sends true s.conn data io c) : LifeOpen { s with conn := c } := by
  have hinput : c.inputBuffer = s.conn.inputBuffer := congrArg Rest.inputBuffer hs.rest
  have hstate := state_eq_of_rest hs.rest
  exact h.withConn hs.steady (by rw [hinput]; exact h.input) (by rw [hstate]; exact h.state)
    hs.lifeLog_eq

theorem LifeOpen.of_drains (h : LifeOpen s)
    (hd : Drains true s.conn io c) : LifeOpen { s with conn := c } := by
  have hinput : c.inputBuffer = s.conn.inputBuffer := congrArg Rest.inputBuffer hd.rest
  have hstate := state_eq_of_rest hd.rest
  exact h.withConn hd.steady (by rw [hinput]; exact h.input) (by rw [hstate]; exact h.state)
    hd.lifeLog_eq

theorem LifeOpen.index (h : LifeOpen s) : s.conn.channel.index = .kAdded := by
  rw [h.steady.index, Channel.openIndex, h.steady.events,
    if_neg (interest_ne_none _ _ (.inl rfl))]

theorem LifeOpen.outcome_sendInLoop (h : LifeOpen s) (hlen : data.length ≤ maxSize)
    (io : WriteResult) :
    Outcome (fun c => LifeOpen { s with conn := c }) LengthError (s.conn.sendInLoop data io) := by
  have hstate := ne_kDisconnected h.state
  exact (TcpConnection.outcome_sendInLoop h.steady hstate hlen).mono (fun c hc => h.of_sends hc)
    fun f hf => hf.1

variable {rest : List Phase}

/-- **The close.** `handleClose` of an open connection, up to
`connectionCallback_`. -/
theorem LifeOpen.close (h : LifeOpen s) (htodo : s.todo = .callback .close :: rest)
    (hr : s.revents = none) :
    ∃ c, s.conn.closeChannel = .ok c ∧
      LifeClosed { s with conn := c, todo := .closeCallback :: rest } := by
  obtain ⟨p, hclose, htracked, -⟩ := disableAll_spec h.steady.tracked
  have hclosers := h.closers
  have hnoLife := h.noLife
  rw [htodo] at hclosers hnoLife
  refine ⟨_, (closeChannel_of_open h.state).trans hclose, ?_⟩
  constructor
  · exact htracked
  · show Channel.nextIndex s.conn.channel.index kNoneEvent = .kDeleted
    rw [h.index]
    rfl
  · rfl
  · rfl
  · have hrest : rest.filterMap Phase.life? = [] := hnoLife
    show lifeLog (s.conn.log ++ [.connectionCallback .kDisconnected]) ++
      .closeCallback :: rest.filterMap Phase.life? = _
    rw [lifeLog_append, h.life, hrest]
    rfl
  · simp only [List.countP_cons, Phase.closes] at hclosers ⊢
    simp at hclosers ⊢
    omega
  · exact hr

variable {ph : Phase} {revents : Events}

/-- The handler goes on with `more` in place of its callback `ph`, on a
connection that is still open. -/
theorem LifeOpen.resume (h : LifeOpen { s with conn := c }) {rest more : List Phase}
    (htodo : s.todo = ph :: rest) (hr : s.revents = none)
    (hmore : more.countP Phase.closes ≤ if ph.closes then 1 else 0)
    (hlife : more.filterMap Phase.life? = []) (hlife' : rest.filterMap Phase.life? = []) :
    LifeOpen { s with conn := c, todo := more ++ rest } := by
  have hclosers : s.todo.countP Phase.closes ≤ 1 := h.closers
  rw [htodo, List.countP_cons] at hclosers
  refine ⟨h.steady, h.input, h.state, h.life, ?_, ?_, ?_⟩
  · rw [List.countP_append]
    omega
  · rw [List.filterMap_append, hlife, hlife']
    rfl
  · intro r hsome
    simp only [hr] at hsome
    contradiction

theorem LifeOpen.outcome_runPhase (h : LifeOpen s) (htodo : s.todo = ph :: rest)
    (rio : ReadvResult) (wio : WriteResult) :
    Outcome (fun r => LifeInv { s with conn := r.1, todo := r.2 ++ rest }) LengthError
      (LifeState.runPhase s.conn rio wio ph) := by
  have hr : s.revents = none := by
    cases hrev : s.revents with
    | none => rfl
    | some r =>
      have hnil := (h.hup r hrev).2
      rw [htodo] at hnil
      contradiction
  have hnoLife := h.noLife
  rw [htodo] at hnoLife
  cases ph with
  | closeCallback => exact absurd hnoLife (by simp [Phase.life?])
  | callback cb =>
    have hlife' : rest.filterMap Phase.life? = [] := hnoLife
    cases cb with
    | close =>
      obtain ⟨c, hc, hclosed⟩ := h.close htodo hr
      rw [LifeState.runPhase, hc]
      exact .ok (.inr hclosed)
    | error => exact .ok (.inl (h.resume htodo hr (Nat.zero_le _) rfl hlife'))
    | read =>
      rw [LifeState.runPhase]
      refine (outcome_readInput h.input rio).bind fun r hread => ?_
      obtain ⟨c, n⟩ := r
      obtain ⟨b, hwf, hc⟩ := hread
      have hopen : LifeOpen { s with conn := c } := by
        cases hc with
        | inl hc =>
          rw [show c = _ from hc]
          exact h.withConn (h.steady.congr rfl rfl rfl) hwf h.state rfl
        | inr hc =>
          rw [show c = _ from hc]
          refine h.withConn (h.steady.congr rfl rfl rfl) hwf h.state ?_
          simp [lifeLog, Effect.isLife]
      refine .ok (.inl (hopen.resume htodo hr ?_ ?_ hlife'))
      · by_cases hn : n = 0 <;> simp [hn, Phase.closes]
      · by_cases hn : n = 0 <;> simp [hn, Phase.life?]
    | write =>
      obtain ⟨c, hc, hdrains⟩ := handleWrite_spec h.steady wio
      rw [LifeState.runPhase, hc]
      exact .ok (.inl ((h.of_drains hdrains).resume htodo hr (Nat.zero_le _) rfl hlife'))

/-- On a closed connection the handler only has `closeCallback_` to call:
there is nothing to read or write. -/
theorem LifeClosed.outcome_runPhase (h : LifeClosed s) (htodo : s.todo = ph :: rest)
    (rio : ReadvResult) (wio : WriteResult) :
    Outcome (fun r => LifeInv { s with conn := r.1, todo := r.2 ++ rest }) LengthError
      (LifeState.runPhase s.conn rio wio ph) := by
  have hclosers := h.closers
  have hlife := h.life
  rw [htodo, List.countP_cons] at hclosers
  rw [htodo] at hlife
  have hrest : rest.countP Phase.closes = 0 := by omega
  cases ph with
  | closeCallback =>
    refine .ok (.inr { h with life := ?_, closers := hrest })
    rw [← hlife]
    show lifeLog (s.conn.log ++ [.closeCallback]) ++ rest.filterMap Phase.life? = _
    rw [lifeLog_append, List.append_assoc]
    rfl
  | callback cb =>
    cases cb with
    | close => simp [Phase.closes] at hclosers
    | read => simp [Phase.closes] at hclosers
    | error => exact .ok (.inr { h with life := hlife, closers := hrest })
    | write =>
      have hwriting : s.conn.channel.isWriting = false := by
        rw [Channel.isWriting, h.events]
        rfl
      have hnone : s.conn.handleWrite wio = .ok s.conn := by simp [handleWrite, hwriting]
      rw [LifeState.runPhase, hnone]
      exact .ok (.inr { h with life := hlife, closers := hrest })

/-- A connection that stays closed whatever is queued or called. -/
theorem LifeClosed.withFunctors (h : LifeClosed s) (fs : List Functor) :
    LifeClosed { s with conn := { s.conn with pendingFunctors := fs } } :=
  { h with }

theorem LifeClosed.emit (h : LifeClosed s) (he : e.isLife = false) :
    LifeClosed { s with conn := s.conn.emit e } := by
  refine { h with life := ?_ }
  rw [lifeLog_emit he]
  exact h.life

theorem LifeOpen.withFunctors (h : LifeOpen s) (fs : List Functor) :
    LifeOpen { s with conn := { s.conn with pendingFunctors := fs } } :=
  h.withConn (h.steady.congr rfl rfl rfl) h.input h.state rfl

theorem LifeOpen.emit (h : LifeOpen s) (he : e.isLife = false) :
    LifeOpen { s with conn := s.conn.emit e } :=
  h.withConn (h.steady.congr rfl rfl rfl) h.input h.state (lifeLog_emit he)

theorem LifeInv.outcome_runFunctor (h : LifeInv s) {f : Functor} (hf : f ≠ .forceCloseInLoop)
    (fs : List Functor) (io : WriteResult) :
    Outcome (fun c => LifeInv { s with conn := c }) LengthError
      ({ s.conn with pendingFunctors := fs }.runFunctor f io) := by
  cases h with
  | inl hopen =>
    have hpop := hopen.withFunctors fs
    cases f with
    | sendInLoop message =>
      exact (hpop.outcome_sendInLoop message.length_le io).mono (fun c hc => .inl hc)
        fun _ he => he
    | forceCloseInLoop => contradiction
    | writeCompleteCallback => exact .ok (.inl (hpop.emit rfl))
    | highWaterMarkCallback len => exact .ok (.inl (hpop.emit rfl))
  | inr hclosed =>
    have hpop := hclosed.withFunctors fs
    cases f with
    | sendInLoop message =>
      rw [runFunctor, sendInLoop, if_pos hclosed.state]
      exact .ok (.inr hpop)
    | forceCloseInLoop => contradiction
    | writeCompleteCallback => exact .ok (.inr (hpop.emit rfl))
    | highWaterMarkCallback len => exact .ok (.inr (hpop.emit rfl))

theorem LifeOpen.shutdown (h : LifeOpen s) : LifeOpen { s with conn := s.conn.shutdown } := by
  rw [TcpConnection.shutdown]
  by_cases hconn : s.conn.state = .kConnected
  · have hmid : LifeOpen { s with conn := { s.conn with state := .kDisconnecting } } :=
      h.withConn (h.steady.congr rfl rfl rfl) h.input (.inr rfl) rfl
    rw [if_pos hconn, shutdownInLoop]
    split
    · exact hmid.emit rfl
    · exact hmid
  · rw [if_neg hconn]
    exact h

/-- The kernel reports nothing for a closed connection. -/
theorem LifeClosed.kernel_eq_none (h : LifeClosed s) :
    s.conn.loop.poller.kernel s.conn.channel.fd = none := by
  have htracked := h.tracked
  simp only [Channel.Tracked, h.index] at htracked
  exact htracked.2

theorem LifeInv.report (h : LifeInv s) {ev revents : Events}
    (hk : s.conn.loop.poller.kernel s.conn.channel.fd = some ev) (hrep : Reportable ev revents)
    (htodo : s.todo = []) : LifeInv { s with revents := some revents } := by
  cases h with
  | inr hclosed =>
    rw [hclosed.kernel_eq_none] at hk
    contradiction
  | inl hopen =>
    have htracked := hopen.steady.tracked
    simp only [Channel.Tracked, hopen.index] at htracked
    have hev : ev = s.conn.channel.events := Option.some.inj (hk.symm.trans htracked.2)
    have hread : ev.meets kReadEvent = true := by
      rw [hev]
      exact hopen.steady.isReading
    refine .inl { hopen with hup := fun r hr => ⟨fun hhup => ?_, htodo⟩ }
    obtain rfl : revents = r := Option.some.inj hr
    exact hrep.2.2.2.2.2 hhup hread

/-- With `POLLIN` beside every `POLLHUP`, only the read callback can close. -/
theorem countP_closes_handleEvent (h : revents.pollHup = true → revents.pollIn = true) :
    ((Channel.handleEventWithGuard revents).map Phase.callback).countP Phase.closes ≤ 1 := by
  have hclose : (revents.pollHup && !revents.pollIn) = false := by
    cases hh : revents.pollHup with
    | false => rfl
    | true => simp [h hh]
  simp only [Channel.handleEventWithGuard, hclose]
  cases revents.pollErr || revents.pollNval <;>
    cases revents.pollIn || revents.pollPri || revents.pollRdhup <;>
    cases revents.pollOut <;> decide

theorem filterMap_life_handleEvent (cbs : List Channel.EventCallback) :
    (cbs.map Phase.callback).filterMap Phase.life? = [] := by
  rw [List.filterMap_map, List.filterMap_eq_nil_iff]
  exact fun _ _ => rfl

theorem LifeInv.begin (h : LifeInv s) (hr : s.revents = some revents) :
    LifeInv { s with
      revents := none, todo := (Channel.handleEventWithGuard revents).map .callback } := by
  cases h with
  | inr hclosed =>
    rw [hclosed.handled] at hr
    contradiction
  | inl hopen =>
    refine .inl { hopen with
      closers := countP_closes_handleEvent (hopen.hup revents hr).1
      noLife := filterMap_life_handleEvent _
      hup := ?_ }
    intro r hnone
    contradiction

theorem LifeInv.forceCloseInLoop (h : LifeInv s) (htodo : s.todo = []) (hr : s.revents = none)
    (fs : List Functor) :
    LifeInv { s with
      conn := { s.conn with pendingFunctors := fs }
      todo := if s.conn.state = .kConnected ∨ s.conn.state = .kDisconnecting then
        [.callback .close] else [] } := by
  cases h with
  | inl hopen =>
    have hpop := hopen.withFunctors fs
    rw [if_pos hopen.state]
    refine .inl { hpop with closers := Nat.le_refl 1, noLife := rfl, hup := ?_ }
    intro r hsome
    rw [show s.revents = some r from hsome] at hr
    contradiction
  | inr hclosed =>
    have hpop := hclosed.withFunctors fs
    have hlife := hclosed.life
    rw [htodo] at hlife
    rw [if_neg (by simp [hclosed.state])]
    exact .inr { hpop with life := hlife, closers := rfl }

/-- **Step.** Every step of the loop thread leaves the connection open, or
closed once. -/
theorem step_life (h : LifeInv s) (e : LifeEvent) : Outcome LifeInv LengthError (s.step e) := by
  cases e with
  | poll revents =>
    cases revents with
    | none =>
      simp only [LifeState.step]
      split
      · exact .ok (h.withLoop _ rfl)
      · exact .ok h
    | some revents =>
      simp only [LifeState.step]
      cases hk : s.conn.loop.poller.kernel s.conn.channel.fd with
      | none => exact .ok h
      | some ev =>
        by_cases hcond : (s.betweenEvents && decide (Reportable ev revents)) = true
        · simp only [hcond, if_true]
          simp only [Bool.and_eq_true, decide_eq_true_eq] at hcond
          have htodo := (LifeState.todo_of_betweenEvents hcond.1).1
          exact .ok ((h.report hk hcond.2 htodo).withLoop _ rfl)
        · simp only [hcond]
          exact .ok h
  | beginEvent =>
    simp only [LifeState.step]
    cases hr : s.revents with
    | none => exact .ok h
    | some revents => exact .ok ((h.begin hr).withLoop _ rfl)
  | phase rio wio =>
    simp only [LifeState.step]
    cases htodo : s.todo with
    | nil => exact .ok h
    | cons ph rest =>
      refine Outcome.bind ?_ fun r hr => .ok hr
      cases h with
      | inl hopen => exact hopen.outcome_runPhase htodo rio wio
      | inr hclosed => exact hclosed.outcome_runPhase htodo rio wio
  | endEvent =>
    simp only [LifeState.step]
    split
    · exact .ok (h.withLoop _ rfl)
    · exact .ok h
  | endPoll =>
    simp only [LifeState.step]
    split
    · exact .ok (h.withLoop _ rfl)
    · exact .ok h
  | runFunctor io =>
    simp only [LifeState.step]
    by_cases hbetween : s.betweenEvents = true
    · rw [if_pos hbetween]
      obtain ⟨htodo, hr⟩ := LifeState.todo_of_betweenEvents hbetween
      cases s.conn.pendingFunctors with
      | nil => exact .ok h
      | cons f fs =>
        by_cases hf : f = .forceCloseInLoop
        · simp only [hf, if_true]
          exact .ok (h.forceCloseInLoop htodo hr fs)
        · simp only [hf, if_false]
          exact (h.outcome_runFunctor hf fs io).bind fun c hc => .ok hc
    · rw [if_neg hbetween]
      exact .ok h
  | send message io =>
    simp only [LifeState.step, TcpConnection.send]
    by_cases hconn : s.conn.state = .kConnected
    · rw [if_pos hconn]
      cases h with
      | inl hopen =>
        exact (hopen.outcome_sendInLoop message.length_le io).bind fun c hc => .ok (.inl hc)
      | inr hclosed =>
        rw [hclosed.state] at hconn
        contradiction
    · rw [if_neg hconn]
      exact .ok h
  | shutdown =>
    cases h with
    | inl hopen => exact .ok (.inl hopen.shutdown)
    | inr hclosed =>
      rw [LifeState.step, TcpConnection.shutdown, if_neg (by simp [hclosed.state])]
      exact .ok (.inr hclosed)
  | forceClose =>
    cases h with
    | inl hopen =>
      rw [LifeState.step, TcpConnection.forceClose, if_pos hopen.state]
      exact .ok (.inl (hopen.withConn (hopen.steady.congr rfl rfl rfl) hopen.input (.inr rfl) rfl))
    | inr hclosed =>
      rw [LifeState.step, TcpConnection.forceClose, if_neg (by simp [hclosed.state])]
      exact .ok (.inr hclosed)
  | forceCloseWithDelay =>
    cases h with
    | inl hopen =>
      rw [LifeState.step, TcpConnection.forceCloseWithDelay, if_pos hopen.state]
      exact .ok (.inl (hopen.withConn (hopen.steady.congr rfl rfl rfl) hopen.input (.inr rfl) rfl))
    | inr hclosed =>
      rw [LifeState.step, TcpConnection.forceCloseWithDelay, if_neg (by simp [hclosed.state])]
      exact .ok (.inr hclosed)

end

/-! ## the end of the life -/

/-- The states with which `connectionCallback_` was called, in order. -/
def connectionCallbacks (log : List Effect) : List StateE :=
  log.filterMap fun
    | .connectionCallback state => some state
    | _ => none

/-- The channel waits in `activeChannels_` for its turn, or had it, while the
handler of another channel runs. -/
def AwaitsLoop (c : TcpConnection) : Prop :=
  ¬ (c.loop.eventHandling = true →
    c.loop.currentActiveChannel = some c.channel.addr ∨ c.channel.addr ∉ c.loop.activeChannels)

/-- What is expected of `connectDestroyed`: `connectionCallback_` was called
twice, with the two states; `channel_->remove()` finds no interest and
succeeds, unless the loop is in the middle of its active channels; the state
is the one that the destructor asserts. -/
def DestroysCleanly (c : TcpConnection) : Prop :=
  ∃ d, c.leaveConnected = .ok d ∧
    connectionCallbacks d.log = [.kConnected, .kDisconnected] ∧
    d.log.count .closeCallback ≤ 1 ∧
    d.channel.isNoneEvent = true ∧
    Outcome (fun c' => c'.state = .kDisconnected ∧ c'.log = d.log)
      (fun f => f = .channel (.assertion .removeActive) ∧ c.AwaitsLoop) c.connectDestroyed

theorem connectionCallbacks_lifeLog (log : List Effect) :
    connectionCallbacks (lifeLog log) = connectionCallbacks log := by
  rw [connectionCallbacks, connectionCallbacks, lifeLog, List.filterMap_filter]
  congr 1
  funext e
  cases e <;> rfl

theorem count_closeCallback_lifeLog (log : List Effect) :
    (lifeLog log).count .closeCallback = log.count .closeCallback := List.count_filter rfl

theorem outcome_remove {d : TcpConnection} (htracked : d.channel.Tracked d.loop)
    (hindex : d.channel.index ≠ .kNew) (hnone : d.channel.isNoneEvent = true) :
    Outcome (fun c' => c'.state = d.state ∧ c'.log = d.log)
      (fun f => f = .channel (.assertion .removeActive) ∧ d.AwaitsLoop)
      (d.onChannel Channel.remove) := by
  by_cases hactive : d.loop.eventHandling = true →
      d.loop.currentActiveChannel = some d.channel.addr ∨
        d.channel.addr ∉ d.loop.activeChannels
  · obtain ⟨p, hremove, -⟩ := Channel.remove_spec htracked hindex hnone hactive
    rw [onChannel, hremove]
    exact .ok ⟨rfl, rfl⟩
  · have hremove : d.channel.remove d.loop = .error (.assertion .removeActive) := by
      rw [Channel.remove, check_of hnone]
      simp only [EventLoop.removeChannel]
      rw [check_of_not hactive]
      rfl
    rw [onChannel, hremove]
    exact .error ⟨rfl, hactive⟩

section
variable {s : LifeState}

/-- `connectDestroyed` while the connection is connected closes it. -/
theorem LifeOpen.destroysCleanly (h : LifeOpen s) (hconn : s.conn.state = .kConnected) :
    s.conn.DestroysCleanly := by
  obtain ⟨p, hleave, htracked, -⟩ := disableAll_spec h.steady.tracked
  have hd := (leaveConnected_of_connected hconn).trans hleave
  have hlife : lifeLog (s.conn.disconnected p).log =
      [.connectionCallback .kConnected, .connectionCallback .kDisconnected] := by
    show lifeLog (s.conn.log ++ [.connectionCallback .kDisconnected]) = _
    rw [lifeLog_append, h.life]
    rfl
  refine ⟨_, hd, ?_, ?_, rfl, ?_⟩
  · rw [← connectionCallbacks_lifeLog, hlife]
    rfl
  · rw [← count_closeCallback_lifeLog, hlife]
    decide
  · have hindex : (s.conn.disconnected p).channel.index ≠ .kNew := by
      show Channel.nextIndex s.conn.channel.index kNoneEvent ≠ .kNew
      rw [h.index]
      decide
    rw [connectDestroyed, hd]
    exact outcome_remove htracked hindex rfl

/-- What is left of the handler calls no `connectionCallback_`. -/
theorem connectionCallbacks_todo (todo : List Phase) :
    connectionCallbacks (todo.filterMap Phase.life?) = [] := by
  rw [connectionCallbacks, List.filterMap_filterMap, List.filterMap_eq_nil_iff]
  intro ph _
  cases ph <;> rfl

theorem LifeClosed.connectionCallbacks_eq (h : LifeClosed s) :
    connectionCallbacks s.conn.log = [.kConnected, .kDisconnected] := by
  have hlife := congrArg connectionCallbacks h.life
  rw [connectionCallbacks, List.filterMap_append] at hlife
  have htodo : List.filterMap _ (s.todo.filterMap Phase.life?) = _ := connectionCallbacks_todo s.todo
  rw [htodo, List.append_nil] at hlife
  rw [← connectionCallbacks_lifeLog]
  exact hlife

theorem LifeClosed.count_closeCallback_le (h : LifeClosed s) :
    s.conn.log.count .closeCallback ≤ 1 := by
  have hlife := congrArg (List.count Effect.closeCallback) h.life
  rw [List.count_append, count_closeCallback_lifeLog] at hlife
  have hone : [Effect.connectionCallback .kConnected, .connectionCallback .kDisconnected,
      .closeCallback].count .closeCallback = 1 := by decide
  omega

theorem LifeClosed.destroysCleanly (h : LifeClosed s) : s.conn.DestroysCleanly := by
  have hd : s.conn.leaveConnected = .ok s.conn := by
    rw [leaveConnected, if_neg (by simp [h.state])]
  have hnone : s.conn.channel.isNoneEvent = true := by simp [Channel.isNoneEvent, h.events]
  have hindex : s.conn.channel.index ≠ .kNew := by simp [h.index]
  refine ⟨s.conn, hd, h.connectionCallbacks_eq, h.count_closeCallback_le, hnone, ?_⟩
  rw [connectDestroyed, hd]
  exact (outcome_remove h.tracked hindex hnone).mono
    (fun c hc => ⟨hc.1.trans h.state, hc.2⟩) fun f hf => hf

/-- In the other open state nothing is done before `channel_->remove()`. -/
theorem not_destroysCleanly {c : TcpConnection} (hstate : c.state = .kDisconnecting)
    (hread : c.channel.isReading = true) : ¬ c.DestroysCleanly := by
  intro hclean
  obtain ⟨d, hd, -, -, hnone, -⟩ := hclean
  rw [leaveConnected, if_neg (by simp [hstate])] at hd
  obtain rfl : c = d := Except.ok.inj hd
  simp only [Channel.isNoneEvent, decide_eq_true_eq] at hnone
  rw [Channel.isReading, hnone] at hread
  contradiction

theorem LifeInv.count_closeCallback_le (h : LifeInv s) : s.conn.log.count .closeCallback ≤ 1 := by
  cases h with
  | inl hopen =>
    rw [← count_closeCallback_lifeLog, hopen.life]
    decide
  | inr hclosed => exact hclosed.count_closeCallback_le

/-- `connectDestroyed` does what is expected of it in every state but one. -/
theorem LifeInv.destroysCleanly_iff (h : LifeInv s) :
    s.conn.DestroysCleanly ↔ s.conn.state ≠ .kDisconnecting := by
  cases h with
  | inl hopen =>
    cases hopen.state with
    | inl hconn =>
      have hne : s.conn.state ≠ .kDisconnecting := by simp [hconn]
      exact ⟨fun _ => hne, fun _ => hopen.destroysCleanly hconn⟩
    | inr hdisc =>
      have hnot := not_destroysCleanly hdisc hopen.steady.isReading
      exact ⟨fun hclean => absurd hclean hnot, fun hne => absurd hdisc hne⟩
  | inr hclosed =>
    have hne : s.conn.state ≠ .kDisconnecting := by simp [hclosed.state]
    exact ⟨fun _ => hne, fun _ => hclosed.destroysCleanly⟩

end

theorem LifeInv.of_established {addr : Nat} {c : TcpConnection}
    (h : Established loop addr c) : LifeInv ⟨c, none, []⟩ := by
  obtain ⟨b, hwf, hrest⟩ := h.rest
  have hstate : c.state = .kConnected := congrArg Rest.state hrest
  have hinput : c.inputBuffer = b := congrArg Rest.inputBuffer hrest
  refine .inl ⟨h.steady, by rw [hinput]; exact hwf, .inl hstate, ?_, Nat.zero_le 1, rfl, ?_⟩
  · rw [h.log]
    rfl
  · intro r hr
    contradiction

/-- **Lifecycle.** In every run from establishment, whatever the poller
reports and the user calls: no assertion fails, `closeCallback_` is called at
most once, and `connectDestroyed`, called at any moment, does what is expected
of it if and only if `state_` is not `kDisconnecting` at the call. -/
theorem lifecycle_iff {loop : EventLoop} {fd : Nat} (hfd : Unused loop fd) (addr : Nat)
    (cb : Callbacks) (es : List LifeEvent) :
    Outcome (fun s : LifeState => s.conn.log.count .closeCallback ≤ 1 ∧
        (s.conn.DestroysCleanly ↔ s.conn.state ≠ .kDisconnecting))
      LengthError (establish loop addr fd cb >>= fun c => run LifeState.step ⟨c, none, []⟩ es) := by
  obtain ⟨c, hc, hnew⟩ := establish_spec hfd addr cb
  rw [hc]
  exact (Outcome.run_all (fun s e hs => step_life hs e) (LifeInv.of_established hnew) es).mono
    (fun s hs => ⟨hs.count_closeCallback_le, hs.destroysCleanly_iff⟩) fun f hf => hf

/-- `forceClose()`, its functor, `connectionCallback_` and `closeCallback_`. -/
def forceCloseRun : List LifeEvent :=
  [.forceClose, .runFunctor (.wrote 0), .phase (.failed 0) (.wrote 0),
    .phase (.failed 0) (.wrote 0)]

theorem lifecycle_iff_forceClose :
    ∃ s, (establish idleLoop 1 5 ⟨false, none⟩ >>= fun c =>
        run LifeState.step ⟨c, none, []⟩ forceCloseRun) = .ok s ∧
      s.conn.log = [.connectionCallback .kConnected, .connectionCallback .kDisconnected,
        .closeCallback] ∧
      s.conn.DestroysCleanly := by
  have hall := lifecycle_iff unused_idleLoop 1 ⟨false, none⟩ forceCloseRun
  rw [establish_freshConn] at hall ⊢
  refine ⟨_, rfl, rfl, ?_⟩
  exact (hall.of_ok rfl).2.mpr (by decide)

/-- **The missed state.** After `shutdown()`, `connectDestroyed` skips
`disableAll()` and `connectionCallback_`, and `Channel::remove` fails. -/
theorem connectDestroyed_after_shutdown :
    establish idleLoop 1 5 ⟨false, none⟩ = .ok freshConn ∧
    ∃ s, run LifeState.step ⟨freshConn, none, []⟩ [.shutdown] = .ok s ∧
      connectionCallbacks s.conn.log = [.kConnected] ∧
      s.conn.connectDestroyed = .error (.channel (.assertion .removeNoneEvent)) ∧
      ¬ s.conn.DestroysCleanly :=
  ⟨establish_freshConn, _, rfl, rfl, rfl, not_destroysCleanly rfl rfl⟩

end Muduo.TcpConnection
