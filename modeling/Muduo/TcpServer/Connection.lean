import Muduo.TcpConnection.Lifecycle
import Muduo.TcpServer

/-!
# Muduo.TcpServer.Connection

What the server knows of a connection is a view of the `TcpConnection` with
its buffers, its channel and the poller of its loop: a call that returns
there does to the view what the model of the server says.
-/

namespace Muduo

open Lib

theorem Events.union_read_ne_none (e : Events) : e.union kReadEvent ≠ kNoneEvent := by
  intro h
  have hin := congrArg Events.pollIn h
  simp [Events.union, Events.zipWith, kReadEvent, kNoneEvent] at hin

theorem Channel.outcome_remove_events (ch : Channel) (loop : EventLoop) :
    Outcome (fun r => ch.isNoneEvent = true ∧ r.2.events = ch.events) (fun _ => True)
      (ch.remove loop) := by
  have hpoller : ∀ (p : EPollPoller) (ch : Channel), Outcome (fun r => r.2.events = ch.events)
      (fun _ => True) (p.removeChannel ch) := by
    intro p ch
    refine (outcome_check fun _ => trivial).bind fun _ _ => ?_
    refine (outcome_check fun _ => trivial).bind fun _ _ => ?_
    refine (outcome_check fun _ => trivial).bind fun _ _ => ?_
    refine (outcome_check fun _ => trivial).bind fun _ _ => ?_
    refine (outcome_check fun _ => trivial).bind fun _ _ => ?_
    cases (if ch.index = .kAdded then
      EPollPoller.update { p with channels := Function.update p.channels ch.fd none } .del ch
      else .ok { p with channels := Function.update p.channels ch.fd none }) with
    | ok p' => exact .ok rfl
    | error f => exact .error trivial
  refine (outcome_check fun _ => trivial).bind fun _ hnone => ?_
  refine (outcome_check fun _ => trivial).bind fun _ _ => ?_
  refine (hpoller loop.poller { ch with addedToLoop := false }).bind fun r hr => ?_
  exact .ok ⟨hnone, hr⟩

namespace TcpConnection

/-- The connection as the server sees it. -/
def view (c : TcpConnection) (name : List Char) (loop : LoopId) : ServerConn :=
  ⟨name, loop, c.state, !c.channel.isNoneEvent⟩

section
variable {c c' : TcpConnection} {name : List Char} {loop : LoopId}

/-- After its channel was updated, the connection is registered for what is
then its interest. -/
theorem view_emit_rewire (p : EPollPoller) (e : Events) (ef : Effect) :
    ((c.rewire p e).emit ef).view name loop = ⟨name, loop, c.state, !decide (e = kNoneEvent)⟩ := rfl

theorem view_connectEstablished (htracked : c.channel.Tracked c.loop)
    (h : c.connectEstablished = .ok c') :
    (c.view name loop).connectEstablished = .ok (c'.view name loop) := by
  by_cases hstate : c.state = .kConnecting
  · obtain ⟨p, hon, -⟩ := onChannel_setEvents Channel.enableReading
      (c := { c with state := .kConnected }) htracked rfl
    rw [connectEstablished, check_of hstate] at h
    change (onChannel _ _ >>= _) = _ at h
    rw [hon] at h
    obtain rfl := Except.ok.inj h
    have hview : (c.view name loop).state = .kConnecting := hstate
    rw [ServerConn.connectEstablished, check_of hview, view_emit_rewire,
      decide_eq_false (Events.union_read_ne_none c.channel.events)]
    rfl
  · rw [connectEstablished, check_of_not hstate] at h
    cases h

theorem view_handleClose (htracked : c.channel.Tracked c.loop) (h : c.handleClose = .ok c') :
    (c.view name loop).handleClose = .ok (c'.view name loop) := by
  by_cases hstate : c.state = .kConnected ∨ c.state = .kDisconnecting
  · obtain ⟨p, hon, -⟩ := onChannel_setEvents Channel.disableAll
      (c := { c with state := .kDisconnected }) htracked rfl
    rw [handleClose, closeChannel, check_of hstate] at h
    change ((onChannel _ _ >>= _) >>= _) = _ at h
    rw [hon] at h
    obtain rfl := Except.ok.inj h
    have hview : (c.view name loop).state = .kConnected ∨ (c.view name loop).state = .kDisconnecting :=
      hstate
    rw [ServerConn.handleClose, check_of hview]
    rfl
  · rw [handleClose, closeChannel, check_of_not hstate] at h
    cases h

theorem view_remove (n : List Char) (l : LoopId) (h : c.onChannel Channel.remove = .ok c') :
    (c.view n l).registered = false ∧ c'.view n l = c.view n l := by
  have hremove := c.channel.outcome_remove_events c.loop
  unfold onChannel at h
  cases hr : c.channel.remove c.loop with
  | error f =>
    rw [hr] at h
    cases h
  | ok r =>
    obtain ⟨hnone, hevents⟩ := hremove.of_ok hr
    rw [hr] at h
    obtain rfl := Except.ok.inj h
    refine ⟨by simp [view, hnone], ?_⟩
    simp only [view, Channel.isNoneEvent, hevents]

theorem view_connectDestroyed (htracked : c.channel.Tracked c.loop)
    (h : c.connectDestroyed = .ok c') :
    (c.view name loop).connectDestroyed = .ok (c'.view name loop) := by
  unfold connectDestroyed leaveConnected at h
  unfold ServerConn.connectDestroyed
  by_cases hstate : c.state = .kConnected
  · obtain ⟨p, hon, -⟩ := onChannel_setEvents Channel.disableAll
      (c := { c with state := .kDisconnected }) htracked rfl
    rw [if_pos hstate] at h
    change ((onChannel _ _ >>= _) >>= _) = _ at h
    rw [hon] at h
    obtain ⟨-, hview⟩ := view_remove name loop h
    rw [if_pos (show (c.view name loop).state = .kConnected from hstate), hview]
    rfl
  · rw [if_neg hstate] at h
    obtain ⟨hregistered, hview⟩ := view_remove name loop h
    rw [if_neg (show ¬ (c.view name loop).state = .kConnected from hstate), hview]
    dsimp only
    rw [check_of hregistered]
    rfl

end

/-- The poller watches a connection until it is closed. -/
theorem LifeInv.registered_iff {s : LifeState} (h : LifeInv s) (name : List Char) (l : LoopId) :
    (s.conn.view name l).registered = true ↔ s.conn.state ≠ .kDisconnected := by
  cases h with
  | inl hopen =>
    have hread := hopen.steady.isReading
    have hsome : s.conn.channel.isNoneEvent = false := by
      rw [Channel.isNoneEvent, decide_eq_false_iff_not]
      intro hnone
      rw [Channel.isReading, hnone] at hread
      contradiction
    obtain hstate | hstate := hopen.state <;> simp [view, hsome, hstate]
  | inr hclosed => simp [view, Channel.isNoneEvent, hclosed.events, hclosed.state]

/-- **The server's view** of a connection is right at every moment of its life. -/
theorem view_simulates {loop : EventLoop} {fd : Nat} (hfd : Unused loop fd) (addr : Nat)
    (cb : Callbacks) (es : List LifeEvent) (name : List Char) (l : LoopId) :
    Outcome (fun s : LifeState =>
        ((s.conn.view name l).registered = true ↔ s.conn.state ≠ .kDisconnected) ∧
        ∀ c', (s.conn.handleClose = .ok c' →
            (s.conn.view name l).handleClose = .ok (c'.view name l)) ∧
          (s.conn.connectDestroyed = .ok c' →
            (s.conn.view name l).connectDestroyed = .ok (c'.view name l)))
      LengthError (establish loop addr fd cb >>= fun c => run LifeState.step ⟨c, none, []⟩ es) := by
  obtain ⟨c, hc, hnew⟩ := establish_spec hfd addr cb
  rw [hc]
  refine (Outcome.run_all (fun s e hs => step_life hs e) (.of_established hnew) es).mono
    (fun s hs => ⟨hs.registered_iff name l, fun c' => ?_⟩) fun f hf => hf
  have htracked : s.conn.channel.Tracked s.conn.loop := hs.elim (·.steady.tracked) (·.tracked)
  exact ⟨view_handleClose htracked, view_connectDestroyed htracked⟩

theorem view_simulates_forceClose :
    ∃ s, (establish idleLoop 1 5 ⟨false, none⟩ >>= fun c =>
        run LifeState.step ⟨c, none, []⟩ forceCloseRun) = .ok s ∧
      (s.conn.view [] 0).registered = false := by
  have hall := view_simulates unused_idleLoop 1 ⟨false, none⟩ forceCloseRun [] 0
  rw [establish_freshConn] at hall ⊢
  exact ⟨_, rfl, Bool.eq_false_iff.mpr (mt (hall.of_ok rfl).1.mp (by decide))⟩

end TcpConnection

end Muduo
