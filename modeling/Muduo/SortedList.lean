import Mathlib.Data.List.Nodup
import Muduo.Lib.Outcome

/-!
# Muduo.SortedList

The echo server that closes idle connections, with its connections in the order of their last
messages: `examples/idleconnection/sortedlist.cc`.

A connection is a number, and stands for its place in `connectionList_`, too.  Times are
microseconds.  A label carries what the clock shows when the server reads it; `clock` is the
last reading, and `pollReturnTime` that of the loop iteration.  `shutdowns` lists the
connections that the server calls `shutdown()` of.

A new connection is stamped with a later reading of the clock than a message of the same loop
iteration, although both go to the end of the list.
-/

namespace Muduo.SortedList

open Lib List Function

/-- A connection that has not been made; that is connected; that is shutting down; that is
disconnected; whose object has been destroyed. -/
inductive Phase
  | fresh
  | connected
  | disconnecting
  | disconnected
  | gone
deriving DecidableEq, Repr

/-- The assertions about the context, a context that `any_cast` does not find, and the assertion
about the place in the list. -/
inductive Fault
  | context
  | position
deriving DecidableEq, Repr

structure EchoServer where
  idleSeconds : Int
  connectionList : List Nat
  phase : Nat → Phase
  /-- `Node::lastReceiveTime`, in the context of the connection. -/
  lastReceiveTime : Nat → Option Int
  pollReturnTime : Int
  clock : Int
  shutdowns : List Nat

namespace EchoServer

def create (idleSeconds : Int) (now : Int) : EchoServer where
  idleSeconds
  connectionList := []
  phase _ := .fresh
  lastReceiveTime _ := none
  pollReturnTime := now
  clock := now
  shutdowns := []

def setPhase (s : EchoServer) (conn : Nat) (phase : Phase) : EchoServer :=
  { s with phase := update s.phase conn phase }

def setTime (s : EchoServer) (conn : Nat) (time : Int) : EchoServer :=
  { s with lastReceiveTime := update s.lastReceiveTime conn (some time) }

/-- `connectionList_.erase(node.position)` -/
def erase (s : EchoServer) (conn : Nat) : Except Fault EchoServer := do
  check .position (conn ∈ s.connectionList)
  return { s with connectionList := s.connectionList.erase conn }

/-- `now` is the result of `Timestamp::now()`. -/
def onConnection (s : EchoServer) (conn : Nat) (now : Int) : Except Fault EchoServer := do
  if s.phase conn = .connected then
    return { s.setTime conn now with connectionList := s.connectionList ++ [conn] }
  else
    check .context (s.lastReceiveTime conn ≠ none)
    s.erase conn

def onMessage (s : EchoServer) (conn : Nat) (time : Int) : Except Fault EchoServer := do
  check .context (s.lastReceiveTime conn ≠ none)
  let s ← (s.setTime conn time).erase conn
  let s : EchoServer := { s with connectionList := s.connectionList ++ [conn] }
  check .position (s.connectionList.getLast? = some conn)
  return s

/-- `TcpConnection::shutdown` -/
def shutdown (s : EchoServer) (conn : Nat) : EchoServer :=
  { s.setPhase conn .disconnecting with shutdowns := s.shutdowns ++ [conn] }

/-- The loop of `onTimer`, with what it leaves of the list. -/
def onTimerLoop (now : Int) : List Nat → EchoServer → Except Fault (List Nat × EchoServer)
  | [], s => .ok ([], s)
  | conn :: rest, s =>
    -- `it->lock()`
    if s.phase conn = .gone then onTimerLoop now rest s
    else match s.lastReceiveTime conn with
      | none => .error .context
      | some time =>
        let age := now - time
        if s.idleSeconds * 1000000 < age then do
          let s := if s.phase conn = .connected then s.shutdown conn else s
          let (list, s) ← onTimerLoop now rest s
          return (conn :: list, s)
        else if age < 0 then do
          let (list, s) ← onTimerLoop now rest (s.setTime conn now)
          return (conn :: list, s)
        else .ok (conn :: rest, s)

def onTimer (s : EchoServer) (now : Int) : Except Fault EchoServer := do
  let (list, s) ← onTimerLoop now s.connectionList s
  return { s with connectionList := list }

inductive Label
  /-- A loop iteration begins. -/
  | poll (now : Int)
  | accept (conn : Nat) (now : Int)
  | message (conn : Nat)
  | disconnect (conn : Nat)
  | destroyed (conn : Nat)
  | timer (now : Int)
deriving DecidableEq, Repr

def step (s : EchoServer) : Label → Except Fault EchoServer
  | .poll now => .ok { s with pollReturnTime := now, clock := now }
  | .accept conn now => ({ s.setPhase conn .connected with clock := now }).onConnection conn now
  | .message conn => s.onMessage conn s.pollReturnTime
  | .disconnect conn => (s.setPhase conn .disconnected).onConnection conn s.clock
  | .destroyed conn => .ok (s.setPhase conn .gone)
  | .timer now => { s with clock := now }.onTimer now

/-- The connection is between its two calls of `onConnection`. -/
def Up (s : EchoServer) (conn : Nat) : Prop :=
  s.phase conn = .connected ∨ s.phase conn = .disconnecting

instance (s : EchoServer) (conn : Nat) : Decidable (s.Up conn) := inferInstanceAs (Decidable (_ ∨ _))

/-- The clock does not go back.  A connection is made once, has messages while it is up, and is
destroyed after it has been disconnected. -/
def Allowed (s : EchoServer) : Label → Prop
  | .poll now | .timer now => s.clock ≤ now
  | .accept conn now => s.clock ≤ now ∧ s.phase conn = .fresh
  | .message conn | .disconnect conn => s.Up conn
  | .destroyed conn => s.phase conn = .disconnected

instance (s : EchoServer) : (l : Label) → Decidable (s.Allowed l)
  | .poll _ | .timer _ => inferInstanceAs (Decidable (_ ≤ _))
  | .accept _ _ => inferInstanceAs (Decidable (_ ∧ _))
  | .message _ | .disconnect _ => inferInstanceAs (Decidable (Up _ _))
  | .destroyed _ => inferInstanceAs (Decidable (_ = _))

/-! ## order -/

def time (s : EchoServer) (conn : Nat) : Int := (s.lastReceiveTime conn).getD 0

/-- The list is in the order of the stamps. -/
def Sorted (s : EchoServer) : Prop := s.connectionList.Pairwise fun c c' => s.time c ≤ s.time c'

/-- A connection that the timer has to shut down. -/
def Idle (s : EchoServer) (now : Int) (conn : Nat) : Prop :=
  s.phase conn = .connected ∧ s.idleSeconds * 1000000 < now - s.time conn

instance (s : EchoServer) (now : Int) (conn : Nat) : Decidable (s.Idle now conn) :=
  inferInstanceAs (Decidable (_ ∧ _))

/-- The idle connections of the list are shut down when the timer runs, and otherwise none. -/
def closed (s : EchoServer) : Label → List Nat
  | .timer now => s.connectionList.filter (s.Idle now ·)
  | _ => []

/-- What is expected of a step. -/
structure Expected (s : EchoServer) (l : Label) (s' : EchoServer) : Prop where
  sorted : s'.Sorted
  shutdowns : s'.shutdowns = s.shutdowns ++ s.closed l

/-- Nobody else has a later stamp than the message. -/
def InOrder (s : EchoServer) : Label → Prop
  | .message conn => ∀ c ∈ s.connectionList, c ≠ conn → s.time c ≤ s.pollReturnTime
  | _ => True

instance (s : EchoServer) : (l : Label) → Decidable (s.InOrder l)
  | .message conn => inferInstanceAs
      (Decidable (∀ c ∈ s.connectionList, c ≠ conn → s.time c ≤ s.pollReturnTime))
  | .poll _ | .accept _ _ | .disconnect _ | .destroyed _ | .timer _ => .isTrue trivial

structure Inv (s : EchoServer) : Prop where
  nodup : s.connectionList.Nodup
  up : ∀ c, c ∈ s.connectionList ↔ s.Up c
  stamped : ∀ c ∈ s.connectionList, s.lastReceiveTime c ≠ none ∧ s.time c ≤ s.clock
  poll_le : s.pollReturnTime ≤ s.clock
  sorted : s.Sorted

theorem inv_create (idleSeconds now : Int) : Inv (create idleSeconds now) where
  nodup := .nil
  up c := by simp [create, Up]
  stamped c hc := by simp [create] at hc
  poll_le := Int.le_refl _
  sorted := .nil

variable {s : EchoServer} {conn : Nat} {now : Int}

@[simp] theorem time_setTime (s : EchoServer) (conn : Nat) (t : Int) (c : Nat) :
    (s.setTime conn t).time c = if c = conn then t else s.time c := by
  unfold time setTime
  by_cases hc : c = conn
  · simp [hc]
  · simp [hc]

/-! ## the timer -/

/-- The connections of `cs` are shut down, one after the other. -/
def shutdownAll (s : EchoServer) (cs : List Nat) : EchoServer := cs.foldl shutdown s

theorem shutdownAll_eq (s : EchoServer) (cs : List Nat) :
    s.shutdownAll cs = { s with
      phase := fun c => if c ∈ cs then .disconnecting else s.phase c
      shutdowns := s.shutdowns ++ cs } := by
  induction cs generalizing s with
  | nil => simp [shutdownAll]
  | cons conn cs ih =>
    rw [shutdownAll, foldl_cons]
    change (s.shutdown conn).shutdownAll cs = _
    rw [ih]
    simp only [shutdown, setPhase, append_assoc, singleton_append, mk.injEq, true_and,
      and_true]
    funext c
    by_cases hc : c = conn
    · simp [hc]
    · simp [hc]

/-- The order of the list lets the timer stop at the first connection that is not idle. -/
theorem onTimerLoop_spec {list : List Nat} (hnodup : list.Nodup) (hup : ∀ c ∈ list, s.Up c)
    (hstamped : ∀ c ∈ list, s.lastReceiveTime c ≠ none ∧ s.time c ≤ now)
    (hsorted : list.Pairwise fun c c' => s.time c ≤ s.time c') :
    onTimerLoop now list s = .ok (list, s.shutdownAll (list.filter (s.Idle now ·))) := by
  induction list generalizing s with
  | nil => rfl
  | cons conn rest ih =>
    obtain ⟨hnot, hnodup⟩ := nodup_cons.mp hnodup
    obtain ⟨hfirst, hsorted⟩ := pairwise_cons.mp hsorted
    obtain ⟨hsome, hle⟩ := hstamped conn mem_cons_self
    obtain ⟨t, ht⟩ := Option.ne_none_iff_exists'.mp hsome
    have htime : s.time conn = t := by rw [time, ht, Option.getD_some]
    have hphase : s.phase conn ≠ .gone := by
      rcases hup conn mem_cons_self with h | h <;> simp [h]
    rw [onTimerLoop, if_neg hphase, ht]
    dsimp only
    by_cases hidle : s.idleSeconds * 1000000 < now - t
    · rw [if_pos hidle]
      have hrest : ∀ c ∈ rest, c ≠ conn := fun c hc heq => hnot (heq ▸ hc)
      by_cases hconnected : s.phase conn = .connected
      · have hother : ∀ c ∈ rest, (s.shutdown conn).phase c = s.phase c := fun c hc =>
          update_of_ne (hrest c hc) _ _
        have hloop := ih (s := s.shutdown conn) hnodup
          (fun c hc => by rw [Up, hother c hc]; exact hup c (mem_cons_of_mem _ hc))
          (fun c hc => hstamped c (mem_cons_of_mem _ hc)) hsorted
        have hfilter : rest.filter ((s.shutdown conn).Idle now ·) = rest.filter (s.Idle now ·) :=
          filter_congr fun c hc => decide_eq_decide.mpr (by
            rw [Idle, Idle, hother c hc]
            rfl)
        have hhead : s.Idle now conn := ⟨hconnected, by rwa [htime]⟩
        rw [if_pos hconnected, hloop, hfilter, filter_cons_of_pos (by simpa using hhead)]
        rfl
      · have hhead : ¬ s.Idle now conn := fun h => hconnected h.1
        rw [if_neg hconnected, ih hnodup (fun c hc => hup c (mem_cons_of_mem _ hc))
          (fun c hc => hstamped c (mem_cons_of_mem _ hc)) hsorted,
          filter_cons_of_neg (by simpa using hhead)]
        rfl
    · -- those behind have been heard of later
      have hnone : (conn :: rest).filter (s.Idle now ·) = [] := by
        rw [filter_eq_nil_iff]
        intro c hc
        have hlater : t ≤ s.time c := by
          rw [← htime]
          obtain rfl | hc := mem_cons.mp hc
          · exact Int.le_refl _
          · exact hfirst c hc
        have hfresh : ¬ s.Idle now c := fun hc => by
          have := hc.2
          omega
        simpa using hfresh
      rw [if_neg hidle, if_neg (by omega), hnone]
      rfl

theorem Inv.timer (h : Inv s) (hnow : s.clock ≤ now) :
    ∃ s', s.step (.timer now) = .ok s' ∧ Expected s (.timer now) s' ∧ Inv s' := by
  have hloop := onTimerLoop_spec (s := { s with clock := now }) h.nodup (fun c => (h.up c).mp)
    (fun c hc => ⟨(h.stamped c hc).1, Int.le_trans (h.stamped c hc).2 hnow⟩) h.sorted
  refine ⟨_, by rw [step, onTimer, hloop]; rfl, ?_, ?_⟩
  · rw [shutdownAll_eq]
    exact ⟨h.sorted, rfl⟩
  · rw [shutdownAll_eq]
    refine ⟨h.nodup, fun c => ?_, fun c hc => ⟨(h.stamped c hc).1, ?_⟩, ?_, h.sorted⟩
    · rw [h.up]
      unfold Up
      dsimp only
      split
      case isTrue hc =>
        have hidle : s.Idle now c := of_decide_eq_true (mem_filter.mp hc).2
        simp [hidle.1]
      case isFalse => rfl
    · exact Int.le_trans (h.stamped c hc).2 hnow
    · exact Int.le_trans h.poll_le hnow

theorem Inv.append {list : List Nat} {t : Int} (hsub : list.Sublist s.connectionList)
    (hnot : conn ∉ list) (h : Inv s) (hle : ∀ c ∈ list, s.time c ≤ t) :
    (list ++ [conn]).Nodup ∧ (list ++ [conn]).Pairwise fun c c' =>
      (s.setTime conn t).time c ≤ (s.setTime conn t).time c' := by
  refine ⟨nodup_append.mpr ⟨h.nodup.sublist hsub, nodup_singleton conn, ?_⟩,
    pairwise_append.mpr ⟨?_, pairwise_singleton _ _, ?_⟩⟩
  · intro c hc c' hc' heq
    rw [mem_singleton.mp hc'] at heq
    exact hnot (heq ▸ hc)
  · refine (h.sorted.sublist hsub).imp_of_mem fun hc hc' hle => ?_
    rw [time_setTime, time_setTime, if_neg (ne_of_mem_of_not_mem hc hnot),
      if_neg (ne_of_mem_of_not_mem hc' hnot)]
    exact hle
  · intro c hc c' hc'
    obtain rfl := mem_singleton.mp hc'
    rw [time_setTime, time_setTime, if_pos rfl, if_neg (ne_of_mem_of_not_mem hc hnot)]
    exact hle c hc

theorem not_mem_of_fresh (h : Inv s) (hfresh : s.phase conn = .fresh) : conn ∉ s.connectionList := by
  intro hmem
  rcases (h.up conn).mp hmem with hup | hup <;> rw [hfresh] at hup <;> cases hup

theorem Inv.accept (h : Inv s) (hnow : s.clock ≤ now) (hfresh : s.phase conn = .fresh) :
    ∃ s', s.step (.accept conn now) = .ok s' ∧ Expected s (.accept conn now) s' ∧ Inv s' := by
  have hnot := not_mem_of_fresh h hfresh
  obtain ⟨hnodup, hsorted⟩ := h.append (List.Sublist.refl _) hnot
    fun c hc => Int.le_trans (h.stamped c hc).2 hnow
  have hstep : s.step (.accept conn now) = .ok { (s.setPhase conn .connected).setTime conn now with
      clock := now, connectionList := s.connectionList ++ [conn] } := by
    rw [step, onConnection, if_pos (by simp [setPhase])]
    rfl
  refine ⟨_, hstep, ⟨hsorted, ?_⟩,
    ⟨hnodup, fun c => ?_, fun c hc => ?_, Int.le_trans h.poll_le hnow, hsorted⟩⟩
  · simp [closed, setTime, setPhase]
  · by_cases heq : c = conn
    · simp [heq, Up, setTime, setPhase]
    · have hup := h.up c
      simp only [Up] at hup
      simp [heq, Up, setTime, setPhase, hup]
  · by_cases heq : c = conn
    · subst heq
      simp [time, setTime, setPhase]
    · have hc' : c ∈ s.connectionList := by simpa [setTime, setPhase, heq] using hc
      have hstamped := h.stamped c hc'
      have htime : (s.setTime conn now).time c = s.time c := by simp [heq]
      refine ⟨by simpa [setTime, setPhase, update_of_ne heq] using hstamped.1, ?_⟩
      exact Int.le_trans (Int.le_of_eq htime) (Int.le_trans hstamped.2 hnow)

theorem Inv.disconnect (h : Inv s) (hup : s.Up conn) :
    ∃ s', s.step (.disconnect conn) = .ok s' ∧ Expected s (.disconnect conn) s' ∧ Inv s' := by
  have hmem := (h.up conn).mpr hup
  have hsub : (s.connectionList.erase conn).Sublist s.connectionList := erase_sublist
  have hsorted := h.sorted.sublist hsub
  have hstep : s.step (.disconnect conn) = .ok { s.setPhase conn .disconnected with
      connectionList := s.connectionList.erase conn } := by
    rw [step, onConnection, if_neg (by simp [setPhase]), check_of (by exact (h.stamped conn hmem).1),
      ok_bind, erase, check_of (by exact hmem)]
    rfl
  refine ⟨_, hstep, ⟨hsorted, by simp [closed, setPhase]⟩, ⟨h.nodup.sublist hsub, fun c => ?_,
    fun c hc => h.stamped c (hsub.subset hc), h.poll_le, hsorted⟩⟩
  · rw [h.nodup.mem_erase_iff, h.up]
    by_cases heq : c = conn
    · simp [heq, Up, setPhase]
    · simp [heq, Up, setPhase]

theorem onMessage_eq (h : Inv s) (hup : s.Up conn) :
    s.step (.message conn) = .ok { s.setTime conn s.pollReturnTime with
      connectionList := s.connectionList.erase conn ++ [conn] } := by
  have hmem := (h.up conn).mpr hup
  have herase : (s.setTime conn s.pollReturnTime).erase conn =
      .ok { s.setTime conn s.pollReturnTime with connectionList := s.connectionList.erase conn } := by
    rw [erase, check_of (by exact hmem)]
    rfl
  rw [step, onMessage, check_of (h.stamped conn hmem).1, ok_bind, herase, ok_bind]
  dsimp only
  rw [check_of (by simp)]
  rfl

theorem Inv.message (h : Inv s) (hup : s.Up conn) (horder : s.InOrder (.message conn)) :
    ∃ s', s.step (.message conn) = .ok s' ∧ Expected s (.message conn) s' ∧ Inv s' := by
  have hmem := (h.up conn).mpr hup
  have hsub : (s.connectionList.erase conn).Sublist s.connectionList := erase_sublist
  have herase : ∀ c, c ∈ s.connectionList.erase conn ↔ c ≠ conn ∧ c ∈ s.connectionList :=
    fun c => h.nodup.mem_erase_iff
  obtain ⟨hnodup, hsorted⟩ := h.append (t := s.pollReturnTime) hsub (fun hc => ((herase _).mp hc).1 rfl)
    fun c hc => horder c ((herase c).mp hc).2 ((herase c).mp hc).1
  refine ⟨_, onMessage_eq h hup, ⟨hsorted, by simp [closed, setTime]⟩,
    ⟨hnodup, fun c => ?_, fun c hc => ?_, h.poll_le, hsorted⟩⟩
  · rw [mem_append, herase, mem_singleton]
    by_cases heq : c = conn
    · subst heq
      exact iff_of_true (.inr rfl) hup
    · simp only [heq, ne_eq, not_false_eq_true, true_and, or_false]
      exact h.up c
  · by_cases heq : c = conn
    · subst heq
      refine ⟨by simp [setTime], ?_⟩
      have htime : (s.setTime c s.pollReturnTime).time c = s.pollReturnTime := by simp
      exact Int.le_trans (Int.le_of_eq htime) h.poll_le
    · have hc' : c ∈ s.connectionList := by
        rw [mem_append, herase, mem_singleton] at hc
        simpa [heq] using hc
      have hstamped := h.stamped c hc'
      have htime : (s.setTime conn s.pollReturnTime).time c = s.time c := by simp [heq]
      refine ⟨by simpa [setTime, update_of_ne heq] using hstamped.1, ?_⟩
      exact Int.le_trans (Int.le_of_eq htime) hstamped.2

/-- A message behind a later stamp breaks the order. -/
theorem not_sorted_of_not_inOrder (h : Inv s) (hup : s.Up conn)
    (horder : ¬ s.InOrder (.message conn)) {s' : EchoServer} (hs' : s.step (.message conn) = .ok s') :
    ¬ s'.Sorted := by
  rw [onMessage_eq h hup] at hs'
  obtain rfl := Except.ok.inj hs'
  intro hsorted
  refine horder fun c hc hne => ?_
  have hlast := (pairwise_append.mp hsorted).2.2 c (h.nodup.mem_erase_iff.mpr ⟨hne, hc⟩) conn
    (mem_singleton.mpr rfl)
  have htime : (s.setTime conn s.pollReturnTime).time c ≤
    (s.setTime conn s.pollReturnTime).time conn := hlast
  simpa [hne] using htime

theorem Inv.step {l : Label} (h : Inv s) (hl : s.Allowed l) (horder : s.InOrder l) :
    ∃ s', s.step l = .ok s' ∧ Expected s l s' ∧ Inv s' := by
  cases l with
  | poll now =>
    exact ⟨_, rfl, ⟨h.sorted, (append_nil _).symm⟩, ⟨h.nodup, h.up,
      fun c hc => ⟨(h.stamped c hc).1, Int.le_trans (h.stamped c hc).2 hl⟩, Int.le_refl _, h.sorted⟩⟩
  | accept conn now => exact h.accept hl.1 hl.2
  | message conn => exact h.message hl horder
  | disconnect conn => exact h.disconnect hl
  | destroyed conn =>
    refine ⟨_, rfl, ⟨h.sorted, (append_nil _).symm⟩,
      ⟨h.nodup, fun c => (h.up c).trans ?_, h.stamped, h.poll_le, h.sorted⟩⟩
    have hphase : s.phase conn = .disconnected := hl
    by_cases heq : c = conn
    · simp [heq, Up, setPhase, hphase]
    · simp [Up, setPhase, update_of_ne heq]
  | timer now => exact h.timer hl

/-- **The order of the list.**  In every run the list stays in the order of the stamps and the
timer shuts down exactly the idle connections, if and only if no message is handled while
another connection of the list has a later stamp than the poll of the iteration. -/
theorem sorted_iff (idleSeconds start : Int) (ls : List Label)
    (hls : Meets step Allowed (create idleSeconds start) ls) :
    Takes step Expected (create idleSeconds start) ls ↔
      Meets step InOrder (create idleSeconds start) ls := by
  refine takes_iff_meets_of_given (fun s l hs hl horder => hs.step hl horder) ?_
    (inv_create idleSeconds start) hls
  intro s l s' hs hl horder hstep hexpected
  cases l with
  | message conn => exact not_sorted_of_not_inOrder hs hl horder hstep hexpected.sorted
  | poll _ | accept _ _ | disconnect _ | destroyed _ | timer _ => exact horder trivial

/-- Messages in other iterations than the connections. -/
def quiet : List Label :=
  [.accept 0 5, .poll 100, .accept 1 150, .poll 200, .message 0, .timer 1000160]

theorem sorted_iff_quiet :
    Meets step Allowed (create 1 0) quiet ∧ Takes step Expected (create 1 0) quiet :=
  ⟨by decide, (sorted_iff 1 0 quiet (by decide)).mpr (by decide)⟩

/-- Connection 1 is accepted at the time 150, in the iteration that has polled at 100; then the
message of connection 0 is handled. -/
def hidden : List Label :=
  [.accept 0 5, .poll 100, .accept 1 150, .message 0, .timer 1000120]

/-- **An idle connection is missed.**  Its last message is more than a second old when the timer
runs, but the connection in front of it is not idle. -/
theorem idle_hidden :
    Meets step Allowed (create 1 0) hidden ∧
      (run step (create 1 0) hidden).map (fun s => (s.connectionList, s.time 1, s.time 0,
        s.shutdowns, decide (s.Idle s.clock 0))) = .ok ([1, 0], 150, 100, [], true) :=
  ⟨by decide, by decide⟩

end EchoServer

end Muduo.SortedList
