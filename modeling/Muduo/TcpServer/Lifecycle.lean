import Muduo.TcpServer

/-!
# Muduo.TcpServer.Lifecycle

A connection between the loops: accepted on the base loop, established and
closed on its own loop, taken out of `connections_` on the base loop,
destroyed on its own loop.
-/

namespace Muduo

open Lib List Function

/-! ## names -/

theorem InetAddress.length_toIpPort (a : InetAddress) : a.toIpPort.length ≤ 51 := by
  have hip := a.ip_length
  have hport : (decimal a.port).length ≤ 5 := length_decimal_le (by decide) (by omega)
  unfold INET6_ADDRSTRLEN at hip
  simp only [InetAddress.toIpPort, snprintf, length_append, length_take,
    length_cons]
  omega

namespace TcpServer

variable {st : Stage}

section
variable {s s' : TcpServer} {c c' : ConnId} {k : ServerConn}

/-- The buffer of 64 bytes is just large enough: the longest address takes 51
bytes and `INT_MAX` takes ten. -/
theorem connName_injective (hs : s.ipPort.length ≤ 51) (hc : c ≤ INT_MAX) (hc' : c' ≤ INT_MAX)
    (h : s.connName c = s.connName c') : c = c' := by
  have hfits : ∀ n, n ≤ INT_MAX → ('-' :: s.ipPort ++ '#' :: decimal n).length < 64 := by
    intro n hn
    have hdigits : (decimal n).length ≤ 10 :=
      length_decimal_le (by decide) (by unfold INT_MAX at hn; omega)
    simp only [length_append, length_cons]
    omega
  unfold connName at h
  rw [snprintf_of_length (hfits c hc), snprintf_of_length (hfits c' hc')] at h
  have htext := append_cancel_left h
  rw [cons_append, cons_append] at htext
  have hdigits := append_cancel_left (List.cons.inj htext).2
  exact decimal_injective (List.cons.inj hdigits).2

/-! ## stages -/

/-- How far a connection has come. -/
inductive Stage
  /-- `connectEstablished` has not run. -/
  | accepted
  | opened
  /-- `handleClose` has run, `removeConnectionInLoop` has not. -/
  | closing
  /-- The entry is gone, `connectDestroyed` has not run. -/
  | erased
  | destroyed

/-- The functor that waits for the connection, among those of the loop `l`. -/
def Stage.waiting (st : Stage) (c : ConnId) (ioLoop l : LoopId) : List ServerFunctor :=
  match st with
  | .accepted => if l = ioLoop then [.connectEstablished c] else []
  | .closing => if l = baseLoop then [.removeConnectionInLoop c] else []
  | .erased => if l = ioLoop then [.connectDestroyed c] else []
  | .opened | .destroyed => []

/-- What is run for a connection, in its order and on its loops. -/
def lifetime (c : ConnId) (ioLoop : LoopId) : List ServerEvent :=
  [.established ioLoop c, .closed ioLoop c, .erased c (some c), .destroyed ioLoop c]

/-- The number of stages that have been left. -/
def Stage.passed : Stage → Nat
  | .accepted => 0
  | .opened => 1
  | .closing => 2
  | .erased => 3
  | .destroyed => 4

def Stage.hasEntry : Stage → Bool
  | .accepted | .opened | .closing => true
  | .erased | .destroyed => false

/-- `state_` and the registration of the channel. -/
def Stage.Fits (st : Stage) (k : ServerConn) : Prop :=
  match st with
  | .accepted => k.state = .kConnecting ∧ k.registered = false
  | .opened => (k.state = .kConnected ∨ k.state = .kDisconnecting) ∧ k.registered = true
  | .closing | .erased | .destroyed => k.state = .kDisconnected ∧ k.registered = false

/-- What was run for the connection, apart from its events. -/
def lifeOf (c : ConnId) (log : List ServerEvent) : List ServerEvent :=
  log.filter fun
    | .established _ c' | .closed _ c' | .erased c' _ | .destroyed _ c' => c' = c
    | .event _ _ => false

/-- The functors of a loop that are about the connection. -/
def waitingFor (s : TcpServer) (l : LoopId) (c : ConnId) : List ServerFunctor :=
  (s.queues l).waiting.filter (·.conn = c)

/-- The connection is at the stage `st`; the functors `w` wait for it. -/
structure At (s : TcpServer) (c : ConnId) (k : ServerConn) (st : Stage)
    (w : LoopId → List ServerFunctor) : Prop where
  conn : s.conn c = some k
  name : k.name = s.connName c
  fits : st.Fits k
  waiting : ∀ l, s.waitingFor l c = w l
  entry : s.connections.lookup k.name = if st.hasEntry then some c else none
  life : lifeOf c s.log = (lifetime c k.loop).take st.passed

/-- The connection is at some stage, or there is nothing of it yet. -/
def Sound (s : TcpServer) (c : ConnId) : Prop :=
  (∃ k st, s.At c k st (st.waiting c k.loop)) ∨
    (s.conn c = none ∧ (∀ l, s.waitingFor l c = []) ∧ lifeOf c s.log = [])

/-- What concerns the server and not one connection. -/
structure Base (s : TcpServer) : Prop where
  pool : s.threadPool.loops = [] ∨ s.threadPool.next < s.threadPool.loops.length
  ipPort : s.ipPort.length ≤ 51
  ids : ∀ c k, s.conn c = some k → c < s.nextConnId ∧ c ≤ INT_MAX
  entries : ∀ n c, s.connections.lookup n = some c → ∃ k, s.conn c = some k ∧ k.name = n
  events : ∀ i l c, s.log[i]? = some (.event l c) →
    .established l c ∈ s.log.take i ∧ ∃ k, s.conn c = some k ∧ k.loop = l

structure ServerInv (s : TcpServer) : Prop where
  base : s.Base
  sound : ∀ c, s.Sound c

/-! ## what an operation on one connection leaves alone -/

theorem waitingFor_queueInLoop (s : TcpServer) (l l' : LoopId) (f : ServerFunctor) (c : ConnId) :
    (s.queueInLoop l f).waitingFor l' c =
      s.waitingFor l' c ++ if l' = l ∧ f.conn = c then [f] else [] := by
  unfold waitingFor queueInLoop
  by_cases hl : l' = l
  · subst hl
    by_cases hf : f.conn = c <;> simp [hf]
  · simp [hl]

variable {f : ServerFunctor} {ev : ServerEvent} {l : LoopId} {fs : List ServerFunctor}

theorem waitingFor_queueInLoop_of_ne (s : TcpServer) (l l' : LoopId) {c : ConnId}
    (h : f.conn ≠ c) : (s.queueInLoop l f).waitingFor l' c = s.waitingFor l' c := by
  rw [waitingFor_queueInLoop, if_neg fun hc => h hc.2, append_nil]

theorem lifeOf_append (c : ConnId) (log log' : List ServerEvent) :
    lifeOf c (log ++ log') = lifeOf c log ++ lifeOf c log' :=
  filter_append _ _

/-- What is run for a connection is run for no other. -/
theorem lifeOf_singleton (hev : ev ∈ lifetime c l) (c' : ConnId) :
    lifeOf c' [ev] = if c' = c then [ev] else [] := by
  simp only [lifetime, mem_cons, not_mem_nil, or_false] at hev
  rcases hev with rfl | rfl | rfl | rfl <;> simp [lifeOf, filter_cons, eq_comm]

theorem ne_event_of_mem_lifetime (hev : ev ∈ lifetime c l) (l' : LoopId)
    (c' : ConnId) : ev ≠ .event l' c' := by
  intro heq
  simp [heq, lifetime] at hev

/-- The next part of its lifetime is recorded for the connection. -/
theorem At.life_record {w : LoopId → List ServerFunctor} (h : s.At c k st w)
    (hev : (lifetime c k.loop)[st.passed]? = some ev) :
    lifeOf c (s.log ++ [ev]) = (lifetime c k.loop).take (st.passed + 1) := by
  rw [lifeOf_append, lifeOf_singleton (mem_of_getElem? hev), if_pos rfl, h.life,
    take_add_one, hev]
  rfl

theorem Sound.frame (h : s.Sound c') (hconn : s'.conn c' = s.conn c')
    (hname : s'.connName c' = s.connName c')
    (hwaiting : ∀ l, s'.waitingFor l c' = s.waitingFor l c')
    (hentry : ∀ k, s.conn c' = some k → k.name = s.connName c' →
      s'.connections.lookup k.name = s.connections.lookup k.name)
    (hlife : lifeOf c' s'.log = lifeOf c' s.log) : s'.Sound c' := by
  rcases h with ⟨k, st, hat⟩ | ⟨hnone, hfunctors, hnolife⟩
  · refine .inl ⟨k, st, hconn.trans hat.conn, hat.name.trans hname.symm, hat.fits, ?_, ?_, ?_⟩
    · intro l
      rw [hwaiting, hat.waiting]
    · rw [hentry k hat.conn hat.name, hat.entry]
    · rw [hlife, hat.life]
  · refine .inr ⟨hconn.trans hnone, ?_, hlife.trans hnolife⟩
    intro l
    rw [hwaiting, hfunctors]

variable {k' : ServerConn} {pool : EventLoopThreadPool}

theorem Base.setConn (h : s.Base) (hk : s.conn c = some k)
    (hname : k'.name = k.name) (hloop : k'.loop = k.loop) : (s.setConn c k').Base := by
  have hconn : ∀ d kd, s.conn d = some kd → ∃ kd', (s.setConn c k').conn d = some kd' ∧
      kd'.name = kd.name ∧ kd'.loop = kd.loop := by
    intro d kd hd
    by_cases hdc : d = c
    · subst hdc
      obtain rfl : k = kd := Option.some.inj (hk.symm.trans hd)
      exact ⟨k', update_self _ _ _, hname, hloop⟩
    · exact ⟨kd, (update_of_ne hdc _ _).trans hd, rfl, rfl⟩
  refine ⟨h.pool, h.ipPort, ?_, ?_, ?_⟩
  · intro d kd hd
    by_cases hdc : d = c
    · exact hdc ▸ h.ids c k hk
    · exact h.ids d kd ((update_of_ne hdc _ _).symm.trans hd)
  · intro n d hd
    obtain ⟨kd, hkd, hn⟩ := h.entries n d hd
    obtain ⟨kd', hkd', hn', -⟩ := hconn d kd hkd
    exact ⟨kd', hkd', hn'.trans hn⟩
  · intro i l d hev
    obtain ⟨hmem, kd, hkd, hl⟩ := h.events i l d hev
    obtain ⟨kd', hkd', -, hl'⟩ := hconn d kd hkd
    exact ⟨hmem, kd', hkd', hl'.trans hl⟩

theorem Base.record (h : s.Base) (hev : ∀ l c, ev = .event l c →
      .established l c ∈ s.log ∧ ∃ k, s.conn c = some k ∧ k.loop = l) : (s.record ev).Base := by
  refine { h with events := fun i l c hi => ?_ }
  have hget : (s.log ++ [ev])[i]? = some (.event l c) := hi
  show .established l c ∈ (s.log ++ [ev]).take i ∧ _
  by_cases hlt : i < s.log.length
  · rw [List.getElem?_append_left hlt] at hget
    rw [take_append_of_le_length (Nat.le_of_lt hlt)]
    exact h.events i l c hget
  · rw [List.getElem?_append_right (Nat.le_of_not_lt hlt)] at hget
    have hlast : ev = .event l c := by
      cases hi' : i - s.log.length with
      | zero => simpa [hi'] using hget
      | succ j => simp [hi'] at hget
    obtain ⟨hmem, hk⟩ := hev l c hlast
    have hwhole : s.log.length ≤ i := Nat.le_of_not_lt hlt
    rw [take_append, take_of_length_le hwhole]
    exact ⟨mem_append_left _ hmem, hk⟩

theorem Base.queueInLoop (h : s.Base) (l : LoopId) (f : ServerFunctor) :
    (s.queueInLoop l f).Base := { h with }

theorem Base.erase (h : s.Base) (n : List Char) :
    Base { s with connections := s.connections.erase n } := by
  refine { h with entries := fun m c hm => h.entries m c ?_ }
  by_cases hmn : m = n
  · subst hmn
    simp at hm
  · exact (AList.lookup_erase_ne hmn).symm.trans hm

theorem Base.names_ne (h : s.Base) (hk : s.conn c = some k) (hname : k.name = s.connName c)
    (hk' : s.conn c' = some k') (hname' : k'.name = s.connName c')
    (hne : c' ≠ c) : k'.name ≠ k.name := by
  intro heq
  rw [hname, hname'] at heq
  exact hne (connName_injective h.ipPort (h.ids c' k' hk').2 (h.ids c k hk).2 heq)

/-! ## the functors -/

theorem deref_of_conn (h : s.conn c = some k) : s.deref c = .ok k := by
  simp [deref, h]

/-- Everything but the connection `c`, which is being dealt with. -/
structure Rest (s : TcpServer) (c : ConnId) : Prop where
  base : s.Base
  others : ∀ c', c' ≠ c → s.Sound c'

theorem Rest.serverInv (h : s.Rest c) (st : Stage) (hat : s.At c k st (st.waiting c k.loop)) :
    s.ServerInv := by
  refine ⟨h.base, fun c' => ?_⟩
  by_cases hne : c' = c
  · exact hne ▸ .inl ⟨k, st, hat⟩
  · exact h.others c' hne

theorem Rest.update (h : s.Rest c) (hk : s.conn c = some k) (k' : ServerConn)
    (hname : k'.name = k.name) (hloop : k'.loop = k.loop)
    (hev : ev ∈ lifetime c k.loop) : ((s.setConn c k').record ev).Rest c := by
  refine ⟨(h.base.setConn hk hname hloop).record fun l d heq =>
    absurd heq (ne_event_of_mem_lifetime hev l d), ?_⟩
  intro c' hne
  refine (h.others c' hne).frame (update_of_ne hne _ _) rfl (fun _ => rfl)
    (fun _ _ _ => rfl) ?_
  show lifeOf c' (s.log ++ [ev]) = _
  rw [lifeOf_append, lifeOf_singleton hev, if_neg hne, append_nil]

theorem Rest.queueInLoop (h : s.Rest c) (l : LoopId) (hf : f.conn = c) :
    (s.queueInLoop l f).Rest c :=
  ⟨h.base.queueInLoop l f, fun c' hne => (h.others c' hne).frame rfl rfl
    (fun l' => waitingFor_queueInLoop_of_ne s l l' (hf ▸ hne.symm)) (fun _ _ _ => rfl) rfl⟩

theorem At.queueInLoop (hat : s.At c k st fun _ => []) (h : s.Rest c) {target : LoopId}
    (hf : f.conn = c) (hst : ∀ l, st.waiting c k.loop l = if l = target then [f] else []) :
    (s.queueInLoop target f).ServerInv := by
  refine (h.queueInLoop target hf).serverInv st
    { hat with waiting := fun l => ?_ }
  rw [waitingFor_queueInLoop, hat.waiting, hst]
  simp [hf]

theorem connectEstablished_spec (h : s.Rest c) (hat : s.At c k .accepted fun _ => []) :
    ∃ s', s.connectEstablished k.loop c = .ok s' ∧ s'.ServerInv := by
  obtain ⟨hstate, -⟩ := hat.fits
  have hev : .established k.loop c ∈ lifetime c k.loop := by simp [lifetime]
  have hrest := h.update hat.conn { k with state := .kConnected, registered := true } rfl rfl hev
  refine ⟨_, ?_, hrest.serverInv .opened ⟨update_self _ _ _, hat.name, ⟨.inl rfl, rfl⟩,
    hat.waiting, hat.entry, hat.life_record rfl⟩⟩
  rw [connectEstablished, deref_of_conn hat.conn]
  show (check _ _ >>= _) = _
  rw [check_of rfl]
  show (k.connectEstablished >>= _) = _
  rw [ServerConn.connectEstablished, check_of hstate]
  rfl

theorem connectDestroyed_spec (h : s.Rest c) (hat : s.At c k .erased fun _ => []) :
    ∃ s', s.connectDestroyed k.loop c = .ok s' ∧ s'.ServerInv := by
  obtain ⟨hstate, hregistered⟩ := hat.fits
  have hne : ¬ k.state = .kConnected := by simp [hstate]
  have hev : .destroyed k.loop c ∈ lifetime c k.loop := by simp [lifetime]
  have hrest := h.update hat.conn k rfl rfl hev
  refine ⟨_, ?_, hrest.serverInv .destroyed ⟨update_self _ _ _, hat.name, hat.fits,
    hat.waiting, hat.entry, hat.life_record rfl⟩⟩
  rw [connectDestroyed, deref_of_conn hat.conn]
  show (check _ _ >>= _) = _
  rw [check_of rfl]
  show (k.connectDestroyed >>= _) = _
  rw [ServerConn.connectDestroyed, if_neg hne, check_of hregistered]
  rfl

/-- `removeConnectionInLoop` on the base loop: the entry that goes is that of
the connection, and the entries of the others stay. -/
theorem removeConnectionInLoop_spec (h : s.Rest c) (hat : s.At c k .closing fun _ => []) :
    ∃ s', s.removeConnectionInLoop baseLoop c = .ok s' ∧ s'.ServerInv := by
  have hentry : s.connections.lookup k.name = some c := hat.entry
  have hev : .erased c (some c) ∈ lifetime c k.loop := by simp [lifetime]
  have hrest : (record { s with connections := s.connections.erase k.name }
      (.erased c (some c))).Rest c := by
    refine ⟨(h.base.erase k.name).record (by simp), fun c' hne => ?_⟩
    refine (h.others c' hne).frame rfl rfl (fun _ => rfl) (fun k' hk' hname' => ?_) ?_
    · exact AList.lookup_erase_ne (h.base.names_ne hat.conn hat.name hk' hname' hne)
    · show lifeOf c' (s.log ++ [.erased c (some c)]) = _
      rw [lifeOf_append, lifeOf_singleton hev, if_neg hne, append_nil]
  have herased : (record { s with connections := s.connections.erase k.name }
      (.erased c (some c))).At c k .erased fun _ => [] :=
    ⟨hat.conn, hat.name, hat.fits, hat.waiting, AList.lookup_erase _ _, hat.life_record rfl⟩
  refine ⟨_, ?_, herased.queueInLoop hrest (f := .connectDestroyed c) rfl fun _ => rfl⟩
  rw [removeConnectionInLoop, check_of rfl]
  show (s.deref c >>= _) = _
  rw [deref_of_conn hat.conn]
  show (check _ ((if (s.connections.lookup k.name).isSome then 1 else 0) = 1) >>= _) = _
  rw [hentry]
  rfl

/-- The functor of the stage is run at once or put on the queue of its loop. -/
theorem At.runInLoop (hat : s.At c k st fun _ => []) (h : s.Rest c) {l target : LoopId}
    (hf : f.conn = c) (hst : ∀ l, st.waiting c k.loop l = if l = target then [f] else [])
    (hcall : ∃ s', s.call target f = .ok s' ∧ s'.ServerInv) :
    ∃ s', s.runInLoop l target f = .ok s' ∧ s'.ServerInv := by
  unfold TcpServer.runInLoop
  by_cases hl : l = target
  · rw [if_pos hl, hl]
    exact hcall
  · rw [if_neg hl]
    exact ⟨_, rfl, hat.queueInLoop h hf hst⟩

/-- At most one functor waits for a connection, on the loop where it belongs,
and it is that of the stage. -/
theorem Stage.waiting_eq_cons {io l : LoopId} (h : st.waiting c io l = f :: fs) :
    fs = [] ∧ (∀ l', l' ≠ l → st.waiting c io l' = []) ∧
      ((st = .accepted ∧ l = io ∧ f = .connectEstablished c) ∨
        (st = .closing ∧ l = baseLoop ∧ f = .removeConnectionInLoop c) ∨
        (st = .erased ∧ l = io ∧ f = .connectDestroyed c)) := by
  cases st with
  | accepted | closing | erased =>
    simp only [Stage.waiting] at h ⊢
    split at h
    · rename_i hl
      obtain ⟨rfl, rfl⟩ := List.cons.inj h
      subst hl
      simp
    · cases h
  | opened | destroyed => cases h

/-- The queue of the loop without its first functor. -/
def popFunctor (s : TcpServer) (l : LoopId) : TcpServer :=
  { s with queues := update s.queues l (s.queues l).pop }

theorem waitingFor_popFunctor (hq : (s.queues l).waiting = f :: fs) (l' : LoopId) (c : ConnId) :
    s.waitingFor l' c =
      (if l' = l ∧ f.conn = c then [f] else []) ++ (s.popFunctor l).waitingFor l' c := by
  unfold waitingFor popFunctor
  by_cases hl : l' = l
  · subst hl
    by_cases hf : f.conn = c <;> simp [hq, hf, Fifo.waiting_pop hq]
  · simp [hl]

theorem callFunctor_spec (h : s.ServerInv) (hq : (s.queues l).waiting = f :: fs) :
    ∃ s', (s.popFunctor l).call l f = .ok s' ∧ s'.ServerInv := by
  have hpop := waitingFor_popFunctor hq
  have hrest : (s.popFunctor l).Rest f.conn := by
    refine ⟨⟨h.base.pool, h.base.ipPort, h.base.ids, h.base.entries, h.base.events⟩, ?_⟩
    intro c' hne
    refine (h.sound c').frame rfl rfl (fun l' => ?_) (fun _ _ _ => rfl) rfl
    rw [hpop l' c', if_neg fun hc => hne hc.2.symm, nil_append]
  have hself := hpop l f.conn
  rw [if_pos ⟨rfl, rfl⟩] at hself
  rcases h.sound f.conn with ⟨k, st, hat⟩ | ⟨-, hnone, -⟩
  · -- the functor is the one that waits for its connection, and it is gone from the queue
    rw [hat.waiting] at hself
    obtain ⟨hempty, hother, hstage⟩ := Stage.waiting_eq_cons hself
    have hhand : (s.popFunctor l).At f.conn k st fun _ => [] := by
      refine { hat with waiting := fun l' => ?_ }
      by_cases hl : l' = l
      · rw [hl]
        exact hempty
      · have hsame := hpop l' f.conn
        rw [if_neg fun hc => hl hc.1, nil_append, hat.waiting, hother l' hl] at hsame
        exact hsame.symm
    rcases hstage with ⟨rfl, rfl, hf⟩ | ⟨rfl, rfl, hf⟩ | ⟨rfl, rfl, hf⟩
    · rw [hf]
      exact connectEstablished_spec hrest hhand
    · rw [hf]
      exact removeConnectionInLoop_spec hrest hhand
    · rw [hf]
      exact connectDestroyed_spec hrest hhand
  · rw [hnone] at hself
    cases hself

theorem getNextLoop_spec {p : EventLoopThreadPool} (h : p.loops = [] ∨ p.next < p.loops.length) :
    ∃ l p', p.getNextLoop = some (l, p') ∧ (p'.loops = [] ∨ p'.next < p'.loops.length) := by
  unfold EventLoopThreadPool.getNextLoop
  split
  · rename_i hempty
    exact ⟨baseLoop, p, rfl, .inl hempty⟩
  · rename_i hne
    have hlt : p.next < p.loops.length := h.resolve_left hne
    rw [List.getElem?_eq_getElem hlt]
    refine ⟨_, _, rfl, .inr ?_⟩
    show (if p.loops.length ≤ p.next + 1 then 0 else p.next + 1) < p.loops.length
    split <;> omega

theorem Base.conn_ne (h : s.Base) (hk : s.conn c = some k) : c ≠ s.nextConnId :=
  Nat.ne_of_lt (h.ids c k hk).1

theorem addConnection_conn (s : TcpServer) (ioLoop : LoopId) (pool : EventLoopThreadPool)
    (hne : c ≠ s.nextConnId) : (s.addConnection ioLoop pool).conn c = s.conn c :=
  update_of_ne hne _ _

theorem Base.addConnection (h : s.Base) (hid : s.nextConnId ≤ INT_MAX) (ioLoop : LoopId)
    (hpool : pool.loops = [] ∨ pool.next < pool.loops.length) :
    (s.addConnection ioLoop pool).Base := by
  have hkept : ∀ c k, s.conn c = some k → (s.addConnection ioLoop pool).conn c = some k :=
    fun c k hk => (addConnection_conn s ioLoop pool (h.conn_ne hk)).trans hk
  refine ⟨hpool, h.ipPort, ?_, ?_, ?_⟩
  · intro c k hk
    show c < s.nextConnId + 1 ∧ _
    by_cases hc : c = s.nextConnId
    · rw [hc]
      exact ⟨Nat.lt_succ_self _, hid⟩
    · obtain ⟨hlt, hle⟩ := h.ids c k ((addConnection_conn s ioLoop pool hc).symm.trans hk)
      exact ⟨Nat.lt_succ_of_lt hlt, hle⟩
  · intro n c hn
    by_cases hnew : n = s.connName s.nextConnId
    · subst hnew
      have hc : s.nextConnId = c := Option.some.inj ((AList.lookup_insert _).symm.trans hn)
      subst hc
      exact ⟨_, update_self _ _ _, rfl⟩
    · obtain ⟨k, hk, hkn⟩ := h.entries n c ((AList.lookup_insert_ne hnew).symm.trans hn)
      exact ⟨k, hkept c k hk, hkn⟩
  · intro i l c hev
    obtain ⟨hmem, k, hk, hl⟩ := h.events i l c hev
    exact ⟨hmem, k, hkept c k hk, hl⟩

/-- The new entry replaces none: no other connection has the name. -/
theorem ServerInv.addConnection (h : s.ServerInv) (hid : s.nextConnId ≤ INT_MAX) (ioLoop : LoopId)
    (hpool : pool.loops = [] ∨ pool.next < pool.loops.length) :
    (s.addConnection ioLoop pool).Rest s.nextConnId := by
  refine ⟨h.base.addConnection hid ioLoop hpool, fun c' hne => ?_⟩
  refine (h.sound c').frame (addConnection_conn s ioLoop pool hne) rfl (fun _ => rfl)
    (fun k hk hname => AList.lookup_insert_ne fun heq => ?_) rfl
  rw [hname] at heq
  exact hne (connName_injective h.base.ipPort (h.base.ids c' k hk).2 hid heq)

theorem newConnection_spec (h : s.ServerInv) (hid : s.nextConnId ≤ INT_MAX) :
    ∃ s', s.newConnection = .ok s' ∧ s'.ServerInv := by
  obtain ⟨ioLoop, pool, hnext, hpool⟩ := getNextLoop_spec h.base.pool
  have hat : (s.addConnection ioLoop pool).At s.nextConnId
      ⟨s.connName s.nextConnId, ioLoop, .kConnecting, false⟩ .accepted fun _ => [] := by
    rcases h.sound s.nextConnId with ⟨k, st, hat⟩ | ⟨-, hnone, hlife⟩
    · exact absurd rfl (h.base.conn_ne hat.conn)
    · exact ⟨update_self _ _ _, rfl, ⟨rfl, rfl⟩, hnone, AList.lookup_insert _, hlife⟩
  have hrest := h.addConnection hid ioLoop hpool
  obtain ⟨s', hrun, hinv⟩ :=
    hat.runInLoop hrest rfl (fun _ => rfl) (connectEstablished_spec hrest hat)
  refine ⟨s', ?_, hinv⟩
  rw [newConnection, hnext]
  exact hrun

theorem ServerInv.atStage (h : s.ServerInv) (hk : s.conn c = some k) :
    ∃ st : Stage, s.At c k st (st.waiting c k.loop) := by
  rcases h.sound c with ⟨k', st, hat⟩ | ⟨hnone, -⟩
  · obtain rfl : k = k' := Option.some.inj (hk.symm.trans hat.conn)
    exact ⟨st, hat⟩
  · rw [hk] at hnone
    cases hnone

/-- The stage of a connection that can be closed. -/
theorem ServerInv.opened (h : s.ServerInv) (hk : s.conn c = some k)
    (hopen : k.state = .kConnected ∨ k.state = .kDisconnecting ∨ k.registered = true) :
    s.At c k .opened fun _ => [] := by
  obtain ⟨st, hat⟩ := h.atStage hk
  have hfits := hat.fits
  cases st with
  | opened => exact hat
  | accepted | closing | erased | destroyed =>
    rcases hopen with hs | hs | hs <;> simp [Stage.Fits, hs] at hfits

theorem ServerInv.rest (h : s.ServerInv) (c : ConnId) : s.Rest c :=
  ⟨h.base, fun c' _ => h.sound c'⟩

theorem handleClose_spec (h : s.ServerInv) (hk : s.conn c = some k)
    (hopen : k.state = .kConnected ∨ k.state = .kDisconnecting) :
    ∃ s', s.handleClose c k = .ok s' ∧ s'.ServerInv := by
  have hat := h.opened hk (hopen.imp_right .inl)
  have hev : .closed k.loop c ∈ lifetime c k.loop := by simp [lifetime]
  have hrest := (h.rest c).update hk { k with state := .kDisconnected, registered := false }
    rfl rfl hev
  have hclosing : ((s.setConn c { k with state := .kDisconnected, registered := false }).record
      (.closed k.loop c)).At c { k with state := .kDisconnected, registered := false } .closing
        fun _ => [] :=
    ⟨update_self _ _ _, hat.name, ⟨rfl, rfl⟩, hat.waiting, hat.entry,
      hat.life_record rfl⟩
  obtain ⟨s', hrun, hinv⟩ :=
    hclosing.runInLoop hrest rfl (fun _ => rfl) (removeConnectionInLoop_spec hrest hclosing)
  refine ⟨s', ?_, hinv⟩
  rw [handleClose, ServerConn.handleClose, check_of hopen]
  exact hrun

/-- An event is recorded; the channel is registered since
`connectEstablished`. -/
theorem event_spec (h : s.ServerInv) (hk : s.conn c = some k) (hregistered : k.registered = true) :
    (s.record (.event k.loop c)).ServerInv := by
  have hat := h.opened hk (.inr (.inr hregistered))
  have hmem : .established k.loop c ∈ s.log := by
    have hlife : .established k.loop c ∈ lifeOf c s.log := by
      rw [hat.life]
      simp [lifetime, Stage.passed]
    exact (mem_filter.mp hlife).1
  refine ⟨h.base.record fun l d heq => ?_, fun c' => ?_⟩
  · obtain ⟨rfl, rfl⟩ := ServerEvent.event.inj heq
    exact ⟨hmem, k, hk, rfl⟩
  · refine (h.sound c').frame rfl rfl (fun _ => rfl) (fun _ _ _ => rfl) ?_
    show lifeOf c' (s.log ++ [.event k.loop c]) = _
    rw [lifeOf_append]
    simp [lifeOf]

theorem shutdown_spec (h : s.ServerInv) (hk : s.conn c = some k) (hstate : k.state = .kConnected) :
    (s.setConn c { k with state := .kDisconnecting }).ServerInv := by
  have hat := h.opened hk (.inl hstate)
  have hrest : (s.setConn c { k with state := .kDisconnecting }).Rest c :=
    ⟨h.base.setConn hk rfl rfl, fun c' hne => (h.sound c').frame (update_of_ne hne _ _)
      rfl (fun _ => rfl) (fun _ _ _ => rfl) rfl⟩
  exact hrest.serverInv .opened ⟨update_self _ _ _, hat.name,
    ⟨.inr rfl, hat.fits.2⟩, hat.waiting, hat.entry, hat.life⟩

/-- The numbers of the connections are `int`s. -/
def WithinInt (s : TcpServer) : Label → Prop
  | .accept => s.nextConnId ≤ INT_MAX
  | _ => True

instance (s : TcpServer) : (a : Label) → Decidable (s.WithinInt a)
  | .accept => inferInstanceAs (Decidable (s.nextConnId ≤ INT_MAX))
  | .callFunctor _ | .event _ | .close _ | .shutdown _ => .isTrue trivial

/-- **Step.** No step of a loop fails, and each connection is at a stage
after it. -/
theorem step_server (h : s.ServerInv) {a : Label} (hint : s.WithinInt a) :
    ∃ s', s.step a = .ok s' ∧ s'.ServerInv := by
  cases a with
  | accept => exact newConnection_spec h hint
  | callFunctor l =>
    simp only [step]
    cases hq : (s.queues l).waiting with
    | nil => exact ⟨s, rfl, h⟩
    | cons f fs => exact callFunctor_spec h hq
  | event c =>
    simp only [step]
    cases hk : s.conn c with
    | none => exact ⟨s, rfl, h⟩
    | some k =>
      by_cases hregistered : k.registered = true
      · exact ⟨_, if_pos hregistered, event_spec h hk hregistered⟩
      · exact ⟨s, if_neg hregistered, h⟩
  | close c =>
    simp only [step]
    cases hk : s.conn c with
    | none => exact ⟨s, rfl, h⟩
    | some k =>
      by_cases hopen : k.state = .kConnected ∨ k.state = .kDisconnecting
      · obtain ⟨s', hclose, hinv⟩ := handleClose_spec h hk hopen
        exact ⟨s', (if_pos hopen).trans hclose, hinv⟩
      · exact ⟨s, if_neg hopen, h⟩
  | shutdown c =>
    simp only [step]
    cases hk : s.conn c with
    | none => exact ⟨s, rfl, h⟩
    | some k =>
      by_cases hstate : k.state = .kConnected
      · exact ⟨_, if_pos hstate, shutdown_spec h hk hstate⟩
      · exact ⟨s, if_neg hstate, h⟩

end

/-- The connections of the server are in order. -/
structure Orderly (s : TcpServer) : Prop where
  /-- Two accepted connections have two names. -/
  names : ∀ c c' k k', s.conn c = some k → s.conn c' = some k' → k.name = k'.name → c = c'
  /-- An entry of `connections_` is of the connection with its name. -/
  entries : ∀ n c, s.connections.lookup n = some c → ∃ k, s.conn c = some k ∧ k.name = n
  /-- `connectEstablished` has run once, or waits once, on the loop of the
  connection. -/
  established : ∀ c k, s.conn c = some k → s.log.count (.established k.loop c) +
    (s.queues k.loop).waiting.count (.connectEstablished c) = 1
  /-- What has been run for a connection is the beginning of its lifetime:
  established, closed, erased with its own entry, destroyed; each at most
  once, in this order, and on its loop. -/
  life : ∀ c k, s.conn c = some k → lifeOf c s.log <+: lifetime c k.loop
  /-- An event is handled after `connectEstablished`, on the loop of the
  connection. -/
  events : ∀ i l c, s.log[i]? = some (.event l c) →
    .established l c ∈ s.log.take i ∧ ∃ k, s.conn c = some k ∧ k.loop = l

section
variable {s : TcpServer} {c : ConnId} {k : ServerConn}

/-- `connectEstablished` waits at the first stage and has run at the others. -/
theorem At.count_established (h : s.At c k st (st.waiting c k.loop)) :
    s.log.count (.established k.loop c) +
      (s.queues k.loop).waiting.count (.connectEstablished c) = 1 := by
  have hlog : s.log.count (.established k.loop c) =
      ((lifetime c k.loop).take st.passed).count (.established k.loop c) := by
    rw [← h.life, lifeOf, count_filter (by simp)]
  have hwaiting : (s.queues k.loop).waiting.count (.connectEstablished c) =
      (st.waiting c k.loop k.loop).count (.connectEstablished c) := by
    rw [← h.waiting, waitingFor, count_filter (by simp [ServerFunctor.conn])]
  rw [hlog, hwaiting]
  cases st with
  | closing =>
    simp only [Stage.waiting]
    split <;> simp [lifetime, Stage.passed]
  | accepted | opened | erased | destroyed => simp [lifetime, Stage.passed, Stage.waiting]

theorem ServerInv.orderly (h : s.ServerInv) : s.Orderly := by
  refine ⟨?_, h.base.entries, ?_, ?_, h.base.events⟩
  · intro c c' k k' hk hk' heq
    obtain ⟨st, hat⟩ := h.atStage hk
    obtain ⟨st', hat'⟩ := h.atStage hk'
    by_contra hne
    exact h.base.names_ne hk' hat'.name hk hat.name hne heq
  · intro c k hk
    obtain ⟨st, hat⟩ := h.atStage hk
    exact hat.count_established
  · intro c k hk
    obtain ⟨st, hat⟩ := h.atStage hk
    rw [hat.life]
    exact take_prefix _ _

theorem serverInv_create (listenAddr : InetAddress) (nameArg : List Char) (loops : List LoopId) :
    (create listenAddr nameArg loops).ServerInv := by
  refine ⟨⟨?_, listenAddr.length_toIpPort, ?_, ?_, ?_⟩, fun c => .inr ⟨rfl, fun _ => rfl, rfl⟩⟩
  · cases loops with
    | nil => exact .inl rfl
    | cons l ls => exact .inr (Nat.succ_pos _)
  · intro c k hk
    cases hk
  · intro n c hn
    simp [create] at hn
  · intro i l c hev
    simp [create] at hev

end

/-- `127.0.0.1:2007` -/
def echoAddr : InetAddress := ⟨"127.0.0.1".toList, 2007, length_localhost⟩

/-- Two connections on two loops; both close before the base loop has removed
the first. -/
def twoCloses : List Label :=
  [.accept, .accept, .callFunctor 2, .callFunctor 1, .event 1, .close 1, .shutdown 2, .close 2,
    .callFunctor 0, .callFunctor 0, .callFunctor 2, .callFunctor 1]

end TcpServer

end Muduo
