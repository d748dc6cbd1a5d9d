import Muduo.Connector.Attempt

/-!
# Muduo.Connector.Sockets

What becomes of the sockets of a connector that a `TcpClient` drives.

The client calls `start()` once, `restart()` once for each connection that was
handed to it and is closed again, and `stop()` at most once and after that
nothing.  A connection that was handed out is closed by an event of a later
poll or by a functor behind `resetChannel`, so `resetChannel` has run by then.
A retry timer, however, may expire in the very loop iteration in which the
attempt failed, before the functors of that iteration: with the old channel
still in place, `connecting` then fails its assertion.
-/

namespace Muduo.Connector

open Lib

/-! ## the life of a socket -/

/-- A socket that `connect()` has made, with the number of times it was passed
to `newConnectionCallback_` and closed. -/
structure Life where
  sockfd : Nat
  handed : Nat
  closed : Nat
deriving DecidableEq, Repr

/-- The youngest socket with a descriptor. -/
def modifyFirst (sockfd : Nat) (f : Life → Life) : List Life → List Life
  | [] => []
  | l :: ls => if l.sockfd = sockfd then f l :: ls else l :: modifyFirst sockfd f ls

def track (ls : List Life) : SocketEvent → List Life
  | .created sockfd => ⟨sockfd, 0, 0⟩ :: ls
  | .handed sockfd => modifyFirst sockfd (fun l => { l with handed := l.handed + 1 }) ls
  | .closed sockfd => modifyFirst sockfd (fun l => { l with closed := l.closed + 1 }) ls

/-- The sockets of a log, the youngest first. -/
def lives (log : List SocketEvent) : List Life := log.foldl track []

/-- The connector is done with the socket: it was passed on once and not
closed, or closed once and not passed on. -/
def Life.Settled (l : Life) : Prop := l.handed = 1 ∧ l.closed = 0 ∨ l.handed = 0 ∧ l.closed = 1

/-- The socket was neither passed on nor closed. -/
def Life.Open (l : Life) : Prop := l.handed = 0 ∧ l.closed = 0

instance : DecidablePred Life.Settled := fun _ => inferInstanceAs (Decidable (_ ∨ _))

instance : DecidablePred Life.Open := fun _ => inferInstanceAs (Decidable (_ ∧ _))

/-- The socket is the one of `channel_`, while the state is `kConnecting`. -/
def OwnedByChannel (s : Connector) (l : Life) : Prop :=
  s.state = .kConnecting ∧ ∃ ch, s.channel = some ch ∧ ch.fd = l.sockfd

def SocketEvent.isHanded : SocketEvent → Bool
  | .handed _ => true
  | .created _ | .closed _ => false

/-- How many sockets were passed to `newConnectionCallback_`. -/
def handedCount (s : Connector) : Nat := s.log.countP SocketEvent.isHanded

/-! ## the client -/

/-- The connection that was handed out since the last `start()` or
`restart()`. -/
inductive Connection
  | none
  | opened
  | closed
deriving DecidableEq, Repr

/-- `handedAtStop` is the number of sockets that had been handed out when
`stopInLoop` ran. -/
structure Client where
  connector : Connector
  started : Bool
  stopped : Bool
  connection : Connection
  handedAtStop : Option Nat

namespace Client

inductive Label
  | call (a : Connector.Label)
  /-- The connection is closed. -/
  | close
deriving DecidableEq

/-- A client before `start()`. -/
def create (p : EPollPoller) : Client := ⟨.create p, false, false, .none, .none⟩

/-- The calls that the client makes; the other labels are not calls. -/
def Makes (c : Client) : Connector.Label → Prop
  | .start _ => c.started = false ∧ c.stopped = false
  | .startHere io => c.started = false ∧ c.stopped = false ∧ c.connector.CanRun io
  | .restart io => c.connection = .closed ∧ c.stopped = false ∧ c.connector.CanRun io
  | .stop _ => c.stopped = false
  | .stopHere => c.stopped = false ∧ c.connector.todo = []
  | .startPush _ | .stopPush _ | .runFunctor _ | .timer _ _ | .event _ | .callback _ => True

instance (c : Client) : DecidablePred c.Makes
  | .stop _ => inferInstanceAs (Decidable (_ = _))
  | .start _ | .startHere _ | .restart _ | .stopHere => inferInstanceAs (Decidable (_ ∧ _))
  | .startPush _ | .stopPush _ | .runFunctor _ | .timer _ _ | .event _ | .callback _ =>
    .isTrue trivial

/-- The connection can be closed: it was handed out in an earlier iteration of
the loop. -/
def CanClose (c : Client) : Prop :=
  c.connection = .opened ∧ c.connector.todo = [] ∧ .resetChannel ∉ c.connector.pendingFunctors

instance (c : Client) : Decidable c.CanClose := inferInstanceAs (Decidable (_ ∧ _))

/-- The step runs `stopInLoop`. -/
def ProcessesStop (s : Connector) : Connector.Label → Prop
  | .runFunctor io => s.pendingFunctors.head? = some .stopInLoop ∧ s.CanRun io
  | _ => False

instance (s : Connector) : DecidablePred (ProcessesStop s)
  | .runFunctor _ => inferInstanceAs (Decidable (_ ∧ _))
  | .start _ | .startHere _ | .restart _ | .stop _ | .stopPush _ | .stopHere | .startPush _
  | .timer _ _ | .event _ | .callback _ => .isFalse id

def isStart : Connector.Label → Bool
  | .start _ | .startHere _ => true
  | _ => false

def isStop : Connector.Label → Bool
  | .stop _ | .stopHere => true
  | _ => false

def isRestart : Connector.Label → Bool
  | .restart _ => true
  | _ => false

/-- The client after the connector has gone from `c.connector` to `s` by `a`. -/
def next (c : Client) (a : Connector.Label) (s : Connector) : Client where
  connector := s
  started := c.started || isStart a
  stopped := c.stopped || isStop a
  connection :=
    if c.connector.handedCount < s.handedCount then .opened
    else if isRestart a then .none
    else c.connection
  handedAtStop :=
    if c.handedAtStop = .none ∧ ProcessesStop c.connector a then some s.handedCount
    else c.handedAtStop

/-- One step.  A call that the client does not make leaves the state
unchanged. -/
def step (c : Client) : Label → Except Fault Client
  | .call a =>
    if c.Makes a then do
      let s ← c.connector.step a
      return c.next a s
    else .ok c
  | .close => .ok (if c.CanClose then { c with connection := .closed } else c)

/-- Every socket is in one place: with the channel, handed out or closed; and
none is handed out after `stop()` was processed. -/
structure Accounted (c : Client) : Prop where
  lives : ∀ l ∈ lives c.connector.log, l.Settled ∨ l.Open ∧ c.connector.OwnedByChannel l
  owned : (Connector.lives c.connector.log).countP (decide ·.Open) =
    if c.connector.state = .kConnecting then 1 else 0
  afterStop : ∀ n ∈ c.handedAtStop, c.connector.handedCount = n

/-- A timer that gets to `connecting` expires after `resetChannel`. -/
def Timely (c : Client) : Label → Prop
  | .call (.timer k io) => k < c.connector.timers.length ∧ c.connector.CanRun io →
      c.connector.connect = true → connects io.errno = true → c.connector.channel = none
  | _ => True

end Client

/-! ## the log -/

theorem lives_append (log log' : List SocketEvent) : lives (log ++ log') = log'.foldl track (lives log) :=
  List.foldl_append

theorem countP_open {ls : List Life} (h : ∀ l ∈ ls, l.Settled) : ls.countP (decide ·.Open) = 0 := by
  rw [List.countP_eq_zero]
  intro l hl hopen
  have hset := h l hl
  have hboth : l.handed = 0 ∧ l.closed = 0 := of_decide_eq_true hopen
  simp [Life.Settled, hboth] at hset

/-- The log says where the sockets are: the youngest one is with the channel
while the state is `kConnecting`, the others are settled. -/
structure LogInv (s : Connector) : Prop where
  connecting : s.state = .kConnecting → ∃ ch ls, s.channel = some ch ∧
    lives s.log = ⟨ch.fd, 0, 0⟩ :: ls ∧ ∀ l ∈ ls, l.Settled
  settled : s.state ≠ .kConnecting → ∀ l ∈ lives s.log, l.Settled

section
variable {s s' t : Connector}

theorem LogInv.of_settled (hstate : s.state ≠ .kConnecting) (h : ∀ l ∈ lives s.log, l.Settled) :
    LogInv s :=
  ⟨fun hs => absurd hs hstate, fun _ => h⟩

theorem LogInv.congr (h : LogInv s) (hstate : t.state = s.state) (hchannel : t.channel = s.channel)
    (hlog : t.log = s.log) : LogInv t := by
  constructor
  · rw [hstate, hchannel, hlog]
    exact h.connecting
  · rw [hstate, hlog]
    exact h.settled

/-- **What a step does to the sockets** keeps the account. -/
theorem Deals.logInv (h : s.Deals s') (hs : LogInv s) : LogInv s' := by
  cases h with
  | nothing hlog hstate hchannel =>
    constructor
    · intro hst
      rw [hstate] at hst
      rw [hlog, hchannel.resolve_right fun hno => hno.1 hst]
      exact hs.connecting hst
    · rw [hstate, hlog]
      exact hs.settled
  | attempted ch hst hst' hch hlog =>
    refine ⟨fun _ => ⟨ch, lives s.log, hch, ?_, hs.settled (by simp [hst])⟩,
      fun hno => absurd hst' hno⟩
    rw [hlog, lives_append]
    rfl
  | refused sockfd hst hst' hlog =>
    refine .of_settled (by simp [hst']) ?_
    rw [hlog, lives_append]
    have hold := hs.settled (by simp [hst])
    simpa [track, modifyFirst, Life.Settled] using hold
  | closed ch hst hch hst' hlog =>
    obtain ⟨ch', ls, hch', hlives, hold⟩ := hs.connecting hst
    obtain rfl : ch' = ch := Option.some.inj (hch'.symm.trans hch)
    refine .of_settled hst' ?_
    rw [hlog, lives_append, hlives]
    simpa [track, modifyFirst, Life.Settled] using hold
  | handed ch hst hch _ hst' hlog =>
    obtain ⟨ch', ls, hch', hlives, hold⟩ := hs.connecting hst
    obtain rfl : ch' = ch := Option.some.inj (hch'.symm.trans hch)
    refine .of_settled (by simp [hst']) ?_
    rw [hlog, lives_append, hlives]
    simpa [track, modifyFirst, Life.Settled] using hold

theorem Deals.handedCount_eq (h : s.Deals s') :
    s'.handedCount = s.handedCount ∨
      s.connect = true ∧ s.state = .kConnecting ∧ s'.state = .kConnected := by
  cases h with
  | nothing hlog _ _ => exact .inl (by rw [handedCount, hlog, handedCount])
  | attempted ch _ _ _ hlog => exact .inl (by simp [handedCount, hlog, SocketEvent.isHanded])
  | refused sockfd _ _ hlog => exact .inl (by simp [handedCount, hlog, SocketEvent.isHanded])
  | closed ch _ _ _ hlog => exact .inl (by simp [handedCount, hlog, SocketEvent.isHanded])
  | handed ch hst _ hconnect hst' _ => exact .inr ⟨hconnect, hst, hst'⟩

theorem Deals.of_connected (h : s.Deals s') (hstate : s.state = .kConnected) :
    s'.state = .kConnected ∧ (s.channel = none → s'.channel = none) := by
  cases h with
  | nothing _ hst hch =>
    refine ⟨hst.trans hstate, fun hnone => ?_⟩
    cases hch with
    | inl hsame => exact hsame.trans hnone
    | inr hgone => exact hgone.2
  | attempted _ hst | refused _ hst | closed _ hst | handed _ hst => simp [hstate] at hst

end

namespace Client

/-! ## the invariant -/

structure ClientInv (p : EPollPoller) (c : Client) : Prop where
  inv : c.connector.Inv
  log : LogInv c.connector
  fresh : c.started = false → c.stopped = false → c.connector = .create p
  connected : c.connection ≠ .none → c.connector.state = .kConnected
  reset : c.connection = .closed → c.connector.channel = none
  connect : c.stopped = true → c.connector.connect = false
  stops : .stopInLoop ∈ c.connector.pendingFunctors ∨ c.connector.stopping ≠ [] → c.stopped = true
  afterStop : ∀ n ∈ c.handedAtStop, c.stopped = true ∧ c.connector.handedCount = n

variable {p : EPollPoller} {c : Client}

theorem ClientInv.accounted (h : ClientInv p c) : c.Accounted := by
  by_cases hstate : c.connector.state = .kConnecting
  · obtain ⟨ch, ls, hch, hlives, hold⟩ := h.log.connecting hstate
    refine ⟨?_, ?_, fun n hn => (h.afterStop n hn).2⟩
    · rw [hlives]
      refine List.forall_mem_cons.mpr ⟨.inr ⟨⟨rfl, rfl⟩, hstate, ch, hch, rfl⟩, fun l hl => ?_⟩
      exact .inl (hold l hl)
    · rw [hlives, if_pos hstate, List.countP_cons, countP_open hold]
      simp [Life.Open]
  · have hold := h.log.settled hstate
    refine ⟨fun l hl => .inl (hold l hl), ?_, fun n hn => (h.afterStop n hn).2⟩
    rw [if_neg hstate, countP_open hold]

variable {a : Connector.Label}

theorem ClientInv.stopped_of_processes (h : ClientInv p c)
    (ha : ProcessesStop c.connector a) : c.stopped = true := by
  cases a with
  | runFunctor io => exact h.stops (.inl (List.mem_of_mem_head? (Option.mem_def.mpr ha.1)))
  | _ => contradiction

theorem clientInv_create (p : EPollPoller) : ClientInv p (create p) where
  inv := inv_create p
  log := .of_settled (by simp [create, Connector.create]) (by simp [create, Connector.create, lives])
  fresh _ _ := rfl
  connected := by simp [create]
  reset := by simp [create]
  connect := by simp [create]
  stops := by simp [create, Connector.create]
  afterStop := by simp [create]

/-- **The next client.** The step went from `t`, which is the connector with the
assignments of the call made, to `s`. -/
theorem ClientInv.next (h : ClientInv p c) {t s : Connector} (hinv : s.Inv) (hdeals : t.Deals s)
    (hlog : LogInv t) (hsame : t.log = c.connector.log)
    (hkept : isRestart a = false → t.state = c.connector.state ∧ t.channel = c.connector.channel)
    (hgiven : t.connect = true → c.stopped = false)
    (hfresh : (c.next a s).started = false → (c.next a s).stopped = false → s = .create p)
    (hconnect : (c.next a s).stopped = true → s.connect = false)
    (hstops : .stopInLoop ∈ s.pendingFunctors ∨ s.stopping ≠ [] → (c.next a s).stopped = true) :
    ClientInv p (c.next a s) := by
  have hcount : t.handedCount = c.connector.handedCount := by rw [handedCount, hsame, handedCount]
  have hhanded := hdeals.handedCount_eq
  rw [hcount] at hhanded
  constructor
  · exact hinv
  · exact hdeals.logInv hlog
  · exact hfresh
  · intro hne
    obtain heq | ⟨-, -, hst⟩ := hhanded
    · simp only [Client.next, heq, Nat.lt_irrefl, if_false] at hne
      cases hrestart : isRestart a with
      | true => simp [hrestart] at hne
      | false =>
        have hstate := (hkept hrestart).1.trans (h.connected (by simpa [hrestart] using hne))
        exact (hdeals.of_connected hstate).1
    · exact hst
  · intro hclosed
    simp only [Client.next] at hclosed
    split at hclosed
    · cases hclosed
    · cases hrestart : isRestart a with
      | true => simp [hrestart] at hclosed
      | false =>
        simp only [hrestart, Bool.false_eq_true, if_false] at hclosed
        obtain ⟨hstate, hchannel⟩ := hkept hrestart
        have hconn := h.connected (by simp [hclosed])
        exact (hdeals.of_connected (hstate.trans hconn)).2 (hchannel.trans (h.reset hclosed))
  · exact hconnect
  · exact hstops
  · intro n hn
    simp only [Client.next] at hn ⊢
    split at hn
    · next hstop =>
      rw [h.stopped_of_processes hstop.2]
      exact ⟨rfl, Option.some.inj hn⟩
    · obtain ⟨hstopped, hold⟩ := h.afterStop n hn
      refine ⟨by simp [hstopped], ?_⟩
      obtain heq | ⟨hc, -, -⟩ := hhanded
      · exact heq.trans hold
      · simp [hgiven hc] at hstopped

/-- Before `start()` there is nothing to do. -/
theorem step_create (ha : (Connector.create p).Serves a) :
    (Connector.create p).step a = .ok (.create p) := by
  cases a with
  | startPush t => simp [Connector.step, Connector.create]
  | runFunctor io => rfl
  | timer k io => simp [Connector.step, Connector.create]
  | event revents => rfl
  | callback so => rfl
  | start _ | startHere _ | restart _ | stop _ | stopPush _ | stopHere => contradiction

theorem ClientInv.step_served (h : ClientInv p c) (ha : c.connector.Serves a) :
    ∃ s, c.connector.step a = .ok s ∧ ClientInv p (c.next a s) := by
  have hquiet : isStart a = false ∧ isStop a = false ∧ isRestart a = false := by
    cases a <;> first | exact ⟨rfl, rfl, rfl⟩ | contradiction
  obtain ⟨hstart, hstop, -⟩ := hquiet
  obtain ⟨s, hok, hinv, hserved⟩ := h.inv.step_served ha
  refine ⟨s, hok, h.next hinv hserved.deals h.log rfl (fun _ => ⟨rfl, rfl⟩) ?_ ?_ ?_ ?_⟩
  · intro hc
    by_contra hstopped
    simp [h.connect (by simpa using hstopped)] at hc
  · intro hns hnp
    have hcreate := h.fresh (by simpa [Client.next, hstart] using hns)
      (by simpa [Client.next, hstop] using hnp)
    rw [hcreate] at hok ha
    rw [step_create ha] at hok
    exact (Except.ok.inj hok).symm
  · intro hs
    rw [hserved.connect]
    exact h.connect (by simpa [Client.next, hstop] using hs)
  · intro hs
    have hbefore := h.stops (hs.imp hserved.stops fun hne => hserved.stopping ▸ hne)
    simp [Client.next, hbefore]

theorem idle_create (p : EPollPoller) : (Connector.create p).Idle := ⟨nofun, rfl⟩

/-- A call that only makes assignments and pushes functors. -/
theorem ClientInv.step_assigns (h : ClientInv p c) {s : Connector} (hinv : s.Inv)
    (hstate : s.state = c.connector.state) (hchannel : s.channel = c.connector.channel)
    (hlog : s.log = c.connector.log) (hgiven : s.connect = true → c.stopped = false)
    (hfresh : (c.next a s).started = false → (c.next a s).stopped = false → s = .create p)
    (hconnect : (c.next a s).stopped = true → s.connect = false)
    (hstops : .stopInLoop ∈ s.pendingFunctors ∨ s.stopping ≠ [] → (c.next a s).stopped = true) :
    ClientInv p (c.next a s) :=
  h.next hinv (Served.refl s).deals (h.log.congr hstate hchannel hlog) hlog
    (fun _ => ⟨hstate, hchannel⟩) hgiven hfresh hconnect hstops

theorem ClientInv.step_start (h : ClientInv p c) {t : Nat} (ha : c.Makes (.start t)) :
    ∃ s, c.connector.step (.start t) = .ok s ∧ ClientInv p (c.next (.start t) s) := by
  obtain ⟨hstarted, hstopped⟩ := ha
  have hcreate := h.fresh hstarted hstopped
  have hidle : c.connector.Idle := hcreate ▸ idle_create p
  have hdisc : c.connector.state = .kDisconnected := by rw [hcreate]; rfl
  refine ⟨_, rfl, h.step_assigns (h.inv.step_start hidle hdisc) rfl rfl rfl (fun _ => hstopped)
    ?_ ?_ ?_⟩
  · simp [Client.next, isStart]
  · simp [Client.next, isStop, hstopped]
  · intro hs
    have hbefore := h.stops hs
    simp [hstopped] at hbefore

theorem ClientInv.step_startHere (h : ClientInv p c) {io : ConnectIo} (ha : c.Makes (.startHere io)) :
    ∃ s, c.connector.step (.startHere io) = .ok s ∧ ClientInv p (c.next (.startHere io) s) := by
  obtain ⟨hstarted, hstopped, hrun⟩ := ha
  have hcreate := h.fresh hstarted hstopped
  have hidle : c.connector.Idle := hcreate ▸ idle_create p
  obtain ⟨s, hok, hinv, hserved⟩ := h.inv.step_startHere hidle (by rw [hcreate]; rfl)
    (by rw [hcreate]; rfl) hrun
  refine ⟨s, hok, h.next hinv hserved.deals (h.log.congr rfl rfl rfl) rfl (fun _ => ⟨rfl, rfl⟩)
    (fun _ => hstopped) ?_ ?_ ?_⟩
  · simp [Client.next, isStart]
  · simp [Client.next, isStop, hstopped]
  · intro hs
    have hbefore := h.stops (hs.imp hserved.stops fun hne => hserved.stopping ▸ hne)
    simp [hstopped] at hbefore

theorem ClientInv.step_restart (h : ClientInv p c) {io : ConnectIo} (ha : c.Makes (.restart io)) :
    ∃ s, c.connector.step (.restart io) = .ok s ∧ ClientInv p (c.next (.restart io) s) := by
  obtain ⟨hclosed, hstopped, hrun⟩ := ha
  have hconn := h.connected (by simp [hclosed])
  have hne : c.connector.state ≠ .kConnecting := by simp [hconn]
  have hidle : c.connector.Idle := ⟨hne, (h.inv.resting hne).connected hconn⟩
  have hstarted : c.started = true := by
    by_contra hns
    have hcreate := h.fresh (by simpa using hns) hstopped
    rw [hcreate] at hconn
    cases hconn
  obtain ⟨s, hok, hinv, hserved⟩ := h.inv.step_restart hidle (h.reset hclosed) hrun
  refine ⟨s, hok, h.next hinv hserved.deals (.of_settled (by simp) (h.log.settled hne)) rfl
    (by simp [isRestart]) (fun _ => hstopped) ?_ ?_ ?_⟩
  · simp [Client.next, hstarted]
  · simp [Client.next, isStop, hstopped]
  · intro hs
    have hbefore := h.stops (hs.imp hserved.stops fun hne => hserved.stopping ▸ hne)
    simp [hstopped] at hbefore

/-- `stop()`: the assignment … -/
theorem ClientInv.step_stop (h : ClientInv p c) (t : Nat) :
    ∃ s, c.connector.step (.stop t) = .ok s ∧ ClientInv p (c.next (.stop t) s) := by
  refine ⟨_, rfl, h.step_assigns (h.inv.congr rfl rfl rfl rfl rfl rfl rfl rfl) rfl rfl rfl (by simp)
    ?_ (by simp) fun _ => ?_⟩
  · simp [Client.next, isStop]
  · simp [Client.next, isStop]

/-- … and the push. -/
theorem ClientInv.step_stopPush (h : ClientInv p c) (t : Nat) :
    ∃ s, c.connector.step (.stopPush t) = .ok s ∧ ClientInv p (c.next (.stopPush t) s) := by
  have hgiven : c.connector.connect = true → c.stopped = false := by
    intro hc
    by_contra hstopped
    simp [h.connect (by simpa using hstopped)] at hc
  by_cases hmem : t ∈ c.connector.stopping
  · have hstopped : c.stopped = true := h.stops (.inr (List.ne_nil_of_mem hmem))
    refine ⟨_, if_pos hmem, h.step_assigns
      (h.inv.congr rfl rfl rfl rfl rfl rfl rfl (by simp [work, queueInLoop])) rfl rfl rfl hgiven
      ?_ (fun _ => h.connect hstopped) fun _ => ?_⟩
    · simp [Client.next, hstopped]
    · simp [Client.next, hstopped]
  · refine ⟨c.connector, if_neg hmem, h.step_assigns h.inv rfl rfl rfl hgiven ?_ ?_ ?_⟩
    · simpa [Client.next, isStart, isStop] using h.fresh
    · simpa [Client.next, isStop] using h.connect
    · simpa [Client.next, isStop] using h.stops

theorem ClientInv.step_stopHere (h : ClientInv p c) (htodo : c.connector.todo = []) :
    ∃ s, c.connector.step .stopHere = .ok s ∧ ClientInv p (c.next .stopHere s) := by
  refine ⟨_, if_pos htodo, h.step_assigns
    (h.inv.congr rfl rfl rfl rfl rfl rfl rfl (by simp [work, queueInLoop])) rfl rfl rfl
    (by simp [queueInLoop]) ?_ (fun _ => rfl) fun _ => ?_⟩
  · simp [Client.next, isStop]
  · simp [Client.next, isStop]

theorem ClientInv.close (h : ClientInv p c) (hclose : c.CanClose) :
    ClientInv p { c with connection := .closed } := by
  obtain ⟨hopened, -, hqueue⟩ := hclose
  have hconn := h.connected (by simp [hopened])
  refine { h with connected := fun _ => hconn, reset := fun _ => ?_ }
  have hwork := (h.inv.resting (by simp [hconn])).work
  by_contra hsome
  rw [if_neg hsome] at hwork
  exact hqueue ((mem_work (by decide)).mp (by rw [hwork]; simp))

theorem ClientInv.step (h : ClientInv p c) {a : Label} (ha : c.Timely a) :
    ∃ c', c.step a = .ok c' ∧ ClientInv p c' := by
  cases a with
  | close =>
    by_cases hclose : c.CanClose
    · exact ⟨_, congrArg _ (if_pos hclose), h.close hclose⟩
    · exact ⟨c, congrArg _ (if_neg hclose), h⟩
  | call a =>
    by_cases hmakes : c.Makes a
    · have hcall : ∃ s, c.connector.step a = .ok s ∧ ClientInv p (c.next a s) := by
        cases a with
        | start t => exact h.step_start hmakes
        | startHere io => exact h.step_startHere hmakes
        | restart io => exact h.step_restart hmakes
        | stop t => exact h.step_stop t
        | stopPush t => exact h.step_stopPush t
        | stopHere => exact h.step_stopHere hmakes.2
        | timer k io => exact h.step_served ha
        | startPush _ | runFunctor _ | event _ | callback _ => exact h.step_served trivial
      obtain ⟨s, hok, hnext⟩ := hcall
      refine ⟨c.next a s, ?_, hnext⟩
      rw [Client.step, if_pos hmakes, hok]
      rfl
    · exact ⟨c, if_neg hmakes, h⟩

/-- A timer that gets to `connecting` with the old channel in place. -/
theorem ClientInv.step_early (h : ClientInv p c) {a : Label} (ha : ¬ c.Timely a) :
    c.step a = .error (.assertion .connecting) := by
  cases a with
  | close => exact absurd trivial ha
  | call a =>
    cases a with
    | timer k io =>
      simp only [Timely, not_forall] at ha
      obtain ⟨hrun, hconnect, hio, hchannel⟩ := ha
      rw [Client.step, if_pos (show c.Makes (.timer k io) from trivial),
        h.inv.step_timer_early hrun hconnect hio hchannel]
      rfl
    | _ => exact absurd trivial ha

end Client

/-- **Sockets are accounted for** in every state of a run of a client, without a
failed assertion, exactly when no retry timer gets to `connecting` before the
`resetChannel` of the attempt that failed has run. -/
theorem sockets_accounted_iff (p : EPollPoller) (as : List Client.Label) :
    Always Client.step Client.Accounted (Client.create p) as ↔
      Meets Client.step Client.Timely (Client.create p) as := by
  refine always_iff_meets (I := Client.ClientInv p) (fun c a h ha => h.step ha)
    (fun c h => h.accounted) (fun c a c' h ha hok => ?_) (Client.clientInv_create p) as
  rw [h.step_early ha] at hok
  cases hok

/-- The attempt fails with an error event, and its retry timer expires before
the functors of that iteration have run. -/
def earlyTimer : List Client.Label :=
  [.call (.start 1), .call (.startPush 1), .call (.runFunctor ⟨5, .EINPROGRESS⟩),
    .call (.event { pollErr := true }), .call (.callback ⟨111, false⟩),
    .call (.timer 0 ⟨5, .EINPROGRESS⟩)]

/-- The second attempt is begun with the channel of the first one in place. -/
theorem earlyTimer_connecting :
    run Client.step (Client.create emptyPoller) earlyTimer = .error (.assertion .connecting) ∧
      ¬ Always Client.step Client.Accounted (Client.create emptyPoller) earlyTimer := by
  have hrun : run Client.step (Client.create emptyPoller) earlyTimer =
      .error (.assertion .connecting) := rfl
  refine ⟨hrun, fun halways => ?_⟩
  obtain ⟨c, hok, -⟩ := halways.exists_run
  rw [hrun] at hok
  cases hok

end Muduo.Connector
