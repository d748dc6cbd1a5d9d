import Muduo.Lib.Outcome

/-!
# Muduo.Balancer

The RPC balancer on one I/O thread: `BackendSession` and `Balancer` of
`examples/protobuf/rpcbalancer/balancer_raw.cc`.

A connection is a number, and a client that connects again is another connection.  A message is
its id with the rest of it, which is passed on as it is.  `alive` are the connections of clients
that a `weak_ptr` still leads to.  `forwarded` and `delivered` are the messages sent to backends
and to clients, which no code reads.
-/

namespace Muduo.Balancer

open Lib Function

structure Message where
  id : UInt64
  body : List UInt8
deriving DecidableEq, Repr

structure Request where
  origId : UInt64
  clientConn : Nat
deriving DecidableEq, Repr

structure BackendSession where
  conn : Option Nat
  nextId : UInt64
  outstandings : UInt64 → Option Request

/-- A message to a backend. -/
structure Forwarded where
  backend : Nat
  conn : Nat
  message : Message
  request : Request
deriving DecidableEq, Repr

/-- A message to a client; `id` is the one under which the backend sent it. -/
structure Delivered where
  backend : Nat
  id : UInt64
  message : Message
  request : Request
deriving DecidableEq, Repr

structure State where
  size : Nat
  current : Nat
  backends : Nat → BackendSession
  alive : Nat → Bool
  forwarded : List Forwarded
  delivered : List Delivered

inductive Fault
  | assertion
deriving DecidableEq, Repr

/-- `Balancer::initPerThread`, for `size` backends; `main` gives at least one. -/
def initPerThread (size count : Nat) : State where
  size
  current := count % size
  backends _ := ⟨none, 0, fun _ => none⟩
  alive _ := false
  forwarded := []
  delivered := []

/-- The message goes to the backend `current` under its next id. -/
def State.forward (s : State) (conn client : Nat) (msg : Message) : State :=
  let b := s.backends s.current
  let id := b.nextId + 1
  let r : Request := ⟨msg.id, client⟩
  { s with
    backends := update s.backends s.current
      { b with nextId := id, outstandings := update b.outstandings id (some r) }
    forwarded := s.forwarded ++ [⟨s.current, conn, { msg with id }, r⟩] }

/-- `BackendSession::send`, of the backend `current`. -/
def send (s : State) (client : Nat) (msg : Message) : Except Fault (Bool × State) :=
  let b := s.backends s.current
  match b.conn with
  | some conn => do
    check .assertion (b.outstandings (b.nextId + 1) = none)
    return (true, s.forward conn client msg)
  | none => return (false, s)

def State.advance (s : State) : State := { s with current := (s.current + 1) % s.size }

/-- The loop of `Balancer::onMessageT`, with `n` rounds left. -/
def onMessageLoop (client : Nat) (msg : Message) : Nat → State → Except Fault State
  | 0, s => .ok s
  | n + 1, s => do
    let (succeed, s) ← send s client msg
    if succeed then return s.advance else onMessageLoop client msg n s.advance

def onMessage (s : State) (client : Nat) (msg : Message) : Except Fault State :=
  onMessageLoop client msg s.size s

/-- `BackendSession::onMessageT` -/
def onReply (s : State) (backend : Nat) (msg : Message) : State :=
  let b := s.backends backend
  match b.outstandings msg.id with
  | some r =>
    let s := { s with
      backends := update s.backends backend
        { b with outstandings := update b.outstandings msg.id none } }
    if s.alive r.clientConn then
      { s with delivered := s.delivered ++ [⟨backend, msg.id, { msg with id := r.origId }, r⟩] }
    else s
  | none => s

/-- `BackendSession::onConnection` -/
def onConnection (s : State) (backend : Nat) (conn : Option Nat) : State :=
  { s with backends := update s.backends backend { s.backends backend with conn } }

inductive Label
  | request (client : Nat) (msg : Message)
  | reply (backend : Nat) (msg : Message)
  | backend (backend : Nat) (conn : Option Nat)
  | client (conn : Nat) (alive : Bool)
deriving DecidableEq, Repr

def step (s : State) : Label → Except Fault State
  | .request client msg => onMessage s client msg
  | .reply backend msg => .ok (onReply s backend msg)
  | .backend backend conn => .ok (onConnection s backend conn)
  | .client conn alive => .ok { s with alive := update s.alive conn alive }

def Label.isRequest : Label → Bool
  | .request _ _ => true
  | _ => false

/-! ## routing -/

/-- Every id is used once on its backend, and every answer is for a request that was forwarded
under its id, with the id and the connection of that request; there is one answer at most. -/
structure Routed (s : State) : Prop where
  ids : s.forwarded.Pairwise fun f g => ¬(f.backend = g.backend ∧ f.message.id = g.message.id)
  answers : ∀ d ∈ s.delivered, d.message.id = d.request.origId ∧
    ∃ f ∈ s.forwarded, f.backend = d.backend ∧ f.message.id = d.id ∧ f.request = d.request
  once : s.delivered.Pairwise fun d e => ¬(d.backend = e.backend ∧ d.id = e.id)

/-- `n` requests came in so far. -/
structure Inv (n : Nat) (s : State) : Prop extends Routed s where
  current : 0 < s.size → s.current < s.size
  nextId : ∀ b, (s.backends b).nextId.toNat ≤ n
  used : ∀ f ∈ s.forwarded, f.message.id.toNat ≤ (s.backends f.backend).nextId.toNat
  outstanding : ∀ b id r, (s.backends b).outstandings id = some r →
    (∃ f ∈ s.forwarded, f.backend = b ∧ f.message.id = id ∧ f.request = r) ∧
      ∀ d ∈ s.delivered, ¬(d.backend = b ∧ d.id = id)

/-- `f` takes a request to a connected backend, under an id that was not used on it. -/
structure Carries (s : State) (client : Nat) (msg : Message) (f : Forwarded) : Prop where
  up : (s.backends f.backend).conn = some f.conn
  body : f.message.body = msg.body
  request : f.request = ⟨msg.id, client⟩
  fresh : ∀ g ∈ s.forwarded, ¬(g.backend = f.backend ∧ g.message.id = f.message.id)

/-- What a step from `s` to `s'` sends.  A request is not forwarded only when no backend is
connected. -/
def Sends (s s' : State) : Label → Prop
  | .request client msg => s'.delivered = s.delivered ∧
    (((∀ b < s.size, (s.backends b).conn = none) ∧ s'.forwarded = s.forwarded) ∨
      ∃ f, s'.forwarded = s.forwarded ++ [f] ∧ f.backend < s.size ∧ Carries s client msg f)
  | .reply b msg => s'.forwarded = s.forwarded ∧
    (s'.delivered = s.delivered ∨ ∃ r, s.alive r.clientConn ∧
      s'.delivered = s.delivered ++ [⟨b, msg.id, ⟨r.origId, msg.body⟩, r⟩])
  | .backend _ _ | .client _ _ => s'.forwarded = s.forwarded ∧ s'.delivered = s.delivered

variable {s : State} {n client : Nat} {msg : Message}

theorem inv_initPerThread (size count : Nat) : Inv 0 (initPerThread size count) := by
  constructor <;> simp +contextual [initPerThread, Nat.mod_lt]
  constructor <;> simp

theorem Inv.mono {m : Nat} (h : Inv n s) (hm : n ≤ m) : Inv m s :=
  { h with nextId b := (h.nextId b).trans hm }

theorem Inv.advance (h : Inv n s) : Inv n s.advance :=
  { h with current := Nat.mod_lt _ }

/-- The next id is above all ids in use, so the assertion holds. -/
theorem Inv.send (h : Inv n s) (hn : n + 1 < 2 ^ 64) (client : Nat) (msg : Message) :
    ((s.backends s.current).conn = none ∧ send s client msg = .ok (false, s)) ∨
      ∃ f s', send s client msg = .ok (true, s') ∧ Inv (n + 1) s' ∧
        s'.delivered = s.delivered ∧ s'.forwarded = s.forwarded ++ [f] ∧ f.backend = s.current ∧
        Carries s client msg f := by
  cases hconn : (s.backends s.current).conn with
  | none => simp [Balancer.send, hconn, pure, Except.pure]
  | some conn =>
    have hle := h.nextId s.current
    have hid : ((s.backends s.current).nextId + 1).toNat
        = (s.backends s.current).nextId.toNat + 1 := by
      rw [UInt64.toNat_add, UInt64.toNat_one, Nat.mod_eq_of_lt (by omega)]
    have hnew : ∀ f ∈ s.forwarded, f.backend = s.current →
        f.message.id ≠ (s.backends s.current).nextId + 1 := by
      intro f hf hb heq
      have := h.used f hf
      rw [hb, heq] at this
      omega
    have hout : (s.backends s.current).outstandings ((s.backends s.current).nextId + 1) = none := by
      by_contra hne
      obtain ⟨r, hr⟩ := Option.ne_none_iff_exists'.mp hne
      grind [h.outstanding _ _ r hr]
    refine .inr ⟨_, s.forward conn client msg, ?_, ?_, rfl, rfl, rfl, ?_⟩
    · simp [Balancer.send, hconn, check_of hout, ok_bind, pure, Except.pure]
    · unfold State.forward
      refine { ids := ?_, answers := ?_, once := h.once, current := h.current, nextId := ?_,
               used := ?_, outstanding := ?_ }
      · simp only [List.pairwise_append, h.ids, List.pairwise_singleton, true_and]
        grind
      · grind [h.answers]
      · intro b
        obtain rfl | hb := eq_or_ne b s.current
        · simpa [hid] using hle
        · simpa [hb] using (h.nextId b).trans n.le_succ
      · have := h.used
        grind
      · intro b id r hr
        have hold := h.outstanding b id r
        have hanswers := h.answers
        obtain rfl | hb := eq_or_ne b s.current
        · simp only [update_self, update_apply] at hr
          split_ifs at hr with hnext
          · exact ⟨⟨_, List.mem_append_right _ (.head _), rfl, hnext.symm, by simpa using hr⟩,
              by grind⟩
          · grind
        · grind [update_of_ne hb]
    · exact ⟨hconn, rfl, rfl, fun g hg hsame => hnew g hg hsame.1 hsame.2⟩

/-- The loop tries the backends from `current` on. -/
theorem Inv.onMessageLoop (hn : n + 1 < 2 ^ 64) (k : Nat) (h : Inv n s) (hsize : 0 < s.size) :
    ∃ s', onMessageLoop client msg k s = .ok s' ∧ Inv (n + 1) s' ∧ s'.delivered = s.delivered ∧
      (((∀ i < k, (s.backends ((s.current + i) % s.size)).conn = none) ∧
          s'.forwarded = s.forwarded) ∨
        ∃ f, s'.forwarded = s.forwarded ++ [f] ∧ f.backend < s.size ∧ Carries s client msg f) := by
  induction k generalizing s with
  | zero => exact ⟨s, rfl, h.mono (by omega), rfl, .inl ⟨by simp, rfl⟩⟩
  | succ k ih =>
    have hcurrent := Nat.mod_eq_of_lt (h.current hsize)
    obtain ⟨hnone, hsend⟩ | ⟨f, s', hsend, h', hd, hf, hb, hc⟩ := h.send hn client msg
    · obtain ⟨s', hrun, h', hd, hcase⟩ := ih h.advance hsize
      refine ⟨s', by simpa [Balancer.onMessageLoop, hsend, ok_bind] using hrun, h', hd, ?_⟩
      refine hcase.imp (fun ⟨hall, hf⟩ => ⟨?_, hf⟩) fun ⟨f, hf, hb, hc⟩ => ⟨f, hf, hb, { hc with }⟩
      intro i hi
      cases i with
      | zero => rwa [Nat.add_zero, hcurrent]
      | succ i =>
        have := hall i (by omega)
        rwa [State.advance, Nat.mod_add_mod, Nat.add_right_comm] at this
    · exact ⟨s'.advance, by simp [Balancer.onMessageLoop, hsend]; rfl, h'.advance, hd,
        .inr ⟨f, hf, hb ▸ h.current hsize, hc⟩⟩

/-- A backend may get another connection and lose requests. -/
theorem Inv.setBackend (h : Inv n s) (b : Nat) {x : BackendSession}
    (hid : x.nextId = (s.backends b).nextId)
    (hout : ∀ id r, x.outstandings id = some r → (s.backends b).outstandings id = some r) :
    Inv n { s with backends := update s.backends b x } := by
  have hids (c : Nat) : (update s.backends b x c).nextId = (s.backends c).nextId := by
    obtain rfl | hc := eq_or_ne c b <;> simp [*]
  refine { h with nextId c := ?_, used f hf := ?_, outstanding c id r hr := ?_ }
  · exact hids c ▸ h.nextId c
  · exact hids _ ▸ h.used f hf
  · apply h.outstanding
    obtain rfl | hc := eq_or_ne c b
    · exact hout id r (by simpa using hr)
    · simpa [hc] using hr

theorem Inv.onConnection (h : Inv n s) (b : Nat) (conn : Option Nat) :
    Inv n (onConnection s b conn) :=
  h.setBackend b rfl fun _ _ => id

theorem Inv.onReply (h : Inv n s) (b : Nat) (msg : Message) : Inv n (onReply s b msg) := by
  cases hr : (s.backends b).outstandings msg.id with
  | none => simpa [Balancer.onReply, hr] using h
  | some r =>
    obtain ⟨hsent, hfirst⟩ := h.outstanding _ _ r hr
    have herase := h.setBackend b (x := { s.backends b with
      outstandings := update (s.backends b).outstandings msg.id none }) rfl (by grind)
    by_cases halive : s.alive r.clientConn
    · simp only [Balancer.onReply, hr, halive, if_true]
      refine { herase with answers := ?_, once := ?_, outstanding c id r' hr' := ?_ }
      · intro d hd
        obtain hd | rfl := List.mem_append.mp hd |>.imp_right List.mem_singleton.mp
        · exact h.answers d hd
        · exact ⟨rfl, hsent.imp fun f => by simp⟩
      · simp only [List.pairwise_append, h.once, List.pairwise_singleton, true_and]
        grind
      · obtain ⟨hf, hd⟩ := herase.outstanding c id r' hr'
        refine ⟨hf, fun d hmem => ?_⟩
        obtain hmem | rfl := List.mem_append.mp hmem |>.imp_right List.mem_singleton.mp
        · exact hd d hmem
        · -- the entry of the reply is gone
          rintro ⟨rfl, rfl⟩
          simp at hr'
    · simpa [Balancer.onReply, hr, halive] using herase

theorem Inv.onMessage (h : Inv n s) (hn : n + 1 < 2 ^ 64) (client : Nat) (msg : Message) :
    ∃ s', onMessage s client msg = .ok s' ∧ Inv (n + 1) s' ∧ Sends s s' (.request client msg) := by
  obtain hsize | hsize := s.size.eq_zero_or_pos
  · exact ⟨s, by simp [Balancer.onMessage, hsize, Balancer.onMessageLoop], h.mono (by omega),
      rfl, .inl ⟨by simp [hsize], rfl⟩⟩
  · obtain ⟨s', hrun, h', hd, hcase⟩ := h.onMessageLoop hn s.size hsize
    refine ⟨s', hrun, h', hd, hcase.imp_left fun ⟨hall, hf⟩ => ⟨fun b hb => ?_, hf⟩⟩
    -- the round in which `b` is tried
    have hcurrent := h.current hsize
    obtain hle | hlt := le_or_gt s.current b
    · have := hall (b - s.current) (by omega)
      rwa [Nat.add_sub_cancel' hle, Nat.mod_eq_of_lt hb] at this
    · have := hall (b + s.size - s.current) (by omega)
      rwa [show s.current + (b + s.size - s.current) = b + s.size by omega, Nat.add_mod_right,
        Nat.mod_eq_of_lt hb] at this

theorem sends_onReply (s : State) (b : Nat) (msg : Message) :
    Sends s (onReply s b msg) (.reply b msg) := by
  cases hr : (s.backends b).outstandings msg.id with
  | none => simp [Sends, onReply, hr]
  | some r => by_cases halive : s.alive r.clientConn <;> simp [Sends, onReply, hr, halive]

theorem Inv.step (h : Inv n s) (a : Label) (hn : n + [a].countP Label.isRequest < 2 ^ 64) :
    ∃ s', step s a = .ok s' ∧ Inv (n + [a].countP Label.isRequest) s' ∧ Sends s s' a := by
  cases a with
  | request client msg => exact h.onMessage hn client msg
  | reply b msg => exact ⟨_, rfl, h.onReply b msg, sends_onReply s b msg⟩
  | backend b conn => exact ⟨_, rfl, h.onConnection b conn, rfl, rfl⟩
  | client conn alive => exact ⟨_, rfl, { h with }, rfl, rfl⟩

theorem Inv.run (h : Inv n s) (as : List Label) (hn : n + as.countP Label.isRequest < 2 ^ 64) :
    ∃ s', Lib.run Balancer.step s as = .ok s' ∧ Inv (n + as.countP Label.isRequest) s' := by
  induction as generalizing s n with
  | nil => exact ⟨s, rfl, h⟩
  | cons a as ih =>
    rw [← List.singleton_append, List.countP_append] at hn ⊢
    obtain ⟨s', hstep, h', -⟩ := h.step a (by omega)
    obtain ⟨t, hrun, ht⟩ := ih h' (by omega)
    exact ⟨t, by simpa [run_cons, hstep, ok_bind] using hrun, by rwa [← Nat.add_assoc]⟩

/-- **The balancer routes every reply home**, at each step `a` of every run of fewer than `2 ^ 64`
requests, with any replies and any connections that come and go. -/
theorem balancer_routes (size count : Nat) (as : List Label) (a : Label)
    (hn : (as ++ [a]).countP Label.isRequest < 2 ^ 64) :
    ∃ s s', Lib.run step (initPerThread size count) as = .ok s ∧ step s a = .ok s' ∧
      Sends s s' a ∧ Routed s' := by
  rw [List.countP_append] at hn
  obtain ⟨s, hrun, h⟩ := (inv_initPerThread size count).run as (by omega)
  obtain ⟨s', hstep, h', hsends⟩ := h.step a (by omega)
  exact ⟨s, s', hrun, hstep, hsends, h'.toRouted⟩

/-- Two clients use the same id, and the answer to the second is there first. -/
def twoClients : List Label :=
  [.client 1 true, .client 2 true, .backend 0 (some 7), .request 1 ⟨5, []⟩, .request 2 ⟨5, []⟩,
    .reply 0 ⟨2, [9]⟩]

theorem balancer_routes_twoClients :
    ∃ s s', Lib.run step (initPerThread 1 0) twoClients = .ok s ∧
      step s (.reply 0 ⟨2, [9]⟩) = .ok s' ∧ Sends s s' (.reply 0 ⟨2, [9]⟩) ∧ Routed s' :=
  balancer_routes 1 0 twoClients _ (by decide)

end Muduo.Balancer
