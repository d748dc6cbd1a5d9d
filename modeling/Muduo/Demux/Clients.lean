import Muduo.Demux.Stream

/-!
# Muduo.Demux.Clients

What a `MultiplexServer` says to the other side while its backend stays up.
-/

namespace Muduo.Link

open Lib Multiplexer MultiplexServer List

/-! ## streams -/

/-- The payloads for an id. -/
def bytesFor (id : Nat) (ps : List Packet) : List UInt8 :=
  (ps.filter fun p => p.id = id).flatMap Packet.payload

/-- The bytes of the calls for an id. -/
def bytesOf {ι : Type} [DecidableEq ι] (id : ι) (calls : List (ι × List UInt8)) : List UInt8 :=
  (calls.filter fun call => call.1 = id).flatMap Prod.snd

/-- What the client with the id has in its buffer, in the middle of
`sendBackendBuffer`. -/
def unsent (m : MultiplexServer) (id : Nat) : List UInt8 :=
  ((m.clientConns.lookup id).map fun c => (m.clients c).inputBuffer.content).getD []

/-- The steps of the multiplexer that are not about the backend's connection. -/
def ofClient : MultiplexServer.Label → Bool
  | .backendUp | .backendLost | .backendDown | .backendMessage _ | .forward => false
  | _ => true

/-- What `onClientMessage` is called with in a step, and the id of the client. -/
def heard (m : MultiplexServer) : MultiplexServer.Label → List (Nat × List UInt8)
  | .message c data =>
    if (m.clients c).stage = .idle ∧ MultiplexServer.Readable (m.clients c).inputBuffer data then
      (m.clients c).context.toList.map fun id => (id, data)
    else []
  | _ => []

section
variable {id : Nat}

theorem bytesFor_append (ps qs : List Packet) :
    bytesFor id (ps ++ qs) = bytesFor id ps ++ bytesFor id qs := by
  rw [bytesFor, filter_append, flatMap_append]
  rfl

theorem bytesFor_singleton (p : Packet) :
    bytesFor id [p] = if p.id = id then p.payload else [] := by
  by_cases hp : p.id = id
  · simp [bytesFor, hp]
  · simp [bytesFor, hp]

theorem bytesOf_append {ι : Type} [DecidableEq ι] {i : ι} (xs ys : List (ι × List UInt8)) :
    bytesOf i (xs ++ ys) = bytesOf i xs ++ bytesOf i ys := by
  rw [bytesOf, filter_append, flatMap_append]
  rfl

theorem bytesOf_singleton {ι : Type} [DecidableEq ι] {i j : ι} (data : List UInt8) :
    bytesOf i [(j, data)] = if j = i then data else [] := by
  by_cases hj : j = i
  · simp [bytesOf, hj]
  · simp [bytesOf, hj]

theorem bytesFor_of_forall {ps : List Packet} {i : Nat} (h : ∀ p ∈ ps, p.id = i) :
    bytesFor id ps = if i = id then ps.flatMap Packet.payload else [] := by
  by_cases hi : i = id
  · rw [if_pos hi, bytesFor, filter_eq_self.mpr]
    intro p hp
    simp [h p hp, hi]
  · rw [if_neg hi, bytesFor, filter_eq_nil_iff.mpr, flatMap_nil]
    intro p hp
    simp [h p hp, hi]

end

/-! ## the multiplexer's side -/

section
variable {cfg : Config} {m : MultiplexServer} {c : ClientId} {k : Client} {id : Nat}

/-- The client has the id, has been announced, and is not gone: it may send. -/
def Live (k : Client) (id : Nat) : Prop :=
  k.context = some id ∧ (k.stage = .idle ∨ k.stage = .sending)

def live (m : MultiplexServer) : Set Nat := {id | ∃ c, Live (m.clients c) id}

/-- While the backend stays up, every client is one of the present backend, and keeps
bytes in its buffer only while it sends. -/
structure Linked (m : MultiplexServer) : Prop where
  up : m.backendConn = some .connected
  since : ∀ c, (m.clients c).stage ≠ .new → (m.clients c).since = m.ups
  empty : ∀ c, (m.clients c).stage ≠ .sending → (m.clients c).inputBuffer.content = []
  keys : ∀ id c, m.clientConns.lookup id = some c → (m.clients c).taken = some id

/-- What a step of the multiplexer says to the other side, and what it has heard from
a client. -/
structure Says (m m' : MultiplexServer) (es : List Event) (calls : List (Nat × List UInt8)) :
    Prop where
  linked : Linked m'
  sent : ∃ new, m'.sent = m.sent ++ new ∧
    new.flatMap Sent.bytes = es.flatMap fun e => e.packet.encode
  valid : ∀ e ∈ es, e.Valid
  live : ∀ has, live m ⊆ has →
    Fit has (es.map Event.talk) ∧ live m' ⊆ opened has (es.map Event.talk)
  stream : ∀ id, 0 < id →
    bytesFor id (es.map Event.packet) ++ unsent m' id = unsent m id ++ bytesOf id calls
  input : m'.backendInput = m.backendInput ∧ m'.delivered = m.delivered

theorem Linked.setClient (h : Linked m) (hsince : k.since = m.ups)
    (hempty : k.stage ≠ .sending → k.inputBuffer.content = [])
    (htaken : ∀ id, m.clientConns.lookup id = some c → k.taken = some id) :
    Linked (m.setClient c k) where
  up := h.up
  since c' hst := by
    by_cases hc : c' = c
    · subst hc
      rw [clients_setClient_self]
      exact hsince
    · rw [clients_setClient_of_ne hc] at hst ⊢
      exact h.since c' hst
  empty c' hst := by
    by_cases hc : c' = c
    · subst hc
      rw [clients_setClient_self] at hst ⊢
      exact hempty hst
    · rw [clients_setClient_of_ne hc] at hst ⊢
      exact h.empty c' hst
  keys id c' hlookup := by
    by_cases hc : c' = c
    · subst hc
      rw [clients_setClient_self]
      exact htaken id hlookup
    · rw [clients_setClient_of_ne hc]
      exact h.keys id c' hlookup

theorem Linked.record (h : Linked m) (bytes : Option (List UInt8)) : Linked (m.record id bytes) :=
  { h with }

theorem mem_live_setClient (h : id ∈ live (m.setClient c k)) :
    Live k id ∨ ∃ c', c' ≠ c ∧ Live (m.clients c') id := by
  obtain ⟨c', hc'⟩ := h
  by_cases hc : c' = c
  · subst hc
    rw [clients_setClient_self] at hc'
    exact .inl hc'
  · rw [clients_setClient_of_ne hc] at hc'
    exact .inr ⟨c', hc, hc'⟩

theorem live_setClient_subset (h : ∀ id, Live k id → id ∈ live m) :
    live (m.setClient c k) ⊆ live m := by
  intro id hid
  obtain hk | ⟨c', -, hc'⟩ := mem_live_setClient hid
  · exact h id hk
  · exact ⟨c', hc'⟩

theorem unsent_congr {m' : MultiplexServer} (hclients : m'.clients = m.clients)
    (hlookup : m'.clientConns.lookup id = m.clientConns.lookup id) : unsent m' id = unsent m id := by
  rw [unsent, hclients, hlookup, unsent]

theorem unsent_of_lookup (h : m.clientConns.lookup id = some c) :
    unsent m id = (m.clients c).inputBuffer.content := by
  rw [unsent, h]
  rfl

theorem unsent_setClient_self (h : m.clientConns.lookup id = some c) :
    unsent (m.setClient c k) id = k.inputBuffer.content := by
  rw [unsent_of_lookup (c := c) (by exact h), clients_setClient_self]

theorem unsent_setClient_of_ne (h : m.clientConns.lookup id ≠ some c) :
    unsent (m.setClient c k) id = unsent m id := by
  cases hlookup : m.clientConns.lookup id with
  | none => simp only [unsent, MultiplexServer.setClient, hlookup, Option.map_none]
  | some c' =>
    have hc : c' ≠ c := fun heq => h (by rw [hlookup, heq])
    rw [unsent_of_lookup (c := c') (by exact hlookup), unsent_of_lookup hlookup,
      clients_setClient_of_ne hc]

theorem unsent_setClient (h : k.inputBuffer.content = (m.clients c).inputBuffer.content) (id : Nat) :
    unsent (m.setClient c k) id = unsent m id := by
  by_cases hlookup : m.clientConns.lookup id = some c
  · rw [unsent_setClient_self hlookup, unsent_of_lookup hlookup, h]
  · exact unsent_setClient_of_ne hlookup

variable {m' : MultiplexServer}

theorem says_nothing (hlinked : Linked m') (hsent : m'.sent = m.sent) (hlive : live m' ⊆ live m)
    (hunsent : ∀ id, unsent m' id = unsent m id)
    (hinput : m'.backendInput = m.backendInput ∧ m'.delivered = m.delivered) : Says m m' [] [] where
  linked := hlinked
  sent := ⟨[], by rw [hsent, append_nil], rfl⟩
  valid := nofun
  live _ hhas := ⟨trivial, hlive.trans hhas⟩
  stream id _ := (hunsent id).trans (append_nil _).symm
  input := hinput

theorem says_command {e : Event} {x : Sent} (hlinked : Linked m') (hsent : m'.sent = m.sent ++ [x])
    (hx : x.bytes = e.packet.encode) (hvalid : e.Valid) (hcommand : e.packet.id = 0)
    (hlive : ∀ has, live m ⊆ has → e.talk.Fits has ∧ live m' ⊆ e.talk.after has)
    (hunsent : ∀ id, unsent m' id = unsent m id)
    (hinput : m'.backendInput = m.backendInput ∧ m'.delivered = m.delivered) :
    Says m m' [e] [] where
  linked := hlinked
  sent := ⟨[x], hsent, by simp [hx]⟩
  valid := by simpa using hvalid
  live has hhas := ⟨⟨(hlive has hhas).1, trivial⟩, (hlive has hhas).2⟩
  stream id hid := by
    rw [hunsent, map_singleton, bytesFor_singleton, hcommand, if_neg (Nat.ne_of_lt hid)]
    exact (append_nil _).symm
  input := hinput

theorem Linked.lookup (h : Linked m) (hinv : MultiplexServer.Inv cfg m)
    (hst : (m.clients c).stage ≠ .new) (htaken : (m.clients c).taken = some id) :
    m.clientConns.lookup id = some c :=
  (hinv.clients c).holds (by rw [h.up]; nofun) (h.since c hst) id htaken

theorem Linked.connected (h : Linked m) : m.connected = true := by
  rw [MultiplexServer.connected, h.up]
  rfl

theorem taken_of_live (h : Live k id) : k.taken = some id := by
  obtain ⟨hctx, hst | hst⟩ := h
  · rw [Client.taken, hst, hctx]
  · rw [Client.taken, hst, hctx]

theorem Linked.takeId (h : Linked m) (hinv : MultiplexServer.Inv cfg m)
    (hst : (m.clients c).stage = .new) : Says m (m.takeId c) [] [] := by
  have hnew := (hinv.clients c).fresh hst
  have hempty := h.empty c (by rw [hst]; nofun)
  -- the client was not in the map
  have hkey : ∀ id, m.clientConns.lookup id ≠ some c := by
    intro id hlookup
    have htaken := h.keys id c hlookup
    rw [hnew] at htaken
    cases htaken
  unfold MultiplexServer.takeId
  split
  · refine says_nothing (h.setClient rfl (fun _ => hempty) fun id hid => absurd hid (hkey id)) rfl
      (live_setClient_subset ?_) (unsent_setClient rfl) ⟨rfl, rfl⟩
    rintro id ⟨-, hlive | hlive⟩ <;> cases hlive
  · next id rest havail =>
      have hup : m.backendConn ≠ none := by rw [h.up]; nofun
      have hnodup := hinv.nodup hup
      have hfree : id ∉ m.clientConns := by
        rw [havail, cons_append, nodup_cons, mem_append, not_or] at hnodup
        exact hnodup.1.2
      have hnone : m.clientConns.lookup id = none := AList.lookup_eq_none.mpr hfree
      have hset : Linked (m.setClient c { m.clients c with
          since := m.ups, stage := .accepted (some id) }) :=
        h.setClient rfl (fun _ => hempty) fun id hid => absurd hid (hkey id)
      refine says_nothing ⟨hset.up, hset.since, hset.empty, fun id' c' hlookup => ?_⟩ rfl
        (live_setClient_subset ?_) (fun id' => ?_) ⟨rfl, rfl⟩
      · by_cases hid : id' = id
        · subst hid
          rw [AList.lookup_insert] at hlookup
          cases hlookup
          simp only [clients_setClient_self]
          rfl
        · rw [AList.lookup_insert_ne hid] at hlookup
          exact hset.keys id' c' hlookup
      · rintro id ⟨-, hlive | hlive⟩ <;> cases hlive
      · by_cases hid : id' = id
        · subst hid
          rw [unsent_of_lookup (c := c) (AList.lookup_insert _), unsent, hnone]
          simp only [clients_setClient_self]
          exact hempty
        · refine Eq.trans ?_ (unsent_setClient (m := m) (c := c)
            (k := { m.clients c with since := m.ups, stage := .accepted (some id) }) rfl id')
          exact unsent_congr rfl (AList.lookup_insert_ne hid)

theorem Linked.announce (h : Linked m) (hinv : MultiplexServer.Inv cfg m) {taken : Option Nat}
    (hst : (m.clients c).stage = .accepted taken) :
    ∃ m' es, m.announce cfg c taken = .ok m' ∧ Says m m' es [] := by
  have hnew : (m.clients c).stage ≠ .new := by rw [hst]; simp
  have hempty := h.empty c (by rw [hst]; simp)
  have hsince := h.since c hnew
  have htaken : (m.clients c).taken = taken := by rw [Client.taken, hst]
  cases taken with
  | none =>
    have hctx := (hinv.clients c).accepted none hst
    refine ⟨_, [], rfl, says_nothing (h.setClient hsince (fun _ => hempty) fun id hid => ?_) rfl
      (live_setClient_subset ?_) (unsent_setClient rfl) ⟨rfl, rfl⟩⟩
    · cases htaken.symm.trans (h.keys id c hid)
    · rintro id ⟨hid, -⟩
      cases hctx.symm.trans hid
  | some id =>
    have hrange := (hinv.clients c).range id htaken
    refine ⟨_, [.up id (cfg.peerAddress c)], sendBackendString_eq (length_connMessage_le _ _), ?_⟩
    have hset : Linked (m.setClient c { m.clients c with stage := .idle, context := some id }) := by
      refine h.setClient hsince (fun _ => hempty) fun id' hid' => ?_
      exact (htaken.symm.trans (h.keys id' c hid'))
    refine says_command (x := ⟨0, Packet.encode ⟨0, connMessage id
      (cfg.peerAddress c).toInetAddress "UP"⟩, m.clientConns.lookup 0⟩)
      (hset.record _) ?_ rfl ?_ rfl ?_ (unsent_setClient rfl) ⟨rfl, rfl⟩
    · rw [show (m.setClient c _).connected = true from h.connected]
      rfl
    · have hlt := cfg.kMaxConns_lt
      have hid : id < 2 ^ 16 := by omega
      exact ⟨hrange.1, hid, by simp⟩
    · refine fun has hhas => ⟨trivial, fun id' hid' => ?_⟩
      obtain hk | ⟨c', -, hc'⟩ := mem_live_setClient hid'
      · exact .inl (Option.some.inj hk.1).symm
      · exact .inr (hhas ⟨c', hc'⟩)

theorem Linked.onClientMessage (h : Linked m) (hinv : MultiplexServer.Inv cfg m) {data : List UInt8}
    (hst : (m.clients c).stage = .idle) (hread : Readable (m.clients c).inputBuffer data) :
    Outcome (fun m' => ∃ es, Says m m' es ((m.clients c).context.toList.map fun id => (id, data)))
      (fun _ => True) (m.onClientMessage c data) := by
  have hnew : (m.clients c).stage ≠ .new := by rw [hst]; simp
  have hempty := h.empty c (by rw [hst]; simp)
  have hsince := h.since c hnew
  have htaken : (m.clients c).taken = (m.clients c).context := by rw [Client.taken, hst]
  unfold MultiplexServer.onClientMessage
  refine Outcome.bind (((hinv.clients c).outcome_readFd hread).mapError fun _ _ => trivial)
    fun r hr => ?_
  obtain ⟨-, hcontent⟩ := hr.2 h.connected hsince
  rw [hempty, nil_append] at hcontent
  dsimp only
  split
  · next hctx =>
      rw [hctx]
      refine .ok ⟨[], says_nothing (h.setClient hsince (fun _ => hr.1.retrieveAll.2) fun id hid => ?_)
        rfl (live_setClient_subset ?_) (unsent_setClient ?_) ⟨rfl, rfl⟩⟩
      · cases hctx.symm.trans (htaken.symm.trans (h.keys id c hid))
      · rintro id ⟨hid, -⟩
        cases hid
      · rw [hempty, hr.1.retrieveAll.2]
  · next id hctx =>
      have hlookup := h.lookup hinv hnew (htaken.trans hctx)
      rw [hctx]
      refine .ok ⟨[], h.setClient hsince (fun hne => absurd rfl hne) fun id' hid' => ?_,
        ⟨[], (append_nil _).symm, rfl⟩, by simp, fun has hhas => ⟨trivial, ?_⟩, fun id' _ => ?_,
        rfl, rfl⟩
      · exact (htaken.trans hctx).symm.trans (h.keys id' c hid')
      · refine (live_setClient_subset ?_).trans hhas
        exact fun id' hid' => ⟨c, hctx.trans hid'.1, .inl hst⟩
      · rw [Option.toList_some, map_singleton, bytesOf_singleton]
        by_cases hid : id = id'
        · subst hid
          rw [if_pos rfl, unsent_setClient_self hlookup, unsent_of_lookup hlookup, hempty]
          exact hcontent
        · have hother : m.clientConns.lookup id' ≠ some c := fun hlookup' =>
            hid (Option.some.inj ((htaken.trans hctx).symm.trans (h.keys id' c hlookup')))
          rw [if_neg hid, unsent_setClient_of_ne hother, append_nil]
          rfl

theorem Linked.sendBackendBuffer (h : Linked m) (hinv : MultiplexServer.Inv cfg m)
    (hst : (m.clients c).stage = .sending) (hctx : (m.clients c).context = some id) :
    ∃ m' es, m.sendBackendBuffer c id = .ok m' ∧ Says m m' es [] := by
  have hnew : (m.clients c).stage ≠ .new := by rw [hst]; nofun
  have hsince := h.since c hnew
  have htaken : (m.clients c).taken = some id := by rw [Client.taken, hst, hctx]
  have hlookup := h.lookup hinv hnew htaken
  have hk := hinv.clients c
  have hrange := hk.range id htaken
  have hlt := cfg.kMaxConns_lt
  obtain ⟨buf', hround, -, hcontent⟩ := sendRound_spec id (hk.roomy h.connected hsince)
  rw [← h.connected] at hround
  have hset : ∀ bytes, Linked ((m.record id bytes).setClient c (afterRound (m.clients c) buf'
      (decide (kMaxPacketLen < (m.clients c).inputBuffer.content.length)))) := by
    intro bytes
    refine (h.record bytes).setClient hsince (fun hne => ?_) fun id' hid' => ?_
    · have hshort : ¬ kMaxPacketLen < (m.clients c).inputBuffer.content.length := by
        intro hlong
        simp [afterRound, hlong] at hne
      exact hcontent.trans (drop_eq_nil_of_le (Nat.le_of_not_lt hshort))
    · rw [taken_afterRound, hctx, ← htaken]
      exact h.keys id' c hid'
  have hlive : ∀ bytes, live ((m.record id bytes).setClient c (afterRound (m.clients c) buf'
      (decide (kMaxPacketLen < (m.clients c).inputBuffer.content.length)))) ⊆ live m :=
    fun bytes => live_setClient_subset fun id' hid' => ⟨c, hid'.1, .inr hst⟩
  by_cases hne : (m.clients c).inputBuffer.content = []
  · rw [if_pos hne] at hround
    refine ⟨_, [], sendBackendBuffer_eq hround, says_nothing (hset _) (append_nil _) (hlive _)
      (fun id' => ?_) ⟨rfl, rfl⟩⟩
    refine (unsent_setClient ?_ id').trans (unsent_congr rfl rfl)
    exact hcontent.trans (by rw [hne, drop_nil]; exact hne.symm)
  · rw [if_neg hne] at hround
    have hdata : Event.Valid (.data id ((m.clients c).inputBuffer.content.take kMaxPacketLen)) := by
      refine ⟨hrange.1, Nat.lt_of_le_of_lt hrange.2 hlt, ?_⟩
      rintro _ _ ⟨rfl, rfl⟩
      exact ⟨fun hnil => hne ((take_eq_nil_iff.mp hnil).resolve_left (by decide)),
        length_take_le _ _⟩
    refine ⟨_, [.data id ((m.clients c).inputBuffer.content.take kMaxPacketLen)],
      sendBackendBuffer_eq hround, hset _, ⟨_, rfl, ?_⟩, ?_,
      fun has hhas => ⟨⟨?_, trivial⟩, (hlive _).trans hhas⟩, fun id' _ => ?_, rfl, rfl⟩
    · simp [Event.packet]
    · simpa using hdata
    · exact hhas ⟨c, hctx, .inr hst⟩
    · rw [map_singleton, bytesFor_singleton]
      by_cases hid : id = id'
      · subst hid
        rw [unsent_setClient_self (by exact hlookup), unsent_of_lookup hlookup]
        simp only [Event.packet, if_true, afterRound, hcontent, take_append_drop]
        exact (append_nil _).symm
      · have hother : m.clientConns.lookup id' ≠ some c := fun hlookup' =>
          hid (Option.some.inj (htaken.symm.trans (h.keys id' c hlookup')))
        rw [unsent_setClient_of_ne (by exact hother)]
        simp only [Event.packet, hid, if_false]
        exact ((unsent_congr rfl rfl).trans (append_nil _).symm)

theorem Linked.disconnect (h : Linked m) (hinv : MultiplexServer.Inv cfg m)
    (hst : (m.clients c).stage = .idle) :
    ∃ m' es, m.disconnect cfg c = .ok m' ∧ Says m m' es [] := by
  have hnew : (m.clients c).stage ≠ .new := by rw [hst]; simp
  have hempty := h.empty c (by rw [hst]; simp)
  have hsince := h.since c hnew
  have htaken : (m.clients c).taken = (m.clients c).context := by rw [Client.taken, hst]
  unfold MultiplexServer.disconnect
  split
  · next hctx =>
      refine ⟨_, [], rfl, says_nothing (h.setClient hsince (fun _ => hempty) fun id hid => ?_) rfl
        (live_setClient_subset ?_) (unsent_setClient rfl) ⟨rfl, rfl⟩⟩
      · cases hctx.symm.trans (htaken.symm.trans (h.keys id c hid))
      · rintro id ⟨-, hlive | hlive⟩ <;> cases hlive
  · next id hctx =>
      have hrange := (hinv.clients c).range id (htaken.trans hctx)
      have hlookup := h.lookup hinv hnew (htaken.trans hctx)
      have hlt := cfg.kMaxConns_lt
      rw [check_of hrange, ok_bind]
      refine ⟨_, [.down id (cfg.peerAddress c)], sendBackendString_eq (length_connMessage_le _ _), ?_⟩
      have hset : Linked (m.setClient c { m.clients c with stage := .releasing }) :=
        h.setClient hsince (fun _ => hempty) fun id' hid' => htaken.symm.trans (h.keys id' c hid')
      refine says_command (x := ⟨0, Packet.encode ⟨0, connMessage id
        (cfg.peerAddress c).toInetAddress "DOWN"⟩, m.clientConns.lookup 0⟩)
        (hset.record _) ?_ rfl ⟨hrange.1, Nat.lt_of_le_of_lt hrange.2 hlt, by simp⟩ rfl ?_
        (unsent_setClient rfl) ⟨rfl, rfl⟩
      · rw [show (m.setClient c _).connected = true from h.connected]
        rfl
      · refine fun has hhas => ⟨hhas ⟨c, hctx, .inl hst⟩, fun id' hid' => ?_⟩
        obtain ⟨-, hk | hk⟩ | ⟨c', hc, hc'⟩ := mem_live_setClient hid'
        · cases hk
        · cases hk
        · -- no other client has the id
          refine ⟨hhas ⟨c', hc'⟩, fun heq => hc ?_⟩
          cases Set.mem_singleton_iff.mp heq
          have hnew' : (m.clients c').stage ≠ .new := by
            obtain ⟨-, hst' | hst'⟩ := hc'
            · rw [hst']; simp
            · rw [hst']; simp
          have hlookup' := h.lookup hinv hnew' (taken_of_live hc')
          exact Option.some.inj (hlookup'.symm.trans hlookup)

theorem Linked.releaseId (h : Linked m) (hinv : MultiplexServer.Inv cfg m)
    (hst : (m.clients c).stage = .releasing) (hctx : (m.clients c).context = some id) :
    ∃ m' es, m.releaseId c id = .ok m' ∧ Says m m' es [] := by
  have hempty := h.empty c (by rw [hst]; nofun)
  have hsince := h.since c (by rw [hst]; nofun)
  have htaken : (m.clients c).taken = some id := by rw [Client.taken, hst, hctx]
  have hsome : m.backendConn.isSome := by rw [h.up]; rfl
  -- the entry goes first, and then nothing points to the client
  have herase : Linked { m with
      availIds := m.availIds ++ [id], clientConns := m.clientConns.erase id } := by
    refine ⟨h.up, h.since, h.empty, fun id' c' hlookup => ?_⟩
    by_cases hid : id' = id
    · rw [hid, AList.lookup_erase] at hlookup
      cases hlookup
    · rw [AList.lookup_erase_ne hid] at hlookup
      exact h.keys id' c' hlookup
  have hgone : ∀ id', (m.clientConns.erase id).lookup id' ≠ some c := by
    intro id' hlookup
    have hid := htaken.symm.trans (herase.keys id' c hlookup)
    rw [← Option.some.inj hid, AList.lookup_erase] at hlookup
    cases hlookup
  refine ⟨_, [], if_pos hsome, says_nothing (herase.setClient hsince (fun _ => hempty)
    fun id' hid' => absurd hid' (hgone id')) rfl (live_setClient_subset ?_) (fun id' => ?_) ⟨rfl, rfl⟩⟩
  · rintro id ⟨-, hlive | hlive⟩ <;> cases hlive
  · refine (unsent_setClient_of_ne (m := { m with
      availIds := m.availIds ++ [id], clientConns := m.clientConns.erase id }) (hgone id')).trans ?_
    by_cases hid : id' = id
    · rw [hid, unsent_of_lookup (h.lookup hinv (by rw [hst]; nofun) htaken), hempty]
      simp only [unsent, AList.lookup_erase, Option.map_none]
      rfl
    · exact unsent_congr rfl (AList.lookup_erase_ne hid)

/-- While the backend stays up, no client is of an earlier one. -/
theorem Linked.current (h : Linked m) (l : Label) : Current m l := by
  cases l with
  | send c =>
    intro hst
    rw [if_pos h.connected]
    exact h.since c (by rw [hst]; nofun)
  | release c => exact fun hst => .inr (h.since c (by rw [hst]; nofun))
  | _ => trivial

theorem Linked.says_self (h : Linked m) : Says m m [] [] :=
  says_nothing h rfl Set.Subset.rfl (fun _ => rfl) ⟨rfl, rfl⟩

/-- **A step of a client** says something that the other side can follow. -/
theorem Linked.step (h : Linked m) (hinv : MultiplexServer.Inv cfg m) {l : Label}
    (hl : ofClient l) :
    Outcome (fun m' => MultiplexServer.Inv cfg m' ∧ ∃ es, Says m m' es (heard m l))
      (· = .buffer .lengthError) (m.step cfg l) := by
  have hok : ∀ {r : Except Fault MultiplexServer}, (∃ m' es, r = .ok m' ∧ Says m m' es []) →
      Outcome (fun m' => ∃ es, Says m m' es []) (fun _ => True) r := by
    rintro _ ⟨m', es, rfl, hsaid⟩
    exact .ok ⟨es, hsaid⟩
  have hskip : Outcome (fun m' => ∃ es, Says m m' es []) (fun _ => True)
      (.ok m : Except Fault MultiplexServer) := .ok ⟨[], h.says_self⟩
  have hsaid : Outcome (fun m' => ∃ es, Says m m' es (heard m l)) (fun _ => True)
      (m.step cfg l) := by
    cases l with
    | connect c =>
      simp only [MultiplexServer.step]
      split
      · next hst => exact .ok ⟨[], h.takeId hinv hst⟩
      · exact hskip
    | announce c =>
      simp only [MultiplexServer.step]
      split
      · next hst => exact hok (h.announce hinv hst)
      · exact hskip
    | message c data =>
      simp only [MultiplexServer.step, heard]
      split
      · next hst => exact h.onClientMessage hinv hst.1 hst.2
      · exact hskip
    | send c =>
      simp only [MultiplexServer.step]
      split
      · next hst hctx => exact hok (h.sendBackendBuffer hinv hst hctx)
      · exact hskip
    | disconnect c =>
      simp only [MultiplexServer.step]
      split
      · next hst => exact hok (h.disconnect hinv hst)
      · exact hskip
    | release c =>
      simp only [MultiplexServer.step]
      split
      · next hst hctx => exact hok (h.releaseId hinv hst hctx)
      · exact hskip
    | backendUp | backendLost | backendDown | backendMessage _ | forward => cases hl
  exact ((hinv.step (h.current l)).and hsaid).mono (fun _ hm => hm) fun _ he => he.1

end

end Muduo.Link
