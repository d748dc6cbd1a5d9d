import Muduo.Multiplexer.Packet

/-!
# Muduo.Multiplexer.Ids

Who holds an id of the multiplexer.

While there is a backend, an id is either in `availIds_` or a key of `clientConns_`.
When the backend goes, both are emptied, and the clients that are told to shut down
keep the id in their context.  Once the next backend has come, that id is handed out
again: what such a client sends then goes out under the id of another, and its
disconnect takes that id away from the other.
-/

namespace Muduo

open Lib List

namespace Multiplexer

/-- The id that the client has taken and not given back. -/
def Client.taken (k : Client) : Option Nat :=
  match k.stage with
  | .accepted id => id
  | .closed => none
  | _ => k.context

/-- The packet carries bytes received from the client that held its id. -/
def Sent.Own (clients : ClientId → Client) (e : Sent) : Prop :=
  ∃ c payload, e.holder = some c ∧ e.bytes = Packet.encode ⟨e.id, payload⟩ ∧
    payload <:+: (clients c).received

end Multiplexer

namespace MultiplexServer

open Multiplexer

variable {cfg : Config} {s s' : MultiplexServer} {c : ClientId} {k : Client} {id : Nat}

/-! ## what the steps do -/

@[simp] theorem clients_setClient_self : (s.setClient c k).clients c = k := Function.update_self ..

theorem clients_setClient_of_ne {c' : ClientId} (h : c' ≠ c) :
    (s.setClient c k).clients c' = s.clients c' := Function.update_of_ne h ..

theorem length_connMessage_le (addr : InetAddress) (status : String) :
    (connMessage id addr status).length ≤ kMaxPacketLen := by
  rw [connMessage, length_map]
  exact length_take_le _ _

theorem sendBackendString_eq {msg : List UInt8} (h : msg.length ≤ kMaxPacketLen) :
    s.sendBackendString msg = .ok (s.record 0 (outgoing s.connected ⟨0, msg⟩)) := by
  rw [sendBackendString, check_of h, ok_bind, sendBytes_spec _ _ h]
  rfl

/-- The client behind a round of `sendBackendBuffer`. -/
def afterRound (k : Client) (buf : Buffer) (more : Bool) : Client :=
  { k with inputBuffer := buf, stage := if more then .sending else .idle }

theorem taken_afterRound (buf : Buffer) (more : Bool) : (afterRound k buf more).taken = k.context := by
  cases more <;> rfl

variable {buf : Buffer} {data : List UInt8}

theorem sendBackendBuffer_eq {sent : Option (List UInt8)} {more : Bool}
    (h : sendRound s.connected id (s.clients c).inputBuffer = .ok (sent, buf, more)) :
    s.sendBackendBuffer c id =
      .ok ((s.record id sent).setClient c (afterRound (s.clients c) buf more)) := by
  simp only [sendBackendBuffer, h, ok_bind]
  rfl

/-! ## the invariant -/

/-- What holds of a client.  `holds`, `roomy` and `unsent` are about the clients that
have come since the backend came up. -/
structure ClientInv (cfg : Config) (s : MultiplexServer) (c : ClientId) (k : Client) : Prop where
  fresh : k.stage = .new → k = newClient
  accepted : ∀ id, k.stage = .accepted id → k.context = none
  since_le : k.since ≤ s.ups
  range : ∀ id, k.taken = some id → 0 < id ∧ id ≤ cfg.kMaxConns
  wf : k.inputBuffer.WF
  holds : s.backendConn ≠ none → k.since = s.ups → ∀ id, k.taken = some id →
    s.clientConns.lookup id = some c
  roomy : s.connected → k.since = s.ups → k.inputBuffer.Roomy
  unsent : s.connected → k.since = s.ups → k.inputBuffer.content <:+ k.received

structure Inv (cfg : Config) (s : MultiplexServer) : Prop where
  down : s.backendConn = none → s.availIds = [] ∧ s.clientConns = ∅
  ids : s.backendConn ≠ none →
    (s.availIds ++ s.clientConns.keys).Perm (List.range' 1 cfg.kMaxConns)
  clients : ∀ c, ClientInv cfg s c (s.clients c)
  sent : ∀ e ∈ s.sent, e.id ≠ 0 → e.Own s.clients
  backendInput : s.backendInput.WF

theorem inv_create (cfg : Config) : Inv cfg create where
  down _ := ⟨rfl, rfl⟩
  ids h := absurd rfl h
  clients c := by
    refine ⟨fun _ => rfl, nofun, Nat.le_refl _, nofun, Buffer.wf_newBuffer, fun h => absurd rfl h,
      ?_, ?_⟩
    all_goals intro h; cases h
  sent := nofun
  backendInput := Buffer.wf_newBuffer

theorem ClientInv.of_eq (h : ClientInv cfg s c k) (hconn : s'.backendConn = s.backendConn)
    (hups : s'.ups = s.ups) (hclients : s'.clientConns = s.clientConns) : ClientInv cfg s' c k := by
  have hconnected : s'.connected = s.connected := by rw [connected, hconn, connected]
  refine ⟨h.fresh, h.accepted, hups ▸ h.since_le, h.range, h.wf, ?_, ?_, ?_⟩
  · rw [hconn, hups, hclients]; exact h.holds
  · rw [hconnected, hups]; exact h.roomy
  · rw [hconnected, hups]; exact h.unsent

theorem own_setClient {e : Sent} (h : e.Own s.clients)
    (hreceived : (s.clients c).received <+: k.received) : e.Own (s.setClient c k).clients := by
  obtain ⟨c', payload, hholder, hbytes, hinfix⟩ := h
  refine ⟨c', payload, hholder, hbytes, ?_⟩
  by_cases hc : c' = c
  · subst hc
    rw [clients_setClient_self]
    exact hinfix.trans hreceived.isInfix
  · rw [clients_setClient_of_ne hc]
    exact hinfix

theorem Inv.setClient (h : Inv cfg s) (hk : ClientInv cfg s c k)
    (hreceived : (s.clients c).received <+: k.received) : Inv cfg (s.setClient c k) where
  __ := h
  clients c' := by
    by_cases hc : c' = c
    · subst hc
      rw [clients_setClient_self]
      exact hk.of_eq rfl rfl rfl
    · rw [clients_setClient_of_ne hc]
      exact (h.clients c').of_eq rfl rfl rfl
  sent e he hid := own_setClient (h.sent e he hid) hreceived

theorem Inv.record (h : Inv cfg s) {bytes : Option (List UInt8)}
    (hown : id ≠ 0 → ∀ b ∈ bytes, Sent.Own s.clients ⟨id, b, s.clientConns.lookup id⟩) :
    Inv cfg (s.record id bytes) where
  __ := h
  clients c' := (h.clients c').of_eq rfl rfl rfl
  sent e he hid := by
    simp only [MultiplexServer.record, mem_append, mem_map, Option.mem_toList] at he
    obtain he | ⟨b, hb, rfl⟩ := he
    · exact h.sent e he hid
    · exact hown hid b hb

/-! ## ids are handed out and given back -/

theorem Inv.nodup (h : Inv cfg s) (hup : s.backendConn ≠ none) :
    (s.availIds ++ s.clientConns.keys).Nodup := (h.ids hup).nodup_iff.mpr nodup_range'

theorem ClientInv.stage (h : ClientInv cfg s c k) {stage : Stage} {context : Option Nat}
    (hnew : stage ≠ .new) (haccepted : ∀ id, stage ≠ .accepted id)
    (htaken : ∀ id, Client.taken { k with stage, context } = some id → k.taken = some id) :
    ClientInv cfg s c { k with stage, context } where
  __ := h
  fresh hst := absurd hst hnew
  accepted id hst := absurd hst (haccepted id)
  range id hid := h.range id (htaken id hid)
  holds hup hsince id hid := h.holds hup hsince id (htaken id hid)

theorem ClientInv.accept (h : ClientInv cfg s c k) (hnew : k.stage = .new) {taken : Option Nat}
    (hrange : ∀ id ∈ taken, 0 < id ∧ id ≤ cfg.kMaxConns)
    (hholds : ∀ id ∈ taken, s.clientConns.lookup id = some c) :
    ClientInv cfg s c { k with since := s.ups, stage := .accepted taken } where
  fresh := nofun
  accepted _ _ := by rw [h.fresh hnew]; rfl
  since_le := Nat.le_refl _
  range := hrange
  wf := h.wf
  holds _ _ := hholds
  roomy _ _ := by rw [h.fresh hnew]; exact Buffer.roomy_newBuffer
  unsent _ _ := by
    rw [h.fresh hnew]
    exact Buffer.content_newBuffer ▸ nil_suffix

theorem Inv.takeId (h : Inv cfg s) (hnew : (s.clients c).stage = .new) : Inv cfg (s.takeId c) := by
  unfold MultiplexServer.takeId
  split
  · exact h.setClient ((h.clients c).accept hnew nofun nofun) prefix_rfl
  · next id rest havail =>
      have hup : s.backendConn ≠ none := by
        intro hnone
        rw [(h.down hnone).1] at havail
        cases havail
      have hids := h.ids hup
      have hnodup := h.nodup hup
      rw [havail] at hids hnodup
      have hkey : id ∉ s.clientConns.keys := by
        rw [cons_append, nodup_cons, mem_append, not_or] at hnodup
        exact hnodup.1.2
      have hrange : 0 < id ∧ id ≤ cfg.kMaxConns := by
        have hmem := hids.mem_iff.mp (mem_append_left _ (mem_cons_self))
        rw [mem_range'_1] at hmem
        omega
      have hother : ∀ c', ClientInv cfg { s with clientConns := s.clientConns.insert id c } c'
          (s.clients c') := fun c' =>
        { h.clients c' with
          holds := fun _ hsince id' hid' => by
            have hlookup := (h.clients c').holds hup hsince id' hid'
            have hne : id' ≠ id := by
              rintro rfl
              exact hkey (AList.lookup_isSome.mp (by rw [hlookup]; rfl))
            exact (AList.lookup_insert_ne hne).trans hlookup }
      have hinsert : Inv cfg { s with
          availIds := rest, clientConns := s.clientConns.insert id c } :=
        { down := fun hnone => absurd hnone hup
          ids := fun _ => by
            refine List.Perm.trans ?_ hids
            rw [AList.keys_insert, erase_of_not_mem hkey]
            exact perm_middle
          clients := fun c' => (hother c').of_eq rfl rfl rfl
          sent := h.sent
          backendInput := h.backendInput }
      have hk : ClientInv cfg { s with clientConns := s.clientConns.insert id c } c
          { s.clients c with since := s.ups, stage := .accepted (some id) } :=
        ClientInv.accept (hother c) hnew
          (by rintro _ ⟨rfl⟩; exact hrange) (by rintro _ ⟨rfl⟩; exact AList.lookup_insert _)
      exact hinsert.setClient (hk.of_eq rfl rfl rfl) prefix_rfl

/-- A client that came since the backend came up gives back its own id. -/
theorem Inv.releaseId (h : Inv cfg s) (hst : (s.clients c).stage = .releasing)
    (hctx : (s.clients c).context = some id)
    (hcur : s.backendConn = none ∨ (s.clients c).since = s.ups) :
    ∃ s', s.releaseId c id = .ok s' ∧ Inv cfg s' := by
  have hclosed : Inv cfg (s.setClient c { s.clients c with stage := .closed }) := by
    refine h.setClient ?_ prefix_rfl
    exact (h.clients c).stage nofun nofun nofun
  unfold MultiplexServer.releaseId
  by_cases hup : s.backendConn = none
  · obtain ⟨havail, hconns⟩ := h.down hup
    refine ⟨_, ?_, hclosed⟩
    simp only [MultiplexServer.setClient, hup, havail, hconns]
    rfl
  · have hsome : s.backendConn.isSome := Option.ne_none_iff_isSome.mp hup
    have htaken : (s.clients c).taken = some id := by rw [Client.taken, hst, hctx]
    have hlookup := (h.clients c).holds hup (hcur.resolve_left hup) id htaken
    have hkey : id ∈ s.clientConns.keys := AList.lookup_isSome.mp (by rw [hlookup]; rfl)
    refine ⟨_, if_pos hsome, ?_⟩
    refine { down := fun hnone => absurd hnone hup, ids := fun _ => ?_, clients := fun c' => ?_,
             sent := hclosed.sent, backendInput := h.backendInput }
    · refine List.Perm.trans ?_ (h.ids hup)
      simp only [MultiplexServer.setClient, AList.keys_erase, append_assoc,
        singleton_append]
      exact (perm_cons_erase hkey).symm.append_left _
    · refine { hclosed.clients c' with holds := fun _ hsince id' hid' => ?_ }
      have hlookup' := (hclosed.clients c').holds hup hsince id' hid'
      by_cases hid : id' = id
      · -- only the client that goes holds this id, and it has given it back
        have hc : c' = c := Option.some.inj (hlookup'.symm.trans (hid ▸ hlookup))
        subst hc
        simp [MultiplexServer.setClient, Client.taken] at hid'
      · exact (AList.lookup_erase_ne hid).trans hlookup'

/-! ## the other steps of a client -/

theorem Inv.announce (h : Inv cfg s) {taken : Option Nat}
    (hst : (s.clients c).stage = .accepted taken) :
    ∃ s', s.announce cfg c taken = .ok s' ∧ Inv cfg s' := by
  have htaken : (s.clients c).taken = taken := by rw [Client.taken, hst]
  cases taken with
  | none =>
    have hctx := (h.clients c).accepted none hst
    refine ⟨_, rfl, h.setClient ?_ prefix_rfl⟩
    refine (h.clients c).stage nofun nofun fun id' hid' => ?_
    exact nomatch hctx.symm.trans hid'
  | some id =>
    refine ⟨_, sendBackendString_eq (length_connMessage_le _ _), ?_⟩
    refine Inv.record (h.setClient ?_ ?_) fun hid => absurd rfl hid
    · refine (h.clients c).stage nofun nofun fun id' hid' => ?_
      rw [htaken]
      exact hid'
    · exact prefix_rfl

theorem Inv.disconnect (h : Inv cfg s) (hst : (s.clients c).stage = .idle) :
    ∃ s', s.disconnect cfg c = .ok s' ∧ Inv cfg s' := by
  have htaken : (s.clients c).taken = (s.clients c).context := by rw [Client.taken, hst]
  unfold MultiplexServer.disconnect
  split
  · next hctx =>
      refine ⟨_, rfl, h.setClient ?_ prefix_rfl⟩
      exact (h.clients c).stage nofun nofun nofun
  · next id hctx =>
      rw [check_of ((h.clients c).range id (htaken.trans hctx)), ok_bind]
      refine ⟨_, sendBackendString_eq (length_connMessage_le _ _), ?_⟩
      refine Inv.record (h.setClient ?_ ?_) fun hid => absurd rfl hid
      · refine (h.clients c).stage nofun nofun fun id' hid' => ?_
        rw [htaken]
        exact hid'
      · exact prefix_rfl

theorem ClientInv.outcome_readFd (h : ClientInv cfg s c k) (hread : Readable k.inputBuffer data) :
    Outcome (fun r => r.1.WF ∧ (s.connected → k.since = s.ups → r.1.Roomy ∧
        r.1.content = k.inputBuffer.content ++ data))
      (· = .lengthError) (k.inputBuffer.readFd (.received data)) := by
  by_cases hcur : s.connected ∧ k.since = s.ups
  · refine ((h.roomy hcur.1 hcur.2).outcome_readFd hread.2).mono (fun r hr => ?_) fun _ he => he
    exact ⟨hr.1.wf, fun _ _ => hr⟩
  · refine (Buffer.outcome_readFd h.wf hread.2).mono (fun r hr => ?_) fun _ he => he
    exact ⟨hr.1, fun hconn hsince => absurd ⟨hconn, hsince⟩ hcur⟩

theorem ClientInv.setBuffer (h : ClientInv cfg s c k) {stage : Stage} {received : List UInt8}
    (hnew : stage ≠ .new) (haccepted : ∀ id, stage ≠ .accepted id)
    (htaken : Client.taken { k with stage, inputBuffer := buf, received } = k.taken) (hwf : buf.WF)
    (hbuf : s.connected → k.since = s.ups → buf.Roomy ∧ buf.content <:+ received) :
    ClientInv cfg s c { k with stage, inputBuffer := buf, received } where
  fresh hst := absurd hst hnew
  accepted id hst := absurd hst (haccepted id)
  since_le := h.since_le
  range id hid := h.range id (htaken ▸ hid)
  wf := hwf
  holds hup hsince id hid := h.holds hup hsince id (htaken ▸ hid)
  roomy hconn hsince := (hbuf hconn hsince).1
  unsent hconn hsince := (hbuf hconn hsince).2

theorem Inv.onClientMessage (h : Inv cfg s) (hst : (s.clients c).stage = .idle)
    (hread : Readable (s.clients c).inputBuffer data) :
    Outcome (Inv cfg) (· = .buffer .lengthError) (s.onClientMessage c data) := by
  have hk := h.clients c
  have htaken : (s.clients c).taken = (s.clients c).context := by rw [Client.taken, hst]
  unfold MultiplexServer.onClientMessage
  refine Outcome.bind ((hk.outcome_readFd hread).mapError fun e he => congrArg _ he) fun r hr => ?_
  dsimp only
  split
  · refine .ok (h.setClient ?_ (prefix_append _ _))
    refine hk.setBuffer ?_ ?_ rfl hr.1.retrieveAll.1 fun _ _ => ⟨hr.1.roomy_retrieveAll, ?_⟩
    · rw [hst]; nofun
    · rw [hst]; nofun
    · rw [hr.1.retrieveAll.2]
      exact nil_suffix
  · next hctx =>
      refine .ok (h.setClient ?_ (prefix_append _ _))
      refine hk.setBuffer nofun nofun ?_ hr.1 fun hconn hsince => ?_
      · rw [htaken]; rfl
      · obtain ⟨hroomy, hcontent⟩ := hr.2 hconn hsince
        rw [hcontent]
        exact ⟨hroomy, (suffix_append_inj_of_length_eq rfl).mpr ⟨hk.unsent hconn hsince, rfl⟩⟩

/-- The header fits in front of the last packet of the buffer. -/
def HeaderFits (buf : Buffer) : Prop :=
  buf.readableBytes = 0 ∨ kMaxPacketLen < buf.readableBytes ∨ kHeaderLen ≤ buf.prependableBytes

instance (buf : Buffer) : Decidable (HeaderFits buf) := inferInstanceAs (Decidable (_ ∨ _))

theorem ClientInv.afterRound (h : ClientInv cfg s c k) (htaken : k.taken = some id)
    (hctx : k.context = some id) (hwf : buf.WF) (more : Bool)
    (hbuf : s.connected → k.since = s.ups → buf.Roomy ∧ buf.content <:+ k.received) :
    ClientInv cfg s c (afterRound k buf more) := by
  unfold MultiplexServer.afterRound
  cases more with
  | true => exact h.setBuffer nofun nofun (hctx.trans htaken.symm) hwf hbuf
  | false => exact h.setBuffer nofun nofun (hctx.trans htaken.symm) hwf hbuf

theorem Inv.sendBackendBuffer (h : Inv cfg s) (hst : (s.clients c).stage = .sending)
    (hctx : (s.clients c).context = some id) (hcur : if s.connected then (s.clients c).since = s.ups
      else HeaderFits (s.clients c).inputBuffer) :
    ∃ s', s.sendBackendBuffer c id = .ok s' ∧ Inv cfg s' := by
  have hk := h.clients c
  have htaken : (s.clients c).taken = some id := by rw [Client.taken, hst, hctx]
  by_cases hconn : s.connected = true
  · -- the packet goes out under the id that the client holds
    rw [if_pos hconn] at hcur
    have hup : s.backendConn ≠ none := by
      intro hnone
      rw [connected, hnone] at hconn
      cases hconn
    have hunsent := hk.unsent hconn hcur
    obtain ⟨buf', hround, hroomy, hcontent⟩ := sendRound_spec id (hk.roomy hconn hcur)
    rw [← hconn] at hround
    refine ⟨_, sendBackendBuffer_eq hround, Inv.setClient (h.record fun _ b hb => ?_) ?_
      prefix_rfl⟩
    · refine ⟨c, (s.clients c).inputBuffer.content.take kMaxPacketLen,
        hk.holds hup hcur id htaken, ?_, (List.take_prefix _ _).isInfix.trans hunsent.isInfix⟩
      split at hb
      · cases hb
      · exact (Option.mem_some.mp hb).symm
    · refine (hk.afterRound htaken hctx hroomy.wf _ fun _ _ => ⟨hroomy, ?_⟩).of_eq rfl rfl rfl
      rw [hcontent]
      exact (drop_suffix _ _).trans hunsent
  · have hconn' : s.connected = false := by simpa using hconn
    rw [if_neg hconn] at hcur
    obtain ⟨buf', more, hround, hwf⟩ := sendRound_not_connected id hk.wf fun hshort hne => by
      rw [HeaderFits, hk.wf.readableBytes_eq_length] at hcur
      have hpos := length_pos_iff.mpr hne
      have hfits : kHeaderLen ≤ (s.clients c).inputBuffer.prependableBytes := by omega
      exact hfits
    rw [← hconn'] at hround
    refine ⟨_, sendBackendBuffer_eq hround, Inv.setClient (h.record fun _ b hb => nomatch hb) ?_
      prefix_rfl⟩
    exact (hk.afterRound htaken hctx hwf more fun hc _ => absurd hc hconn).of_eq rfl rfl rfl

/-! ## the backend comes and goes -/

theorem Inv.onBackendUp (h : Inv cfg s) (hdown : s.backendConn = none) :
    ∃ s', s.onBackendUp cfg = .ok s' ∧ Inv cfg s' := by
  obtain ⟨havail, hconns⟩ := h.down hdown
  unfold MultiplexServer.onBackendUp
  rw [check_of havail]
  refine ⟨_, rfl, ?_⟩
  -- all clients came before the new backend
  have hold : ∀ c, (s.clients c).since ≠ s.ups + 1 := fun c =>
    Nat.ne_of_lt (Nat.lt_succ_of_le (h.clients c).since_le)
  refine { down := nofun, ids := fun _ => ?_, clients := fun c => ?_, sent := h.sent,
           backendInput := Buffer.wf_newBuffer }
  · rw [hconns]
    exact (append_nil _) ▸ List.Perm.refl _
  · exact { h.clients c with
      since_le := Nat.le_succ_of_le (h.clients c).since_le
      holds := fun _ hsince => absurd hsince (hold c)
      roomy := fun _ hsince => absurd hsince (hold c)
      unsent := fun _ hsince => absurd hsince (hold c) }

theorem Inv.backendLost (h : Inv cfg s) (hconn : s.connected) :
    Inv cfg { s with backendConn := some .disconnected } := by
  have hup : s.backendConn ≠ none := by
    intro hnone
    rw [connected, hnone] at hconn
    cases hconn
  refine { down := nofun, ids := fun _ => h.ids hup, clients := fun c => ?_, sent := h.sent,
           backendInput := h.backendInput }
  refine { h.clients c with holds := fun _ => (h.clients c).holds hup, roomy := ?_, unsent := ?_ }
  all_goals intro hc; cases hc

theorem Inv.onBackendDown (h : Inv cfg s) : Inv cfg s.onBackendDown := by
  refine { down := fun _ => ⟨rfl, rfl⟩, ids := fun hup => absurd rfl hup, clients := fun c => ?_,
           sent := h.sent, backendInput := h.backendInput }
  refine { h.clients c with holds := fun hup => absurd rfl hup, roomy := ?_, unsent := ?_ }
  all_goals intro hc; cases hc

/-- What the backend sends changes only its own buffer and the history. -/
theorem Inv.setInput (h : Inv cfg s) (hwf : buf.WF) (forwarding : Bool)
    (delivered : List (Packet × Option ClientId)) :
    Inv cfg { s with backendInput := buf, forwarding, delivered } where
  __ := h
  clients c := (h.clients c).of_eq rfl rfl rfl
  backendInput := hwf

theorem Inv.onBackendMessage (h : Inv cfg s) (hread : Readable s.backendInput data) :
    Outcome (Inv cfg) (· = .buffer .lengthError) (s.onBackendMessage data) := by
  refine Outcome.bind ((Buffer.outcome_readFd h.backendInput hread.2).mapError
    fun e he => congrArg _ he) fun r hr => ?_
  exact .ok (h.setInput hr.1 _ _)

theorem Inv.sendToClient (h : Inv cfg s) : ∃ s', s.sendToClient = .ok s' ∧ Inv cfg s' := by
  unfold MultiplexServer.sendToClient
  rw [nextPacket_eq h.backendInput, ok_bind]
  cases hp : readPacket s.backendInput.content with
  | none => exact ⟨_, rfl, h.setInput h.backendInput _ _⟩
  | some p =>
    obtain ⟨buf', hret, hwf, -⟩ := retrievePacket_spec h.backendInput hp
    refine ⟨_, ?_, h.setInput hwf s.forwarding (s.delivered ++ [(p, s.clientConns.lookup p.id)])⟩
    simp only [hret]
    rfl

/-- A client that came before the backend did sends nothing while the backend is
connected, and gives its id back only while there is no backend.  While the backend
is not connected, a client has room for the header that is put in front of what it
sends. -/
def Current (s : MultiplexServer) : Label → Prop
  | .send c => (s.clients c).stage = .sending →
      if s.connected then (s.clients c).since = s.ups else HeaderFits (s.clients c).inputBuffer
  | .release c => (s.clients c).stage = .releasing →
      s.backendConn = none ∨ (s.clients c).since = s.ups
  | _ => True

instance (s : MultiplexServer) (l : Label) : Decidable (Current s l) := by
  cases l <;> unfold Current <;> infer_instance

theorem Inv.step (h : Inv cfg s) {l : Label} (hl : Current s l) :
    Outcome (Inv cfg) (· = .buffer .lengthError) (s.step cfg l) := by
  -- a step that does not fail
  have hok : ∀ {r : Except Fault MultiplexServer}, (∃ s', r = .ok s' ∧ Inv cfg s') →
      Outcome (Inv cfg) (· = .buffer .lengthError) r := by
    rintro _ ⟨s', rfl, hs'⟩
    exact .ok hs'
  have hskip : Outcome (Inv cfg) (· = .buffer .lengthError) (.ok s : Except Fault MultiplexServer) :=
    .ok h
  cases l with
  | connect c =>
    simp only [MultiplexServer.step]
    split
    · next hst => exact .ok (h.takeId hst)
    · exact hskip
  | announce c =>
    simp only [MultiplexServer.step]
    split
    · next hst => exact hok (h.announce hst)
    · exact hskip
  | message c data =>
    simp only [MultiplexServer.step]
    split
    · next hst => exact h.onClientMessage hst.1 hst.2
    · exact hskip
  | send c =>
    simp only [MultiplexServer.step]
    split
    · next id hst hctx => exact hok (h.sendBackendBuffer hst hctx (hl hst))
    · exact hskip
  | disconnect c =>
    simp only [MultiplexServer.step]
    split
    · next hst => exact hok (h.disconnect hst)
    · exact hskip
  | release c =>
    simp only [MultiplexServer.step]
    split
    · next id hst hctx => exact hok (h.releaseId hst hctx (hl hst))
    · exact hskip
  | backendUp =>
    simp only [MultiplexServer.step]
    split
    · next hdown => exact hok (h.onBackendUp hdown)
    · exact hskip
  | backendLost =>
    simp only [MultiplexServer.step]
    split
    · next hconn => exact .ok (h.backendLost hconn.1)
    · exact hskip
  | backendDown =>
    simp only [MultiplexServer.step]
    split
    · exact .ok h.onBackendDown
    · exact hskip
  | backendMessage data =>
    simp only [MultiplexServer.step]
    split
    · next hread => exact h.onBackendMessage hread.2.2
    · exact hskip
  | forward =>
    simp only [MultiplexServer.step]
    split
    · exact hok h.sendToClient
    · exact hskip

/-- **Clients are not mixed.**  `keeps` is about a client that took its id from the
present backend and has not given it back. -/
structure Separate (cfg : Config) (s : MultiplexServer) : Prop where
  nodup : s.backendConn ≠ none → s.availIds.Nodup
  disjoint : s.backendConn ≠ none → ∀ id ∈ s.availIds, id ∉ s.clientConns
  exactly : s.backendConn ≠ none →
    ∀ id, id ∈ s.availIds ∨ id ∈ s.clientConns ↔ 1 ≤ id ∧ id ≤ cfg.kMaxConns
  keeps : s.backendConn ≠ none → ∀ c id, (s.clients c).since = s.ups →
    (s.clients c).taken = some id → s.clientConns.lookup id = some c
  own : ∀ e ∈ s.sent, e.id ≠ 0 → e.Own s.clients

theorem Inv.separate (h : Inv cfg s) : Separate cfg s where
  nodup hup := (h.nodup hup).of_append_left
  disjoint hup id hid hkey := (disjoint_of_nodup_append (h.nodup hup)) hid hkey
  exactly hup id := by
    have hmem : id ∈ s.clientConns ↔ id ∈ s.clientConns.keys := Iff.rfl
    rw [hmem, ← mem_append, (h.ids hup).mem_iff, mem_range'_1]
    omega
  keeps hup c id hsince := (h.clients c).holds hup hsince id
  own := h.sent

/-- **The multiplexer does not mix clients**, and no assertion fails, as long as the
clients of an earlier backend neither send nor go while there is a later one. -/
theorem separate_of_current (cfg : Config) (ls : List Label)
    (h : Meets (step cfg) Current create ls) :
    Outcome (Separate cfg) (· = .buffer .lengthError) (run (step cfg) create ls) :=
  (Outcome.run (fun _ _ hs hl => hs.step hl) (inv_create cfg) h).mono (fun _ hs => hs.separate)
    fun _ he => he

/-- The clients are on this host. -/
def localConfig : Config where
  kMaxConns := 10
  kMaxConns_lt := by decide
  peerAddress _ := ⟨⟨"127.0.0.1".toList, 3333, length_localhost⟩, isInetChar_localhost⟩

/-- A client comes, is told that it is up, sends, and goes. -/
theorem separate_of_current_local : Outcome (Separate localConfig) (· = .buffer .lengthError)
    (run (step localConfig) create [.backendUp, .connect 0, .announce 0, .message 0 [104, 105],
      .send 0, .disconnect 0, .release 0]) :=
  separate_of_current localConfig _ (by decide +kernel)

/-- The backend goes and comes again, a new client takes the id of an old one, and
then the old one disconnects. -/
def lateDisconnect : List Label :=
  [.backendUp, .connect 0, .announce 0, .backendLost, .backendDown, .backendUp, .connect 1,
    .announce 1, .disconnect 0, .release 0]

/-- A client that was told to shut down goes on sending while there is no backend. -/
def lateData : List Label :=
  [.backendUp, .connect 0, .announce 0, .backendLost, .backendDown, .message 0 [104], .send 0,
    .message 0 [105], .send 0, .message 0 [33], .send 0]

/-- The new client has lost its entry to the old one, and the third header does not
fit. -/
theorem clients_mixed :
    (∃ s, run (step localConfig) create lateDisconnect = .ok s ∧ ¬ Separate localConfig s) ∧
      run (step localConfig) create lateData = .error (.buffer (.assertion .prepend)) := by
  have hlost : (run (step localConfig) create lateDisconnect).toOption.map (fun s =>
      (s.backendConn, decide ((s.clients 1).since = s.ups), (s.clients 1).taken,
        s.clientConns.lookup 1)) = some (some .connected, true, some 1, none) := by decide +kernel
  have hfault : (match run (step localConfig) create lateData with
      | .ok _ => none
      | .error e => some e) = some (.buffer (.assertion .prepend)) := by decide +kernel
  constructor
  · cases hr : run (step localConfig) create lateDisconnect with
    | error e => rw [hr] at hlost; cases hlost
    | ok s =>
      simp only [hr, Except.toOption, Option.map_some, Option.some.injEq, Prod.mk.injEq,
        decide_eq_true_eq] at hlost
      obtain ⟨hconn, hsince, htaken, hlookup⟩ := hlost
      refine ⟨s, rfl, fun hsep => ?_⟩
      have hkeeps := hsep.keeps (by rw [hconn]; nofun) 1 1 hsince htaken
      exact nomatch hlookup.symm.trans hkeeps
  · cases hr : run (step localConfig) create lateData with
    | ok s => rw [hr] at hfault; cases hfault
    | error e =>
      rw [hr] at hfault
      rw [Option.some.inj hfault]

end MultiplexServer

end Muduo
