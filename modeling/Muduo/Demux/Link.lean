import Muduo.Demux.Clients

/-!
# Muduo.Demux.Link

A `MultiplexServer`, a `DemuxServer` and the connection between them, which stays up.

What one side sends is in `toDemux` or `toMux` until the other side reads it, in
pieces of any size.  `received` has the calls of `onClientMessage`, with the id of the
client.
-/

namespace Muduo

open Lib Multiplexer MultiplexServer List

structure Link where
  mux : MultiplexServer
  demux : DemuxServer
  toDemux : List UInt8
  toMux : List UInt8
  received : List (Nat × List UInt8)

namespace Link

/-- The backend has just come up. -/
def create (cfg : Config) : Link where
  mux := { MultiplexServer.create with
    backendConn := some .connected, availIds := List.range' 1 cfg.kMaxConns, ups := 1 }
  demux := .create
  toDemux := []
  toMux := []
  received := []

theorem onBackendUp_create (cfg : Config) :
    MultiplexServer.create.onBackendUp cfg = .ok (create cfg).mux := rfl

/-- Something happens to a client, or to a socks connection; bytes arrive on one side,
or on the other; a round of `sendToClient`. -/
inductive Label
  | client (l : MultiplexServer.Label)
  | socks (l : DemuxServer.Label)
  | arrive (n : Nat)
  | answer (n : Nat)
  | forward

/-- The steps of the demultiplexer that are not about the multiplexer's connection. -/
def ofSocks : DemuxServer.Label → Bool
  | .server _ => false
  | _ => true

/-- A step of the multiplexer has led to `m`. -/
def afterMux (s : Link) (m : MultiplexServer) (heard : List (Nat × List UInt8)) : Link :=
  { s with
    mux := m
    toDemux := s.toDemux ++ (m.sent.drop s.mux.sent.length).flatMap Sent.bytes
    received := s.received ++ heard }

/-- A step of the demultiplexer has led to `d`. -/
def afterDemux (s : Link) (d : DemuxServer) : Link :=
  { s with demux := d, toMux := s.toMux ++ (d.sent.drop s.demux.sent.length).flatten }

variable (cfg : Config)

def step (s : Link) : Label → Except Fault Link
  | .client l =>
    if ofClient l then do
      let m ← s.mux.step cfg l
      return s.afterMux m (heard s.mux l)
    else .ok s
  | .socks l =>
    if ofSocks l then do
      let d ← s.demux.step l
      return s.afterDemux d
    else .ok s
  | .arrive n =>
    if MultiplexServer.Readable s.demux.serverInput (s.toDemux.take n) then do
      let d ← s.demux.readServer (s.toDemux.take n)
      return { s with demux := d, toDemux := s.toDemux.drop n }
    else .ok s
  | .forward =>
    if s.mux.forwarding then do
      let m ← s.mux.sendToClient
      return { s with mux := m }
    else .ok s
  | .answer n =>
    if ¬ s.mux.forwarding ∧ MultiplexServer.Readable s.mux.backendInput (s.toMux.take n) then do
      let m ← s.mux.onBackendMessage (s.toMux.take n)
      return { s with mux := m, toMux := s.toMux.drop n }
    else .ok s

/-- **Every stream is intact.**  `transit` are the packets that have been sent and not
been taken out yet. -/
structure Intact (s : Link) : Prop where
  toSocks : ∃ transit : List Packet, (∀ p ∈ transit, p.Valid) ∧
    s.demux.serverInput.content ++ s.toDemux = transit.flatMap Packet.encode ∧
    ∀ id, 1 ≤ id → id ≤ 65535 →
      bytesFor id s.demux.extracted ++ bytesFor id transit ++ unsent s.mux id =
        bytesOf id s.received
  toClients : ∃ transit : List Packet, (∀ p ∈ transit, p.Valid) ∧
    s.mux.backendInput.content ++ s.toMux = transit.flatMap Packet.encode ∧
    ∀ id : Nat, 1 ≤ id → id ≤ 65535 →
      bytesFor id (s.mux.delivered.map Prod.fst) ++ bytesFor id transit =
        bytesOf (id : Int) s.demux.received

/-! ## the demultiplexer's side -/

variable {l : DemuxServer.Label}

section
variable {d d' : DemuxServer} {id : Nat}

/-- The packets that a step of a socks connection sends, and the calls of
`onSocksMessage` in it. -/
structure Answers (d d' : DemuxServer) (ps : List Packet) (calls : List (Int × List UInt8)) :
    Prop where
  inv : d'.Inv
  known : d.known ⊆ d'.known
  rest : d' = { d with socksConns := d'.socksConns, sent := d'.sent, received := d'.received }
  sent : d'.sent = d.sent ++ ps.map Packet.encode
  valid : ∀ p ∈ ps, p.Valid
  received : d'.received = d.received ++ calls
  stream : ∀ id : Nat, 0 < id → bytesFor id ps = bytesOf (id : Int) calls

theorem answers_nothing (h : d'.Inv) (hknown : d.known ⊆ d'.known)
    (hrest : d' = { d with socksConns := d'.socksConns }) : Answers d d' [] [] where
  inv := h
  known := hknown
  rest := by rw [hrest]
  sent := by rw [hrest]; exact (append_nil _).symm
  valid := nofun
  received := by rw [hrest]; exact (append_nil _).symm
  stream _ _ := rfl

variable {entry : Demux.Entry}

theorem find_of_entry (h : d.socksConns id = some entry) (site : Assert) :
    d.find id site = .ok entry := by rw [DemuxServer.find, h]

theorem range_of_entry (h : d.Inv) (hentry : d.socksConns id = some entry) :
    0 < id ∧ id < 2 ^ 16 := by
  obtain ⟨i, hi, hpos, hlt⟩ := h.range id (by rw [hentry]; rfl)
  cases Int.ofNat_inj.mp hi
  exact ⟨hpos, hlt⟩

theorem known_subset_setEntry (entry : Demux.Entry) : d.known ⊆ (d.setEntry id (some entry)).known :=
  fun _ hi => DemuxServer.known_setEntry_some _ (Set.mem_insert_of_mem _ hi)

theorem onSocksUp_spec (h : d.Inv) (hentry : d.socksConns id = some entry) :
    ∃ d', d.onSocksUp id = .ok d' ∧ Answers d d' [] [] := by
  have hinv := h.entries id entry hentry
  obtain ⟨hpos, hlt⟩ := range_of_entry h hentry
  have hset : ∀ {entry'}, DemuxServer.EntryInv entry' →
      Answers d (d.setEntry id (some entry')) [] [] := fun hentry' =>
    answers_nothing (h.setEntry hpos hlt (by rintro _ ⟨rfl⟩; exact hentry'))
      (known_subset_setEntry _) rfl
  unfold DemuxServer.onSocksUp
  rw [find_of_entry hentry, ok_bind]
  dsimp only
  rw [hinv.pending.chars_readable, hinv.pending.readableBytes_eq_length]
  split
  · exact ⟨_, rfl, hset ⟨hinv.pending.retrieveAll.1, fun _ => hinv.pending.retrieveAll.2, hinv.input,
      hinv.read⟩⟩
  · next hlen =>
      have hempty : entry.pending.content = [] := eq_nil_of_length_eq_zero (by omega)
      exact ⟨_, rfl, hset ⟨hinv.pending, fun _ => hempty, hinv.input, hinv.read⟩⟩

theorem onSocksDown_spec (h : d.Inv) (hentry : d.socksConns id = some entry)
    (hst : entry.state = .connected) : ∃ d' ps, d.onSocksDown id = .ok d' ∧ Answers d d' ps [] := by
  have hinv := h.entries id entry hentry
  obtain ⟨hpos, hlt⟩ := range_of_entry h hentry
  have hlen := DemuxServer.length_disconnectMessage_le hlt
  have hclosed : DemuxServer.EntryInv { entry with state := .disconnected } :=
    ⟨hinv.pending, fun _ => hinv.flushed (by rw [hst]; nofun), hinv.input, hinv.read⟩
  unfold DemuxServer.onSocksDown
  rw [find_of_entry hentry, ok_bind, sendBytes_spec _ _ hlen, ok_bind]
  refine ⟨_, [⟨0, DemuxServer.disconnectMessage id⟩], rfl, ?_⟩
  have hset : (d.setEntry id (some { entry with state := .disconnected })).Inv :=
    h.setEntry hpos hlt (by rintro _ ⟨rfl⟩; exact hclosed)
  refine ⟨⟨hset.entries, hset.range, hset.serverInput⟩, known_subset_setEntry _, rfl, rfl, ?_,
    (append_nil _).symm, fun id' hid' => ?_⟩
  · intro p hp
    rw [mem_singleton.mp hp]
    exact ⟨Nat.two_pow_pos _, DemuxServer.disconnectMessage_ne_nil id, hlen⟩
  · rw [bytesFor_singleton, if_neg (Nat.ne_of_lt hid')]
    rfl

theorem onSocksMessage_spec (h : d.Inv) {data : List UInt8} (hentry : d.socksConns id = some entry)
    (hread : Readable entry.inputBuffer data) :
    Outcome (fun d' => ∃ ps, Answers d d' ps [((id : Int), data)]) (· = .buffer .lengthError)
      (d.onSocksMessage id entry data) := by
  have hinv := h.entries id entry hentry
  obtain ⟨hpos, hlt⟩ := range_of_entry h hentry
  unfold DemuxServer.onSocksMessage
  refine Outcome.bind ((hinv.input.outcome_readFd hread.2).mapError fun e he => congrArg _ he)
    fun r hr => ?_
  obtain ⟨hroomy, hcontent⟩ := hr
  rw [hinv.read, nil_append] at hcontent
  obtain ⟨ps, buf', hloop, hroomy', hempty, hflat, hps⟩ := DemuxServer.sendLoop_spec id hroomy
    (Nat.lt_succ_self r.1.content.length)
  have hset : (d.setEntry id (some { entry with inputBuffer := buf' })).Inv :=
    h.setEntry hpos hlt (by
      rintro _ ⟨rfl⟩
      exact ⟨hinv.pending, hinv.flushed, hroomy', hempty⟩)
  dsimp only
  rw [find_of_entry hentry, ok_bind, hroomy.wf.readableBytes_eq_length, hloop]
  refine .ok ⟨ps, ⟨hset.entries, hset.range, hset.serverInput⟩, known_subset_setEntry _, rfl, rfl,
    ?_, rfl, fun id' _ => ?_⟩
  · intro p hp
    obtain ⟨hid, hne, hlen⟩ := hps p hp
    exact ⟨hid ▸ hlt, hne, hlen⟩
  · rw [bytesFor_of_forall fun p hp => (hps p hp).1, bytesOf_singleton, hflat, hcontent]
    simp only [Int.ofNat_inj]

/-- **A step of a socks connection.** -/
theorem socks_step (h : d.Inv) (hl : ofSocks l) :
    Outcome (fun d' => ∃ ps calls, Answers d d' ps calls) (· = .buffer .lengthError) (d.step l) := by
  have hskip : Outcome (fun d' => ∃ ps calls, Answers d d' ps calls) (· = .buffer .lengthError)
      (.ok d : Except Fault DemuxServer) := .ok ⟨[], [], answers_nothing h Set.Subset.rfl rfl⟩
  cases l with
  | server data => cases hl
  | socksUp id =>
    simp only [DemuxServer.step]
    split
    · next hentry =>
        split
        · obtain ⟨d', hup, hanswers⟩ := onSocksUp_spec h hentry
          rw [hup]
          exact .ok ⟨[], [], hanswers⟩
        · exact hskip
    · exact hskip
  | socksDown id =>
    simp only [DemuxServer.step]
    split
    · next hentry =>
        split
        · next hst =>
            obtain ⟨d', ps, hdown, hanswers⟩ := onSocksDown_spec h hentry hst
            rw [hdown]
            exact .ok ⟨ps, [], hanswers⟩
        · exact hskip
    · exact hskip
  | socks id data =>
    simp only [DemuxServer.step]
    split
    · next hentry =>
        split
        · next hst =>
            refine (onSocksMessage_spec h hentry hst.2).mono (fun d' hd' => ?_) fun _ he => he
            obtain ⟨ps, hanswers⟩ := hd'
            exact ⟨ps, _, hanswers⟩
        · exact hskip
    · exact hskip

end

/-! ## both sides -/

section
variable {cfg : Config} {s : Link}

/-- The packets on the way to the demultiplexer are the events `es`. -/
structure Ahead (s : Link) (es : List Event) : Prop where
  reading : s.demux.Reading s.toDemux es
  live : live s.mux ⊆ opened s.demux.known (es.map Event.talk)
  stream : ∀ id, 0 < id →
    bytesFor id (s.demux.extracted ++ es.map Event.packet) ++ unsent s.mux id = bytesOf id s.received

/-- The packets on the way to the multiplexer are `ps`. -/
structure Back (s : Link) (ps : List Packet) : Prop where
  valid : ∀ p ∈ ps, p.Valid
  bytes : s.mux.backendInput.content ++ s.toMux = ps.flatMap Packet.encode
  stream : ∀ id : Nat, 0 < id →
    bytesFor id (s.mux.delivered.map Prod.fst ++ ps) = bytesOf (id : Int) s.demux.received

structure Inv (cfg : Config) (s : Link) : Prop where
  mux : MultiplexServer.Inv cfg s.mux
  linked : Linked s.mux
  ahead : ∃ es, Ahead s es
  back : ∃ ps, Back s ps

theorem inv_create (cfg : Config) : Inv cfg (create cfg) where
  mux := by
    obtain ⟨m, hm, hinv⟩ := (MultiplexServer.inv_create cfg).onBackendUp rfl
    rw [onBackendUp_create] at hm
    cases hm
    exact hinv
  linked := by
    refine ⟨rfl, fun c hst => absurd rfl hst, fun c _ => Buffer.content_newBuffer, fun id c h => ?_⟩
    cases h
  ahead := by
    refine ⟨[], ⟨DemuxServer.inv_create, nofun, trivial, ?_⟩, ?_, fun id _ => rfl⟩
    · exact Buffer.content_newBuffer
    · rintro id ⟨c, hctx, -⟩
      cases hctx
  back := ⟨[], nofun, Buffer.content_newBuffer, fun id _ => rfl⟩

variable {calls : List (Nat × List UInt8)} {m : MultiplexServer}

theorem Ahead.afterMux {es es' : List Event}
    (h : Ahead s es) (hsaid : Says s.mux m es' calls) : Ahead (s.afterMux m calls) (es ++ es') := by
  obtain ⟨new, hsent, hnew⟩ := hsaid.sent
  obtain ⟨hfit, hlive⟩ := hsaid.live _ h.live
  refine ⟨⟨h.reading.inv, ?_, ?_, ?_⟩, ?_, fun id hid => ?_⟩
  · intro e he
    obtain he | he := mem_append.mp he
    · exact h.reading.valid e he
    · exact hsaid.valid e he
  · rw [map_append]
    exact h.reading.fit.append hfit
  · simp only [Link.afterMux]
    rw [hsent, drop_left, ← append_assoc, h.reading.bytes, hnew, flatMap_append]
  · rw [map_append, opened_append]
    exact hlive
  · have hold := h.stream id hid
    have hstep := hsaid.stream id hid
    simp only [Link.afterMux]
    rw [map_append, ← append_assoc, bytesFor_append, append_assoc, hstep,
      ← append_assoc, hold, bytesOf_append]

theorem Back.afterMux {ps : List Packet} {es : List Event} (h : Back s ps)
    (hsaid : Says s.mux m es calls) : Back (s.afterMux m calls) ps := by
  refine ⟨h.valid, ?_, fun id hid => ?_⟩
  · simp only [Link.afterMux, hsaid.input.1]
    exact h.bytes
  · simp only [Link.afterMux, hsaid.input.2]
    exact h.stream id hid

theorem Inv.client (h : Inv cfg s) {l : MultiplexServer.Label} (hl : ofClient l) :
    Outcome (Inv cfg) DemuxServer.Stops (do
      let m ← s.mux.step cfg l
      return s.afterMux m (heard s.mux l)) := by
  obtain ⟨es, hahead⟩ := h.ahead
  obtain ⟨ps, hback⟩ := h.back
  refine Outcome.bind ((h.linked.step h.mux hl).mono (fun _ hm => hm) fun _ he => .inr he)
    fun m hm => ?_
  obtain ⟨hinv, es', hsaid⟩ := hm
  exact .ok ⟨hinv, hsaid.linked, ⟨_, hahead.afterMux hsaid⟩, ⟨_, hback.afterMux hsaid⟩⟩

theorem Inv.socks (h : Inv cfg s) (hl : ofSocks l) :
    Outcome (Inv cfg) DemuxServer.Stops (do let d ← s.demux.step l return s.afterDemux d) := by
  obtain ⟨es, hahead⟩ := h.ahead
  obtain ⟨ps, hback⟩ := h.back
  refine Outcome.bind ((socks_step hahead.reading.inv hl).mono (fun _ hd => hd) fun _ he => .inr he)
    fun d hd => ?_
  obtain ⟨ps', calls, hanswers⟩ := hd
  have hinput : d.serverInput = s.demux.serverInput := by rw [hanswers.rest]
  have hextracted : d.extracted = s.demux.extracted := by rw [hanswers.rest]
  refine .ok ⟨h.mux, h.linked, ⟨es, ⟨hanswers.inv, hahead.reading.valid,
    hahead.reading.fit.mono hanswers.known, ?_⟩, hahead.live.trans (opened_mono hanswers.known), ?_⟩,
    ⟨ps ++ ps', ?_, ?_, fun id hid => ?_⟩⟩
  · simp only [afterDemux, hinput]
    exact hahead.reading.bytes
  · simp only [afterDemux, hextracted]
    exact hahead.stream
  · intro p hp
    obtain hp | hp := mem_append.mp hp
    · exact hback.valid p hp
    · exact hanswers.valid p hp
  · simp only [afterDemux]
    rw [hanswers.sent, drop_left, ← append_assoc, hback.bytes, flatMap_append,
      ← flatMap_def]
  · simp only [afterDemux]
    rw [hanswers.received, bytesOf_append, ← append_assoc, bytesFor_append, hback.stream id hid,
      hanswers.stream id hid]

theorem Inv.arrive (h : Inv cfg s) {n : Nat}
    (hread : Readable s.demux.serverInput (s.toDemux.take n)) :
    Outcome (Inv cfg) DemuxServer.Stops (do
      let d ← s.demux.readServer (s.toDemux.take n)
      return { s with demux := d, toDemux := s.toDemux.drop n }) := by
  obtain ⟨es, hahead⟩ := h.ahead
  obtain ⟨ps, hback⟩ := h.back
  have hreading : s.demux.Reading (s.toDemux.take n ++ s.toDemux.drop n) es := by
    rw [take_append_drop]
    exact hahead.reading
  refine Outcome.bind (hreading.readServer hread.2) fun d hd => ?_
  obtain ⟨rest, htook⟩ := hd
  refine .ok ⟨h.mux, h.linked, ⟨rest, htook.reading, hahead.live.trans htook.known, fun id hid => ?_⟩,
    ⟨ps, hback.valid, hback.bytes, fun id hid => ?_⟩⟩
  · rw [htook.extracted]
    exact hahead.stream id hid
  · rw [htook.received]
    exact hback.stream id hid

theorem Inv.answer (h : Inv cfg s) {n : Nat}
    (hread : Readable s.mux.backendInput (s.toMux.take n)) :
    Outcome (Inv cfg) DemuxServer.Stops (do
      let m ← s.mux.onBackendMessage (s.toMux.take n)
      return { s with mux := m, toMux := s.toMux.drop n }) := by
  obtain ⟨es, hahead⟩ := h.ahead
  obtain ⟨ps, hback⟩ := h.back
  unfold MultiplexServer.onBackendMessage
  refine Outcome.bind (P := fun m => ∃ buf : Buffer, buf.WF ∧
    buf.content = s.mux.backendInput.content ++ s.toMux.take n ∧
    m = { s.mux with backendInput := buf, forwarding := true }) ?_ fun m hm => ?_
  · refine Outcome.bind ((Buffer.outcome_readFd h.mux.backendInput hread.2).mapError
      fun e he => .inr (congrArg _ he)) fun r hr => .ok ⟨r.1, hr.1, hr.2.1, rfl⟩
  · obtain ⟨buf, hwf, hcontent, rfl⟩ := hm
    refine .ok ⟨h.mux.setInput hwf true s.mux.delivered,
      ⟨h.linked.up, h.linked.since, h.linked.empty, h.linked.keys⟩,
      ⟨es, hahead.reading, hahead.live, hahead.stream⟩, ⟨ps, hback.valid, ?_, hback.stream⟩⟩
    simp only [hcontent]
    rw [append_assoc, take_append_drop]
    exact hback.bytes

/-- **A round of `sendToClient`** takes out the first packet. -/
theorem Inv.forward (h : Inv cfg s) :
    Outcome (Inv cfg) DemuxServer.Stops (do
      let m ← s.mux.sendToClient
      return { s with mux := m }) := by
  obtain ⟨es, hahead⟩ := h.ahead
  obtain ⟨ps, hback⟩ := h.back
  have hlinked := h.linked
  unfold MultiplexServer.sendToClient
  rw [nextPacket_eq h.mux.backendInput, ok_bind]
  cases hp : readPacket s.mux.backendInput.content with
  | none =>
    exact .ok ⟨h.mux.setInput h.mux.backendInput false s.mux.delivered,
      ⟨hlinked.up, hlinked.since, hlinked.empty, hlinked.keys⟩,
      ⟨es, hahead.reading, hahead.live, hahead.stream⟩, ⟨ps, hback.valid, hback.bytes, hback.stream⟩⟩
  | some p =>
    obtain ⟨buf, hret, hwf, hcontent⟩ := retrievePacket_spec h.mux.backendInput hp
    have hbytes := hback.bytes
    cases ps with
    | nil =>
      have hlen := (length_of_readPacket hp).1
      rw [flatMap_nil, append_eq_nil_iff] at hbytes
      rw [hbytes.1] at hlen
      cases hlen
    | cons q ps =>
      rw [flatMap_cons] at hbytes
      obtain ⟨rfl, hrest⟩ := readPacket_eq_some (hback.valid q mem_cons_self) hbytes hp
      simp only [hret]
      refine .ok ⟨h.mux.setInput hwf s.mux.forwarding
          (s.mux.delivered ++ [(p, s.mux.clientConns.lookup p.id)]),
        ⟨hlinked.up, hlinked.since, hlinked.empty, hlinked.keys⟩,
        ⟨es, hahead.reading, hahead.live, hahead.stream⟩,
        ⟨ps, fun q hq => hback.valid q (mem_cons_of_mem _ hq), ?_, fun id hid => ?_⟩⟩
      · rw [← hrest, ← hcontent]
      · rw [← hback.stream id hid]
        simp

theorem Inv.step (h : Inv cfg s) (l : Label) :
    Outcome (Inv cfg) DemuxServer.Stops (s.step cfg l) := by
  have hskip : Outcome (Inv cfg) DemuxServer.Stops (.ok s : Except Fault Link) := .ok h
  cases l with
  | client l =>
    simp only [Link.step]
    split
    · next hl => exact h.client hl
    · exact hskip
  | socks l =>
    simp only [Link.step]
    split
    · next hl => exact h.socks hl
    · exact hskip
  | arrive n =>
    simp only [Link.step]
    split
    · next hread => exact h.arrive hread
    · exact hskip
  | answer n =>
    simp only [Link.step]
    split
    · next hread => exact h.answer hread.2
    · exact hskip
  | forward =>
    simp only [Link.step]
    split
    · exact h.forward
    · exact hskip

theorem Inv.intact (h : Inv cfg s) : Intact s where
  toSocks := by
    obtain ⟨es, hahead⟩ := h.ahead
    refine ⟨es.map Event.packet, fun p hp => ?_, ?_, fun id hpos _ => ?_⟩
    · obtain ⟨e, he, rfl⟩ := mem_map.mp hp
      exact (hahead.reading.valid e he).packet
    · rw [flatMap_map]
      exact hahead.reading.bytes
    · rw [← bytesFor_append]
      exact hahead.stream id hpos
  toClients := by
    obtain ⟨ps, hback⟩ := h.back
    refine ⟨ps, hback.valid, hback.bytes, fun id hpos _ => ?_⟩
    rw [← bytesFor_append]
    exact hback.stream id hpos

end

end Link

end Muduo
