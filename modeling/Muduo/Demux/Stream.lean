import Muduo.Demux.Commands
import Muduo.Lib.Talk
import Muduo.Multiplexer.Ids

/-!
# Muduo.Demux.Stream

What `DemuxServer` makes of the packets of the multiplexer.
-/

namespace Muduo

open Lib List Function

variable {addr : PeerAddress}

namespace Multiplexer

/-- What the multiplexer says in a packet. -/
inductive Event
  | up (id : Nat) (addr : PeerAddress)
  | down (id : Nat) (addr : PeerAddress)
  | data (id : Nat) (payload : List UInt8)

namespace Event

def packet : Event → Packet
  | up id addr => ⟨0, MultiplexServer.connMessage id addr.toInetAddress "UP"⟩
  | down id addr => ⟨0, MultiplexServer.connMessage id addr.toInetAddress "DOWN"⟩
  | data id payload => ⟨id, payload⟩

def talk : Event → Talk Nat
  | up id _ => .opens id
  | down id _ => .closes id
  | data id _ => .mentions id

def id : Event → Nat
  | up id _ | down id _ | data id _ => id

/-- The id is one of a client, and data fits in a packet. -/
structure Valid (e : Event) : Prop where
  pos : 0 < e.id
  id_lt : e.id < 2 ^ 16
  data : ∀ id payload, e = data id payload → payload ≠ [] ∧ payload.length ≤ kMaxPacketLen

theorem connMessage_ne_nil {id : Nat} (h : id < 2 ^ 16) {status : String}
    (hstatus : status.length ≤ 4) :
    MultiplexServer.connMessage id addr.toInetAddress status ≠ [] := by
  rw [DemuxServer.connMessage_eq h hstatus]
  exact append_ne_nil_of_left_ne_nil (by decide) _

theorem Valid.packet {e : Event} (h : e.Valid) : e.packet.Valid := by
  cases e with
  | up id addr | down id addr =>
    exact ⟨Nat.two_pow_pos _, connMessage_ne_nil h.id_lt (by decide),
      MultiplexServer.length_connMessage_le _ _⟩
  | data id payload =>
    obtain ⟨hne, hlen⟩ := h.data id payload rfl
    exact ⟨h.id_lt, hne, hlen⟩

end Event

end Multiplexer

namespace DemuxServer

open Multiplexer Demux

variable {d : DemuxServer} {e : Event} {entry : Entry} {id : Nat}

/-- How `DemuxServer` can stop: an id is announced that it still knows, or memory is
used up. -/
def Stops (f : Fault) : Prop := f = .assertion .upNotFound ∨ f = .buffer .lengthError

structure EntryInv (entry : Entry) : Prop where
  pending : entry.pending.WF
  flushed : entry.state ≠ .connecting → entry.pending.content = []
  input : entry.inputBuffer.Roomy
  read : entry.inputBuffer.content = []

structure Inv (d : DemuxServer) : Prop where
  entries : ∀ i entry, d.socksConns i = some entry → EntryInv entry
  range : ∀ i, (d.socksConns i).isSome → ∃ id : Nat, i = id ∧ 0 < id ∧ id < 2 ^ 16
  serverInput : d.serverInput.WF

/-- The ids that have an entry. -/
def known (d : DemuxServer) : Set Nat := {id | (d.socksConns id).isSome}

theorem entryInv_newEntry : EntryInv newEntry where
  pending := Buffer.wf_newBuffer
  flushed h := absurd rfl h
  input := Buffer.roomy_newBuffer
  read := Buffer.content_newBuffer

theorem inv_create : Inv create := ⟨nofun, nofun, Buffer.wf_newBuffer⟩

theorem Inv.setEntry (h : Inv d) (hpos : 0 < id) (hlt : id < 2 ^ 16) {entry : Option Entry}
    (hentry : ∀ k ∈ entry, EntryInv k) : Inv (d.setEntry id entry) where
  entries i k hk := by
    by_cases hi : i = id
    · subst hi
      simp only [DemuxServer.setEntry, update_self] at hk
      exact hentry k hk
    · simp only [DemuxServer.setEntry, update_of_ne hi] at hk
      exact h.entries i k hk
  range i hsome := by
    by_cases hi : i = id
    · exact ⟨id, hi, hpos, hlt⟩
    · simp only [DemuxServer.setEntry, update_of_ne hi] at hsome
      exact h.range i hsome
  serverInput := h.serverInput

theorem subset_known_setEntry (entry : Option Entry) : d.known \ {id} ⊆ (d.setEntry id entry).known := by
  intro i hi
  have hne : (i : Int) ≠ id := fun heq => hi.2 (Int.ofNat_inj.mp heq)
  simp only [known, DemuxServer.setEntry, Set.mem_ofPred_eq, update_of_ne hne]
  exact hi.1

theorem known_setEntry_some (entry : Entry) : insert id d.known ⊆ (d.setEntry id (some entry)).known := by
  intro i hi
  by_cases heq : i = id
  · subst heq
    simp [known, DemuxServer.setEntry]
  · exact subset_known_setEntry _ ⟨Set.mem_of_mem_insert_of_ne hi heq, heq⟩

theorem find_of_known (h : id ∈ d.known) (site : Assert) :
    ∃ entry, d.socksConns id = some entry ∧ d.find id site = .ok entry := by
  obtain ⟨entry, hentry⟩ := Option.isSome_iff_exists.mp h
  exact ⟨entry, hentry, by rw [find, hentry]⟩

/-! ## one packet -/

/-- `onPacket` before the packet is recorded. -/
structure Handled (d : DemuxServer) (e : Event) (d' : DemuxServer) : Prop where
  inv : Inv d'
  known : e.talk.after d.known ⊆ d'.known
  rest : d' = { d with socksConns := d'.socksConns }

theorem Inv.commandUp (h : Inv d) (he : (Event.up id addr).Valid) :
    Outcome (Handled d (.up id addr)) Stops (d.commandUp id) := by
  refine Outcome.bind (outcome_check fun _ => .inl rfl) fun _ _ => .ok ⟨?_, ?_, rfl⟩
  · exact h.setEntry he.pos he.id_lt (by rintro _ ⟨rfl⟩; exact entryInv_newEntry)
  · exact known_setEntry_some _

theorem Inv.commandDown (h : Inv d) (he : (Event.down id addr).Valid)
    (hknown : id ∈ d.known) : Outcome (Handled d (.down id addr)) Stops (d.commandDown id) := by
  obtain ⟨entry, -, hfind⟩ := find_of_known hknown .downFound
  rw [DemuxServer.commandDown, hfind, ok_bind]
  refine .ok ?_
  split
  · exact ⟨h.setEntry he.pos he.id_lt nofun, subset_known_setEntry _, rfl⟩
  · exact ⟨h, Set.sdiff_subset, rfl⟩

theorem Inv.onData (h : Inv d) {payload : List UInt8} (he : (Event.data id payload).Valid)
    (hknown : id ∈ d.known) : Outcome (Handled d (.data id payload)) Stops (d.onData id payload) := by
  obtain ⟨entry, hentry, hfind⟩ := find_of_known hknown .packetFound
  have hinv := h.entries id entry hentry
  have hlen := (he.data id payload rfl).2
  have hset : ∀ {entry'}, EntryInv entry' →
      Handled d (.data id payload) (d.setEntry id (some entry')) := fun hentry' =>
    ⟨h.setEntry he.pos he.id_lt (by rintro _ ⟨rfl⟩; exact hentry'),
      fun _ hi => known_setEntry_some _ (Set.mem_insert_of_mem _ hi), rfl⟩
  rw [DemuxServer.onData, hfind, ok_bind]
  split
  · next hst =>
      refine Outcome.bind (Buffer.outcome_append_mapError hinv.pending
        (Nat.le_trans hlen (by decide)) fun _ => .inr rfl) fun pending hpending => .ok (hset ?_)
      exact ⟨hpending.1, fun hne => absurd hst hne, hinv.input, hinv.read⟩
  · next hst =>
      have hempty : entry.pending.readableBytes = 0 := by
        rw [hinv.pending.readableBytes_eq_length, hinv.flushed hst]
        rfl
      exact Outcome.check_bind hempty (.ok (hset ⟨hinv.pending, hinv.flushed, hinv.input, hinv.read⟩))

/-- **One packet**: what the multiplexer says is understood. -/
theorem Inv.onPacket (h : Inv d) (he : e.Valid) (hfits : e.talk.Fits d.known) :
    Outcome (fun d' => Inv d' ∧ e.talk.after d.known ⊆ d'.known ∧
        d' = { d with socksConns := d'.socksConns, extracted := d.extracted ++ [e.packet] })
      Stops (d.onPacket e.packet) := by
  have hhandled : Outcome (Handled d e) Stops
      (if e.packet.id ≠ 0 then d.onData e.packet.id e.packet.payload
        else d.doCommand e.packet.payload) := by
    cases e with
    | up id addr =>
      have hlt : id < 2 ^ 16 := he.id_lt
      have hcommand := h.commandUp he
      rw [← doCommand_up addr hlt] at hcommand
      exact hcommand
    | down id addr =>
      have hlt : id < 2 ^ 16 := he.id_lt
      have hcommand := h.commandDown he hfits
      rw [← doCommand_down addr hlt] at hcommand
      exact hcommand
    | data id payload =>
      have hne : (Event.data id payload).packet.id ≠ 0 := Nat.ne_of_gt he.pos
      rw [if_pos hne]
      exact h.onData he hfits
  unfold DemuxServer.onPacket
  refine Outcome.bind hhandled fun d' hd' => ?_
  refine .ok ⟨⟨hd'.inv.entries, hd'.inv.range, hd'.inv.serverInput⟩, hd'.known, ?_⟩
  rw [hd'.rest]

/-- The bytes that are read and those that are still to come are the packets of `es`,
which `d` can understand. -/
structure Reading (d : DemuxServer) (wire : List UInt8) (es : List Event) : Prop where
  inv : Inv d
  valid : ∀ e ∈ es, e.Valid
  fit : Fit d.known (es.map Event.talk)
  bytes : d.serverInput.content ++ wire = es.flatMap fun e => e.packet.encode

/-- From `d` the events `es` have come to `d'`, where `rest` is left of them. -/
structure Took (d : DemuxServer) (wire : List UInt8) (es : List Event) (d' : DemuxServer)
    (rest : List Event) : Prop where
  reading : Reading d' wire rest
  known : opened d.known (es.map Event.talk) ⊆ opened d'.known (rest.map Event.talk)
  extracted : d'.extracted ++ rest.map Event.packet = d.extracted ++ es.map Event.packet
  sent : d'.sent = d.sent
  received : d'.received = d.received

variable {wire : List UInt8} {es rest : List Event} {d' : DemuxServer}

theorem Reading.took (h : Reading d wire es) : Took d wire es d es :=
  ⟨h, Set.Subset.rfl, rfl, rfl, rfl⟩

theorem Took.trans (h : Took d wire es d' rest) {d'' : DemuxServer} {rest' : List Event}
    (h' : Took d' wire rest d'' rest') : Took d wire es d'' rest' where
  reading := h'.reading
  known := h.known.trans h'.known
  extracted := h'.extracted.trans h.extracted
  sent := h'.sent.trans h.sent
  received := h'.received.trans h.received

/-- **A round of `onServerMessage`** takes out the first packet. -/
theorem Reading.takePacket (h : Reading d wire es) {p : Packet}
    (hp : readPacket d.serverInput.content = some p) :
    Outcome (fun d' => (∃ rest, Took d wire es d' rest) ∧
        d'.serverInput.content.length < d.serverInput.content.length)
      Stops (d.takePacket p) := by
  have hlen := (length_of_readPacket hp).1
  have hbytes := h.bytes
  cases es with
  | nil =>
    rw [flatMap_nil, append_eq_nil_iff] at hbytes
    rw [hbytes.1] at hlen
    cases hlen
  | cons e rest =>
    rw [flatMap_cons] at hbytes
    obtain ⟨rfl, hrest⟩ := readPacket_eq_some (h.valid e mem_cons_self).packet hbytes hp
    unfold DemuxServer.takePacket
    refine Outcome.bind (h.inv.onPacket (h.valid e mem_cons_self) h.fit.1) fun d' hd' => ?_
    obtain ⟨hinv, hknown, heq⟩ := hd'
    have hinput : d'.serverInput = d.serverInput := by rw [heq]
    obtain ⟨buf', hret, hwf, hcontent⟩ := retrievePacket_spec h.inv.serverInput hp
    rw [hinput, hret, ok_bind]
    have hvalid : ∀ e ∈ rest, e.Valid := fun e he => h.valid e (mem_cons_of_mem _ he)
    refine .ok ⟨⟨rest, ⟨⟨hinv.entries, hinv.range, hwf⟩, hvalid, h.fit.2.mono hknown, ?_⟩,
      opened_mono hknown, ?_, ?_, ?_⟩, ?_⟩
    · rw [hcontent, hrest]
    · rw [heq, map_cons, append_assoc]
      rfl
    · rw [heq]
    · rw [heq]
    · simp only [hcontent, length_drop]
      unfold kHeaderLen at hlen ⊢
      omega

/-- **`onServerMessage`** takes out the complete packets, in order, and ends. -/
theorem Reading.onServerMessage {fuel : Nat} (h : Reading d wire es)
    (hfuel : d.serverInput.content.length < fuel) :
    Outcome (fun d' => ∃ rest, Took d wire es d' rest) Stops (onServerMessage fuel d) := by
  induction fuel generalizing d es with
  | zero => omega
  | succ fuel ih =>
    rw [DemuxServer.onServerMessage, nextPacket_eq h.inv.serverInput, ok_bind]
    cases hp : readPacket d.serverInput.content with
    | none => exact .ok ⟨es, h.took⟩
    | some p =>
      refine Outcome.bind (h.takePacket hp) fun d' hd' => ?_
      obtain ⟨⟨rest, htook⟩, hlt⟩ := hd'
      refine (ih htook.reading (by omega)).mono (fun d'' hd'' => ?_) fun _ he => he
      obtain ⟨rest', htook'⟩ := hd''
      exact ⟨rest', htook.trans htook'⟩

theorem Reading.readServer {data : List UInt8} (h : Reading d (data ++ wire) es)
    (hread : data.length ≤ d.serverInput.offered) :
    Outcome (fun d' => ∃ rest, Took d wire es d' rest) Stops (d.readServer data) := by
  unfold DemuxServer.readServer
  refine Outcome.bind ((Buffer.outcome_readFd h.inv.serverInput hread).mapError
    fun e he => .inr (congrArg _ he)) fun r hr => ?_
  obtain ⟨hwf, hcontent, -⟩ := hr
  have hreading : Reading { d with serverInput := r.1 } wire es := by
    refine ⟨⟨h.inv.entries, h.inv.range, hwf⟩, h.valid, h.fit, ?_⟩
    rw [hcontent, append_assoc, h.bytes]
  refine (hreading.onServerMessage ?_).mono (fun d' hd' => ?_) fun _ he => he
  · rw [hwf.readableBytes_eq_length]
    exact Nat.lt_succ_self _
  · obtain ⟨rest, htook⟩ := hd'
    exact ⟨rest, htook.reading, htook.known, htook.extracted, htook.sent, htook.received⟩

/-! ## the way back -/

/-- **The loop of `onSocksMessage`** sends the bytes of the buffer in packets. -/
theorem sendLoop_spec (id : Nat) {fuel : Nat} {buf : Buffer} {sent : List (List UInt8)} (h : buf.Roomy)
    (hfuel : buf.content.length < fuel) : ∃ ps : List Packet, ∃ buf' : Buffer,
      sendLoop id fuel sent buf = .ok (sent ++ ps.map Packet.encode, buf') ∧
      buf'.Roomy ∧ buf'.content = [] ∧ ps.flatMap Packet.payload = buf.content ∧
      ∀ p ∈ ps, p.id = id ∧ p.payload ≠ [] ∧ p.payload.length ≤ kMaxPacketLen := by
  induction fuel generalizing buf sent with
  | zero => omega
  | succ fuel ih =>
    obtain ⟨buf₁, hround, hroomy, hcontent⟩ := sendRound_spec id h
    rw [sendLoop, hround, ok_bind]
    by_cases hlong : kMaxPacketLen < buf.content.length
    · have hlt : buf₁.content.length < fuel := by
        rw [hcontent, length_drop]
        unfold kMaxPacketLen at hlong ⊢
        omega
      have hne : buf.content ≠ [] := ne_nil_of_length_pos (by omega)
      obtain ⟨ps, buf', hloop, hroomy', hempty, hflat, hps⟩ :=
        @ih buf₁ (sent ++ [Packet.encode ⟨id, buf.content.take kMaxPacketLen⟩]) hroomy hlt
      refine ⟨⟨id, buf.content.take kMaxPacketLen⟩ :: ps, buf', ?_, hroomy', hempty, ?_, ?_⟩
      · simp only [hlong, decide_true, if_true, hne, if_false, Option.toList_some, hloop,
          map_cons, append_assoc, singleton_append]
      · rw [flatMap_cons, hflat, hcontent, take_append_drop]
      · intro p hp
        obtain rfl | hp := mem_cons.mp hp
        · refine ⟨rfl, fun hnil => ?_, length_take_le _ _⟩
          exact hne ((take_eq_nil_iff.mp hnil).resolve_left (by decide))
        · exact hps p hp
    · have hempty : buf₁.content = [] := hcontent.trans (drop_eq_nil_of_le (by omega))
      have htake : buf.content.take kMaxPacketLen = buf.content :=
        take_of_length_le (by omega)
      simp only [hlong, decide_false, htake]
      by_cases hne : buf.content = []
      · exact ⟨[], buf₁, by simp [hne, pure, Except.pure], hroomy, hempty, hne.symm, nofun⟩
      · refine ⟨[⟨id, buf.content⟩], buf₁, by simp [hne, pure, Except.pure], hroomy, hempty,
          by simp, ?_⟩
        intro p hp
        rw [mem_singleton.mp hp]
        exact ⟨rfl, hne, Nat.le_of_not_lt hlong⟩

end DemuxServer

end Muduo
