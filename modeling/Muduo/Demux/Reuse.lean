import Muduo.Demux.Link

/-!
# Muduo.Demux.Reuse

The entries of `DemuxServer` when ids are used again.

The multiplexer announces an id and takes it back in turns, and sends data for it in
between.  `DemuxServer` erases an entry only if the id is taken back before the socks
connection has been made; otherwise the entry stays, and the next announcement of the id
fails an assertion.
-/

namespace Muduo

open Lib Multiplexer Function

/-- A `DemuxServer` and what it has been told.  `late id` says that the socks connection
had been made when the id was taken back the last time. -/
structure Reuse where
  demux : DemuxServer
  up : Nat → Bool
  late : Nat → Bool

namespace Reuse

open Demux

def create : Reuse := ⟨.create, fun _ => false, fun _ => false⟩

/-- A packet of the multiplexer, or an event of a socks connection. -/
inductive Label
  | packet (e : Event)
  | socks (l : DemuxServer.Label)

/-- The state of the socks connection of an id that has an entry. -/
def socksState (d : DemuxServer) (id : Nat) : Option SocksState :=
  (d.socksConns id).map Entry.state

/-- What the server has been told, with one packet more. -/
def hear (s : Reuse) : Event → Reuse
  | .up id _ => { s with
      up := update s.up id true, late := update s.late id false }
  | .down id _ => { s with
      up := update s.up id false
      late := update s.late id (socksState s.demux id ≠ some .connecting) }
  | .data _ _ => s

def step (s : Reuse) : Label → Except Fault Reuse
  | .packet e => do
    let d ← s.demux.onPacket e.packet
    return { s.hear e with demux := d }
  | .socks l =>
    if Link.ofSocks l then do
      let d ← s.demux.step l
      return { s with demux := d }
    else .ok s

/-- The multiplexer announces an id and takes it back in turns, and sends data in
between. -/
def Alternates (s : Reuse) : Label → Prop
  | .packet e => e.Valid ∧ match e with
    | .up id _ => s.up id = false
    | .down id _ | .data id _ => s.up id = true
  | .socks _ => True

/-- No connection that is established when its id is taken back has closed, closes, or has
its id announced again. -/
def Kept (s : Reuse) : Label → Prop
  | .packet (.up id _) => s.late id = false
  | .packet (.down id _) => socksState s.demux id ≠ some .disconnected
  | .packet (.data _ _) => True
  | .socks (.socksDown id) => s.late id = false
  | .socks _ => True

/-- An id that is up has an entry, and one that is down has none once its socks connection
has closed. -/
structure Exact (s : Reuse) : Prop where
  up : ∀ id, s.up id = true → (s.demux.socksConns id).isSome
  down : ∀ id, s.up id = false → socksState s.demux id ≠ some .disconnected

/-! ## the states of the socks connections -/

section
variable {d : DemuxServer} {id : Nat}

theorem socksState_setEntry (entry : Option Entry) :
    socksState (d.setEntry id entry) = update (socksState d) id (entry.map Entry.state) := by
  funext i
  by_cases hi : i = id
  · simp [socksState, DemuxServer.setEntry, hi]
  · simp [socksState, DemuxServer.setEntry, hi]

/-- The connection changes from one state to the other. -/
def change (st : Nat → Option SocksState) (id : Nat) (old : SocksState) (new : Option SocksState) :
    Nat → Option SocksState :=
  if st id = some old then update st id new else st

variable {st : Nat → Option SocksState}

theorem change_of_ne {i : Nat} (hi : i ≠ id) (old : SocksState)
    (new : Option SocksState) : change st id old new i = st i := by
  rw [change]
  split
  · rw [update_of_ne hi]
  · rfl

theorem change_of_state_ne {old : SocksState} (h : st id ≠ some old)
    (new : Option SocksState) : change st id old new = st := if_neg h

/-- The states after a step that does not fail. -/
def after (st : Nat → Option SocksState) : Label → Nat → Option SocksState
  | .packet (.up id _) => update st id (some .connecting)
  | .packet (.down id _) => change st id .connecting none
  | .packet (.data _ _) => st
  | .socks (.socksUp id) => change st id .connecting (some .connected)
  | .socks (.socksDown id) => change st id .connected (some .disconnected)
  | .socks (.server _) | .socks (.socks _ _) => st

theorem outcome_find {β : Type} {f : Entry → Except Fault β} {P : β → Prop} {E : Fault → Prop}
    {site : Assert} (hsite : E (.assertion site))
    (hf : ∀ entry, d.socksConns id = some entry → Outcome P E (f entry)) :
    Outcome P E (d.find id site >>= f) := by
  rw [DemuxServer.find]
  cases hentry : d.socksConns id with
  | none => exact .error hsite
  | some entry => exact hf entry hentry

theorem socksState_setEntry_self {entry entry' : Entry} (hentry : d.socksConns id = some entry)
    (hstate : entry'.state = entry.state) :
    socksState (d.setEntry id (some entry')) = socksState d := by
  rw [socksState_setEntry, Option.map_some, hstate]
  refine update_eq_self_iff.mpr ?_
  rw [socksState, hentry, Option.map_some]

theorem change_eq {entry : Entry} (hentry : d.socksConns id = some entry) (old : SocksState)
    (new : Option SocksState) : change (socksState d) id old new =
      if entry.state = old then update (socksState d) id new else socksState d := by
  have hstate : socksState d id = some entry.state := by rw [socksState, hentry, Option.map_some]
  simp only [change, hstate, Option.some_inj]

theorem change_of_none (hentry : d.socksConns id = none) (old : SocksState)
    (new : Option SocksState) : change (socksState d) id old new = socksState d := by
  simp [change, socksState, hentry]

/-- The only failures of this kind. -/
def Again (st : Nat → Option SocksState) (e : Event) (f : Fault) : Prop :=
  f = .assertion .upNotFound → ∃ id addr, e = .up id addr ∧ st id ≠ none

theorem onPacket_state {e : Event} (he : e.Valid) (d : DemuxServer) :
    Outcome (fun d' => socksState d' = after (socksState d) (.packet e) ∧
        ∀ id addr, e = .up id addr → socksState d id = none)
      (Again (socksState d) e) (d.onPacket e.packet) := by
  unfold DemuxServer.onPacket
  refine Outcome.bind (P := fun d' => socksState d' = after (socksState d) (.packet e) ∧
    ∀ id addr, e = .up id addr → socksState d id = none) ?_ fun d' hd' => .ok hd'
  cases e with
  | up id addr =>
    have hcommand : d.doCommand (Event.up id addr).packet.payload = d.commandUp id :=
      DemuxServer.doCommand_up addr he.id_lt
    have hfail : ¬ (d.socksConns id).isNone → Again (socksState d) (.up id addr)
        (.assertion .upNotFound) := fun hsome _ => ⟨id, addr, rfl, by simpa [socksState] using hsome⟩
    rw [if_neg (by simp [Event.packet]), hcommand, DemuxServer.commandUp]
    refine (outcome_check hfail).bind fun _ hnone => .ok ⟨?_, ?_⟩
    · rw [socksState_setEntry]
      rfl
    · rintro _ _ ⟨rfl, rfl⟩
      simpa [socksState] using hnone
  | down id addr =>
    have hcommand : d.doCommand (Event.down id addr).packet.payload = d.commandDown id :=
      DemuxServer.doCommand_down addr he.id_lt
    rw [if_neg (by simp [Event.packet]), hcommand, DemuxServer.commandDown]
    refine outcome_find (by simp [Again]) fun entry hentry => .ok ⟨?_, by simp⟩
    rw [after, change_eq hentry]
    split
    · rw [socksState_setEntry]
      rfl
    · rfl
  | data id payload =>
    have hne : (Event.data id payload).packet.id ≠ 0 := Nat.ne_of_gt he.pos
    rw [if_pos hne]
    refine outcome_find (by simp [Again]) fun entry hentry => ?_
    dsimp only
    split
    · have hbuffer : Outcome (fun _ => True) (Again (socksState d) (.data id payload))
          ((entry.pending.append payload).mapError Fault.buffer) := by
        cases entry.pending.append payload with
        | ok => exact .ok trivial
        | error => exact .error (by simp [Again])
      exact hbuffer.bind fun _ _ => .ok ⟨socksState_setEntry_self hentry rfl, by simp⟩
    · exact (outcome_check fun _ => by simp [Again]).bind fun _ _ =>
        .ok ⟨socksState_setEntry_self hentry rfl, by simp⟩

theorem outcome_true {ε β : Type} (x : Except ε β) : Outcome (fun _ => True) (fun _ => True) x := by
  cases x with
  | ok => exact .ok trivial
  | error => exact .error trivial

theorem socks_state {l : DemuxServer.Label} (hl : Link.ofSocks l) (d : DemuxServer) :
    Outcome (fun d' => socksState d' = after (socksState d) (.socks l)) (fun _ => True)
      (d.step l) := by
  cases l with
  | server data => cases hl
  | socksUp id =>
    rw [DemuxServer.step, after]
    split
    next entry hentry =>
      rw [change_eq hentry]
      split
      next =>
        refine outcome_find trivial fun entry' _ => ?_
        dsimp only
        split
        · exact (outcome_true _).bind fun _ _ => .ok (socksState_setEntry _)
        · exact .ok (socksState_setEntry _)
      next => exact .ok rfl
    next hentry =>
      rw [change_of_none hentry]
      exact .ok rfl
  | socksDown id =>
    rw [DemuxServer.step, after]
    split
    next entry hentry =>
      rw [change_eq hentry]
      split
      next =>
        refine outcome_find trivial fun entry' _ => ?_
        exact (outcome_true _).bind fun _ _ => .ok (socksState_setEntry _)
      next => exact .ok rfl
    next hentry =>
      rw [change_of_none hentry]
      exact .ok rfl
  | socks id data =>
    rw [DemuxServer.step, after]
    split
    next entry hentry =>
      split
      next =>
        refine (outcome_true _).bind fun _ _ => outcome_find trivial fun entry' hentry' => ?_
        exact (outcome_true _).bind fun _ _ => .ok (socksState_setEntry_self hentry' rfl)
      next => exact .ok rfl
    next => exact .ok rfl

end

/-! ## one step -/

section
variable {s s' : Reuse} {l : Label}

def told (s : Reuse) : Label → Reuse
  | .packet e => s.hear e
  | .socks _ => s

structure Sound (s : Reuse) : Prop where
  inv : s.demux.Inv
  known : ∀ id, s.up id = true → socksState s.demux id ≠ none

/-- What a step does to the ids and the socks connections. -/
structure Stepped (s : Reuse) (l : Label) (s' : Reuse) : Prop where
  inv : s'.demux.Inv
  up : s'.up = (s.told l).up
  late : s'.late = (s.told l).late
  states : socksState s'.demux = after (socksState s.demux) l
  fresh : ∀ id addr, l = .packet (.up id addr) → socksState s.demux id = none

/-- How a step can fail. -/
def Fails (s : Reuse) (l : Label) (f : Fault) : Prop :=
  f = .buffer .lengthError ∨ (f = .assertion .upNotFound ∧
    ∃ id addr, l = .packet (.up id addr) ∧ socksState s.demux id ≠ none)

theorem isSome_of_socksState {d : DemuxServer} {id : Nat} (h : socksState d id ≠ none) :
    (d.socksConns id).isSome := by
  rw [socksState, ne_eq, Option.map_eq_none_iff] at h
  exact Option.isSome_iff_ne_none.mpr h

theorem Sound.step (h : Sound s) (hl : s.Alternates l) :
    Outcome (Stepped s l) (Fails s l) (s.step l) := by
  cases l with
  | packet e =>
    have hfits : e.talk.Fits s.demux.known := by
      cases e with
      | up => trivial
      | down id | data id => exact isSome_of_socksState (h.known id hl.2)
    rw [Reuse.step]
    refine Outcome.bind (((h.inv.onPacket hl.1 hfits).and (onPacket_state hl.1 s.demux)).mono
      (fun _ hd => hd) ?_) ?_
    · rintro f ⟨hstops, hagain⟩
      obtain rfl | rfl := hstops
      · obtain ⟨id, addr, rfl, hne⟩ := hagain rfl
        exact .inr ⟨rfl, id, addr, rfl, hne⟩
      · exact .inl rfl
    · rintro d ⟨⟨hinv, -, -⟩, hstates, hfresh⟩
      refine .ok ⟨hinv, rfl, rfl, hstates, ?_⟩
      rintro id addr ⟨rfl⟩
      exact hfresh id addr rfl
  | socks l =>
    rw [Reuse.step]
    split
    next hsocks =>
      refine Outcome.bind (((Link.socks_step h.inv hsocks).and (socks_state hsocks s.demux)).mono
        (fun _ hd => hd) fun f hf => .inl hf.1) ?_
      rintro d ⟨⟨ps, calls, hanswers⟩, hstates⟩
      exact .ok ⟨hanswers.inv, rfl, rfl, hstates, nofun⟩
    next hsocks =>
      cases l with
      | server => exact .ok ⟨h.inv, rfl, rfl, rfl, nofun⟩
      | socksUp | socksDown | socks => exact absurd rfl hsocks

/-- The id that a step is about. -/
def Label.id : Label → Option Nat
  | .packet e => some e.id
  | .socks (.socksUp id) | .socks (.socksDown id) | .socks (.socks id _) => some id
  | .socks (.server _) => none

/-- What is known of an id. -/
abbrev At (P : Bool → Bool → Option SocksState → Prop) (s : Reuse) (id : Nat) : Prop :=
  P (s.up id) (s.late id) (socksState s.demux id)

theorem Stepped.other {P : Bool → Bool → Option SocksState → Prop} (h : Stepped s l s') {id : Nat}
    (hid : l.id ≠ some id) (hP : At P s id) : At P s' id := by
  unfold At
  rw [h.up, h.late, h.states]
  match l with
  | .packet (.up id' addr) | .packet (.down id' addr) =>
    have hne : id ≠ id' := fun heq => hid (congrArg some heq.symm)
    simpa [told, hear, after, change_of_ne, hne] using hP
  | .packet (.data _ _) | .socks (.server _) | .socks (.socks _ _) => exact hP
  | .socks (.socksUp id') | .socks (.socksDown id') =>
    have hne : id ≠ id' := fun heq => hid (congrArg some heq.symm)
    simpa [told, hear, after, change_of_ne, hne] using hP

theorem Stepped.sound (h : Stepped s l s') (hs : Sound s) : Sound s' := by
  refine ⟨h.inv, fun id => ?_⟩
  have hknown := hs.known id
  by_cases hid : l.id = some id
  · rw [h.up, h.states]
    match l, hid with
    | .packet (.up _ addr), rfl => simp [after, Event.id]
    | .packet (.down _ addr), rfl => simp [told, hear, Event.id]
    | .packet (.data _ _), rfl => exact hknown
    | .socks (.socks _ _), rfl => exact hknown
    | .socks (.socksUp id), rfl =>
      intro hup
      rw [after, change]
      split
      · simp
      · exact hknown hup
    | .socks (.socksDown id), rfl =>
      intro hup
      rw [after, change]
      split
      · simp
      · exact hknown hup
  · exact h.other (P := fun up _ st => up = true → st ≠ none) hid hknown

/-- What is known of an id as long as every step is `Kept`. -/
structure GoodAt (up late : Bool) (st : Option SocksState) : Prop where
  early : up = true → late = false
  erased : up = false → late = false → st = none
  connected : late = true → st = some .connected

structure Good (s : Reuse) : Prop extends Sound s where
  good : ∀ id, At GoodAt s id

/-- An id is down, its socks connection has closed, and the entry is still there. -/
structure Lost (s : Reuse) : Prop extends Sound s where
  entry : ∃ id, s.up id = false ∧ socksState s.demux id = some .disconnected

theorem Good.exact (h : Good s) : Exact s where
  up id hup := isSome_of_socksState (h.known id hup)
  down id hdown := by
    cases hlate : s.late id with
    | false => simp [(h.good id).erased hdown hlate]
    | true => simp [(h.good id).connected hlate]

theorem Lost.not_exact (h : Lost s) : ¬ Exact s := by
  obtain ⟨id, hdown, hstate⟩ := h.entry
  exact fun hexact => hexact.down id hdown hstate

theorem Stepped.good (h : Stepped s l s') (hs : Good s) (hl : s.Alternates l) (hkept : s.Kept l) :
    Good s' := by
  refine ⟨h.sound hs.toSound, fun id => ?_⟩
  have hgood := hs.good id
  by_cases hid : l.id = some id
  · unfold At at hgood ⊢
    rw [h.up, h.late, h.states]
    cases l with
    | packet e =>
      cases e with
      | data => exact hgood
      | up id' addr =>
        obtain rfl := Option.some.inj hid
        simp only [told, hear, after, Event.id, update_self]
        exact ⟨fun _ => rfl, by simp, by simp⟩
      | down id' addr =>
        obtain rfl := Option.some.inj hid
        have hup : s.up id' = true := hl.2
        have hknown := hs.known id' hup
        have hopen : socksState s.demux id' ≠ some .disconnected := hkept
        simp only [told, hear, after, Event.id, update_self]
        by_cases hstate : socksState s.demux id' = some .connecting
        · rw [change, if_pos hstate, update_self]
          simp only [hstate, ne_eq, not_true_eq_false, decide_false]
          exact ⟨by simp, fun _ _ => rfl, by simp⟩
        · rw [change_of_state_ne hstate]
          simp only [hstate, ne_eq, not_false_eq_true, decide_true]
          refine ⟨by simp, by simp, fun _ => ?_⟩
          cases hst : socksState s.demux id' with
          | none => exact absurd hst hknown
          | some st => cases st <;> simp_all
    | socks e =>
      cases e with
      | server => cases hid
      | socks => exact hgood
      | socksUp id' =>
        obtain rfl := Option.some.inj hid
        rw [after, change]
        split
        next hstate =>
          rw [update_self]
          refine ⟨hgood.early, fun hup hlate => ?_, fun _ => rfl⟩
          cases hstate.symm.trans (hgood.erased hup hlate)
        next => exact hgood
      | socksDown id' =>
        obtain rfl := Option.some.inj hid
        have hlate : s.late id' = false := hkept
        rw [after, change]
        split
        next hstate =>
          rw [update_self]
          refine ⟨hgood.early, fun hup hlate => ?_, fun h => by cases hlate.symm.trans h⟩
          cases hstate.symm.trans (hgood.erased hup hlate)
        next => exact hgood
  · exact h.other hid hgood

theorem Stepped.lost (h : Stepped s l s') (hs : Lost s) (hl : s.Alternates l) : Lost s' := by
  obtain ⟨id, hdown, hstate⟩ := hs.entry
  refine ⟨h.sound hs.toSound, id, ?_⟩
  by_cases hid : l.id = some id
  · rw [h.up, h.states]
    match l, hid with
    | .packet (.up id addr), rfl => exact nomatch hstate.symm.trans (h.fresh id addr rfl)
    | .packet (.down id addr), rfl => exact nomatch hdown.symm.trans hl.2
    | .packet (.data id _), rfl => exact nomatch hdown.symm.trans hl.2
    | .socks (.socks _ _), rfl => exact ⟨hdown, hstate⟩
    | .socks (.socksUp id), rfl =>
      rw [after, change_of_state_ne (by simp [hstate])]
      exact ⟨hdown, hstate⟩
    | .socks (.socksDown id), rfl =>
      rw [after, change_of_state_ne (by simp [hstate])]
      exact ⟨hdown, hstate⟩
  · exact h.other (P := fun up _ st => up = false ∧ st = some .disconnected) hid ⟨hdown, hstate⟩

/-- A step that is not `Kept` fails, or leaves an entry behind. -/
theorem Stepped.lost_of_not_kept (h : Stepped s l s') (hs : Good s) (hl : s.Alternates l)
    (hkept : ¬ s.Kept l) : Lost s' := by
  match l with
  | .packet (.data _ _) | .socks (.server _) | .socks (.socks _ _) | .socks (.socksUp _) =>
    exact absurd trivial hkept
  | .packet (.up id addr) =>
    have hlate : s.late id = true := by simpa [Kept] using hkept
    exact nomatch ((hs.good id).connected hlate).symm.trans (h.fresh id addr rfl)
  | .packet (.down id addr) =>
    have hstate : socksState s.demux id = some .disconnected := by simpa [Kept] using hkept
    refine ⟨h.sound hs.toSound, id, ?_, ?_⟩
    · rw [h.up]
      simp [told, hear]
    · rw [h.states, after, change_of_state_ne (by simp [hstate])]
      exact hstate
  | .socks (.socksDown id) =>
    have hlate : s.late id = true := by simpa [Kept] using hkept
    have hgood := hs.good id
    refine ⟨h.sound hs.toSound, id, ?_, ?_⟩
    · rw [h.up]
      cases hup : s.up id with
      | false => exact hup
      | true => exact nomatch hlate.symm.trans (hgood.early hup)
    · rw [h.states, after, change, if_pos (hgood.connected hlate), update_self]

theorem good_create : Good create :=
  ⟨⟨DemuxServer.inv_create, nofun⟩, fun _ => ⟨fun _ => rfl, fun _ _ => rfl, nofun⟩⟩

theorem Fails.stops {f : Fault} (h : Fails s l f) : DemuxServer.Stops f :=
  h.elim .inr fun h => .inl h.1

theorem Good.step (h : Good s) (hl : s.Alternates l) (hkept : s.Kept l) :
    Outcome Good (fun f => f = .buffer .lengthError) (s.step l) := by
  refine (h.toSound.step hl).mono (fun _ hstepped => hstepped.good h hl hkept) fun f hf => ?_
  obtain hf | ⟨-, id, addr, rfl, hne⟩ := hf
  · exact hf
  · exact absurd ((h.good id).erased hl.2 hkept) hne

/-- **When the entries are those of the ids that are up.**  Otherwise an entry is left
behind, or the announcement of an id that has one fails the assertion. -/
theorem entries_exact {ls : List Label} (h : Meets step Alternates create ls) :
    (Meets step Kept create ls →
      Outcome Exact (fun f => f = .buffer .lengthError) (run step create ls)) ∧
    (¬ Meets step Kept create ls →
      Outcome (fun s => ¬ Exact s) DemuxServer.Stops (run step create ls)) := by
  have hdecides := Outcome.run_decides (fun s l hs hl hkept => Good.step hs hl hkept)
    (fun s l hs hl hkept => (hs.toSound.step hl).mono
      (fun _ hstepped => hstepped.lost_of_not_kept hs hl hkept) fun _ => Fails.stops)
    (fun s l (hs : Lost s) hl => (hs.toSound.step hl).mono
      (fun _ hstepped => hstepped.lost hs hl) fun _ => Fails.stops)
    (fun _ => .inr) good_create h
  exact ⟨fun hkept => (hdecides.1 hkept).mono (fun _ hs => hs.exact) fun _ hf => hf,
    fun hkept => (hdecides.2 hkept).mono (fun _ hs => hs.not_exact) fun _ hf => hf⟩

end

def localhost : PeerAddress := ⟨⟨"127.0.0.1".toList, 5000, length_localhost⟩, isInetChar_localhost⟩

instance : (e : Event) → Decidable e.Valid
  | .up id _ | .down id _ => decidable_of_iff (0 < id ∧ id < 2 ^ 16)
      ⟨fun h => ⟨h.1, h.2, nofun⟩, fun h => ⟨h.pos, h.id_lt⟩⟩
  | .data id payload => decidable_of_iff ((0 < id ∧ id < 2 ^ 16) ∧ payload ≠ [] ∧
        payload.length ≤ kMaxPacketLen)
      ⟨fun h => ⟨h.1.1, h.1.2, by rintro _ _ ⟨rfl, rfl⟩; exact h.2⟩,
        fun h => ⟨⟨h.pos, h.id_lt⟩, h.data id payload rfl⟩⟩

instance (s : Reuse) : (l : Label) → Decidable (s.Alternates l)
  | .packet (.up _ _) | .packet (.down _ _) | .packet (.data _ _) =>
    inferInstanceAs (Decidable (_ ∧ _))
  | .socks _ => .isTrue trivial

instance (s : Reuse) : (l : Label) → Decidable (s.Kept l)
  | .packet (.up _ _) | .socks (.socksDown _) => inferInstanceAs (Decidable (_ = _))
  | .packet (.down _ _) => inferInstanceAs (Decidable (_ ≠ _))
  | .packet (.data _ _) | .socks (.server _) | .socks (.socksUp _) | .socks (.socks _ _) =>
    .isTrue trivial

/-- The id is taken back before the socks connection has been made, and used again. -/
def quick : List Label :=
  [.packet (.up 1 localhost), .packet (.data 1 [104, 105]), .packet (.down 1 localhost),
    .packet (.up 1 localhost), .socks (.socksUp 1)]

theorem entries_exact_quick :
    (Meets step Alternates create quick ∧ Meets step Kept create quick) ∧
      Outcome Exact (fun f => f = .buffer .lengthError) (run step create quick) :=
  ⟨by decide +kernel, (entries_exact (by decide +kernel)).1 (by decide +kernel)⟩

/-- The id is taken back from a socks connection that has been made and closes, and used
again. -/
def reused : List Label :=
  [.packet (.up 1 localhost), .socks (.socksUp 1), .packet (.down 1 localhost),
    .socks (.socksDown 1), .packet (.up 1 localhost)]

theorem reused_asserts :
    Meets step Alternates create reused ∧
      (run step create reused).map (fun _ => ()) = .error (.assertion .upNotFound) := by
  decide +kernel

end Reuse

end Muduo
