import Muduo.Memcached.Session.Rounds

/-!
# Muduo.Memcached.Session.Contained

Input of any kind, cut in any way.

Without the condition the session fails on a command line of a few bytes.
-/

namespace Muduo.Memcached.Session

open Lib

variable {hash : Key → Nat} {startTime : Int} {s s' : Session} {buf : List UInt8}
  {rest : Option (List UInt8)}

/-! ## calls and rounds -/

namespace Conn

variable {c : Conn} {initial : Nat}

theorem step_round_idle (hcall : c.calling = none) : c.step hash startTime .round = .ok c := by
  rw [step, hcall]

theorem step_round_nil (hcall : c.calling = some initial) (hinput : c.input = []) :
    c.step hash startTime .round = .ok (c.leave initial) := by
  rw [step, hcall]
  exact if_pos hinput

theorem step_round (hcall : c.calling = some initial) (hinput : c.input ≠ []) :
    c.step hash startTime .round = c.session.round hash startTime c.input >>= fun r => match r with
      | (s, none) => .ok ({ c with session := s }.leave initial)
      | (s, some rest) => .ok { c with session := s, input := rest } := by
  rw [step, hcall]
  exact if_neg hinput

theorem run_idle (hcall : c.calling = none) (n : Nat) :
    run (step hash startTime) c (List.replicate n .round) = .ok c := by
  induction n with
  | zero => rfl
  | succ n ih => rw [List.replicate_succ, run_cons, step_round_idle hcall, ok_bind, ih]

/-- The connection behind the call that has begun with `initial` bytes. -/
def returned (c : Conn) (initial : Nat) (r : Session × List UInt8) : Conn :=
  ⟨r.1, c.bytesRead + (initial - r.2.length), r.2, none⟩

theorem run_rounds {fuel : Nat} (hs : c.session.Ready) (hcall : c.calling = some initial)
    (hfuel : c.input.length < fuel) :
    run (step hash startTime) c (List.replicate fuel .round) =
      (c.session.drain hash startTime c.input).map (c.returned initial) := by
  induction fuel generalizing c with
  | zero => omega
  | succ fuel ih =>
    rw [List.replicate_succ, run_cons, drain_eq hs]
    by_cases hinput : c.input = []
    · rw [step_round_nil hcall hinput, ok_bind, run_idle rfl, if_pos hinput, leave, hinput]
      rfl
    · rw [step_round hcall hinput, if_neg hinput]
      cases hround : c.session.round hash startTime c.input with
      | error e => rfl
      | ok r =>
        obtain ⟨s, rest⟩ := r
        cases rest with
        | none => exact run_idle rfl fuel
        | some rest =>
          have heffect := effect_of_round hs hround
          have hlt := heffect.length_lt hinput
          exact ih (c := { c with session := s, input := rest }) (heffect.ready hs) hcall
            (Nat.lt_of_lt_of_le hlt (Nat.le_of_lt_succ hfuel))

/-- **A call is a run.** `onMessage` makes its rounds one by one. -/
theorem onMessage_eq_run (hs : c.session.Ready) (hcall : c.calling = none) (data : List UInt8) :
    c.onMessage hash startTime data =
      run (step hash startTime) c
        (.message data :: List.replicate ((c.input ++ data).length + 1) .round) := by
  have hstep : c.step hash startTime (.message data) = .ok { c with
      input := c.input ++ data, calling := some (c.input ++ data).length } := by
    rw [step, hcall]
  rw [run_cons, hstep, ok_bind]
  refine Eq.trans ?_ (run_rounds (c := { c with
    input := c.input ++ data, calling := some (c.input ++ data).length }) hs rfl
      (Nat.lt_succ_self _)).symm
  unfold onMessage
  dsimp only
  rw [← drain]
  cases c.session.drain hash startTime (c.input ++ data) with
  | error e => rfl
  | ok r => rw [hcall]; rfl

end Conn

/-! ## data blocks -/

/-- Every data block has the size that is written in its line, with the CR LF, and no
number has been scanned past its line. -/
structure Exact (s : Session) : Prop where
  size : s.state ≠ .kNewCommand → s.blockSize = s.count + 2
  blocks : ∀ b ∈ s.blocks, (b.2 : Int) = b.1 + 2
  overread : s.overread = false

theorem exact_create (store : Store) : (create store).Exact :=
  ⟨fun h => absurd rfl h, nofun, rfl⟩

variable (hash) in
/-- The rounds that are contained: they do not fail, and no number is scanned past its
line. -/
structure CarefulRound (s : Session) (buf : List UInt8) : Prop extends SafeRound hash s buf where
  scan : s.state = .kNewCommand → ∀ len ∈ Buffer.searchCRLF buf, overreads (buf.take len) = false

theorem Effect.exact (h : Effect hash s buf s' rest) (hcareful : CarefulRound hash s buf)
    (hs : s.Exact) : s'.Exact := by
  cases h with
  | line hstate hcrlf hanswers =>
    have hsafe := hcareful.line hstate _ hcrlf
    have hblocks := hanswers.frame.blocks.symm ▸ hs.blocks
    have hoverread := hanswers.overread
    rw [hs.overread, hcareful.scan hstate _ hcrlf] at hoverread
    have heffect := hanswers.effect
    split at heffect
    · next f hfields =>
      obtain ⟨hfinished, hcount, hawaits⟩ := heffect
      have hrange : InRange f.bytes.number := hsafe.count _ (by rw [writtenCount, hfields]; rfl)
      have hsize := hawaits.size.2.1
      rw [Numeral.intOfSize_toULL hrange.1 (by have := hrange.2; omega), ← hcount] at hsize
      rw [hfinished, if_neg Bool.false_ne_true]
      exact ⟨fun _ => hsize, hblocks, hoverread⟩
    · rw [heffect.1, if_pos rfl]
      exact ⟨fun h => absurd (heffect.2.trans hstate) h, hblocks, hoverread⟩
  | wait hstate hcrlf =>
    split
    · exact { hs with }
    · exact hs
  | value hstate hreceiving hlt =>
    refine { hs with size := fun h => ?_ }
    have hsize := hs.size h
    rw [blockSize, hstate, hreceiving.currItem] at hsize
    rw [blockSize, hstate]
    exact hsize
  | discard hstate hitem hlt =>
    refine { hs with size := fun h => ?_ }
    have hsize := hs.size h
    rw [owed, hstate] at hlt
    rw [blockSize, hstate] at hsize ⊢
    dsimp only at hsize hlt ⊢
    omega
  | finish hstate hpos hle hsize hfinishes =>
    refine ⟨fun h => absurd hfinishes.state h, fun b hb => ?_, hfinishes.overread.trans hs.overread⟩
    rw [hfinishes.blocks, List.mem_append, List.mem_singleton] at hb
    obtain hb | rfl := hb
    · exact hs.blocks b hb
    · exact hsize.trans (hs.size hstate)

namespace Conn

variable {c : Conn}

variable (hash) in
/-- The condition on the state before a step: the round that follows is careful. -/
def CarefulStep (c : Conn) : Label → Prop
  | .message _ => True
  | .round => c.calling.isSome → CarefulRound hash c.session c.input

variable (hash) in
structure Inv (c : Conn) : Prop where
  ready : c.session.Ready
  sound : c.session.store.Sound hash
  exact_ : c.session.Exact

theorem Inv.step {l : Label} (hc : Inv hash c) (hcareful : CarefulStep hash c l) :
    ∃ c', c.step hash startTime l = .ok c' ∧ Inv hash c' := by
  cases l with
  | message data =>
    cases hcall : c.calling with
    | none =>
      exact ⟨{ c with input := c.input ++ data, calling := some (c.input ++ data).length },
        by rw [Conn.step, hcall], { hc with }⟩
    | some initial => exact ⟨c, by rw [Conn.step, hcall], hc⟩
  | round =>
    cases hcall : c.calling with
    | none => exact ⟨c, step_round_idle hcall, hc⟩
    | some initial =>
      by_cases hinput : c.input = []
      · exact ⟨_, step_round_nil hcall hinput, { hc with }⟩
      · have hround := hcareful (by rw [hcall]; rfl)
        obtain ⟨⟨s, rest⟩, hr, heffect⟩ := (round_effect hc.ready).exists_ok
          fun _ h => h ⟨hc.sound, hround.toSafeRound⟩
        have hs : Inv hash { c with session := s } :=
          ⟨heffect.ready hc.ready, heffect.sound hround.toSafeRound hc.sound hc.ready,
            heffect.exact hround hc.exact_⟩
        rw [step_round hcall hinput, hr, ok_bind]
        cases rest with
        | none => exact ⟨_, rfl, { hs with }⟩
        | some rest => exact ⟨_, rfl, { hs with }⟩

/-- **Contained input.** In a run whose rounds are careful no assertion fails, no token
is read past the end of its line, and every data block that is stored or dropped has as
many bytes as its line says, and the CR LF. -/
theorem exact_of_careful {store : Store} (hstore : store.Sound hash) {labels : List Label}
    (hcareful : Meets (step hash startTime) (CarefulStep hash) (connect store) labels) :
    Always (step hash startTime) (fun c => c.session.Exact) (connect store) labels :=
  always_of_meets (I := Inv hash) (fun _ _ hc ha => hc.step ha) (fun _ hc => hc.exact_)
    ⟨ready_create store, hstore, exact_create store⟩ hcareful

instance (n : Int) : Decidable (InRange n) := inferInstanceAs (Decidable (_ ∧ _))

instance (line : List UInt8) : Decidable (Safe line) :=
  decidable_of_iff (line.length < 2 ^ 31 ∧ lacksKey line = false ∧ ∀ n ∈ writtenCount line, InRange n)
    ⟨fun h => ⟨h.1, h.2.1, h.2.2⟩, fun h => ⟨h.length, h.key, h.count⟩⟩

instance (s : Session) (buf : List UInt8) : Decidable (CarefulRound hash s buf) :=
  decidable_of_iff
    (((s.state = .kNewCommand → ∀ len ∈ Buffer.searchCRLF buf, Safe (buf.take len)) ∧
        (s.state = .kReceiveValue → s.fits hash)) ∧
      (s.state = .kNewCommand → ∀ len ∈ Buffer.searchCRLF buf, overreads (buf.take len) = false))
    ⟨fun h => ⟨⟨h.1.1, h.1.2⟩, h.2⟩, fun h => ⟨⟨h.line, h.value⟩, h.scan⟩⟩

instance (c : Conn) : (l : Label) → Decidable (CarefulStep hash c l)
  | .message _ => .isTrue trivial
  | .round => inferInstanceAs (Decidable (_ → _))

/-- A client stores five bytes, in two segments. -/
def helloInput : List Label :=
  [.message (ascii "set k 0 0 5\r\nhel"), .round, .round, .round, .message (ascii "lo\r\n"), .round, .round]

theorem exact_of_careful_hello :
    Always (step (fun _ => 0) 0) (fun c => c.session.Exact) (connect Store.create) helloInput :=
  exact_of_careful Store.sound_create (by decide +kernel)

/-- A command without a key, a negative count and a count that is cut to an `int`. -/
theorem hostile_lines :
    (run (step (fun _ => 0) 0) (connect Store.create)
        [.message (ascii "delete\r\n"), .round]).map (fun _ => ()) = .error .endIterator ∧
      (run (step (fun _ => 0) 0) (connect Store.create)
        [.message (ascii "set k 0 0 -1\r\n"), .round]).map (fun _ => ()) =
          .error (.item .itemValuelen) ∧
      (run (step (fun _ => 0) 0) (connect Store.create)
        [.message (ascii "set k 0 0 4294967298\r\nab\r\n"), .round, .round]).map
          (fun c => (c.session.blocks, c.session.sent)) =
            .ok ([(4294967298, 4)], ascii "STORED\r\n") := by
  refine ⟨?_, ?_, ?_⟩
  · decide +kernel
  · decide +kernel
  · decide +kernel

end Conn

end Muduo.Memcached.Session
