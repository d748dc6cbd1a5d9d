import Muduo.Memcached.Session.Contained

/-!
# Muduo.Memcached.Session.Segments

What a session does depends on the bytes of the client, not on how they are cut into
calls of `onMessage`.
-/

namespace Muduo.Memcached.Session

open Lib List

/-! ## the command lines of a stream -/

/-- The length of the data block behind a line. -/
def blockLength (line : List UInt8) : Nat :=
  match writtenCount line with
  | some n => n.toNat + 2
  | none => 0

def commandLinesFrom : Nat → List UInt8 → List (List UInt8)
  | 0, _ => []
  | fuel + 1, bytes => match Buffer.searchCRLF bytes with
    | none => []
    | some len => bytes.take len ::
        commandLinesFrom fuel (bytes.drop (len + 2 + blockLength (bytes.take len)))

/-- The command lines of a stream, which has one for every two bytes at most. -/
def commandLines (bytes : List UInt8) : List (List UInt8) := commandLinesFrom bytes.length bytes

variable {bytes : List UInt8} {len : Nat}

theorem commandLinesFrom_congr {m n : Nat} (hm : bytes.length ≤ m) (hn : bytes.length ≤ n) :
    commandLinesFrom m bytes = commandLinesFrom n bytes := by
  induction m generalizing n bytes with
  | zero =>
    obtain rfl : bytes = [] := eq_nil_of_length_eq_zero (by omega)
    cases n <;> rfl
  | succ m ih =>
    cases n with
    | zero =>
      obtain rfl : bytes = [] := eq_nil_of_length_eq_zero (by omega)
      rfl
    | succ n =>
      rw [commandLinesFrom, commandLinesFrom]
      cases hcrlf : Buffer.searchCRLF bytes with
      | none => rfl
      | some len =>
        have hle := Buffer.searchCRLF_le hcrlf
        dsimp only
        rw [ih (n := n) (by rw [length_drop]; omega) (by rw [length_drop]; omega)]

theorem commandLines_of_none (h : Buffer.searchCRLF bytes = none) : commandLines bytes = [] := by
  unfold commandLines
  cases bytes.length with
  | zero => rfl
  | succ n => rw [commandLinesFrom, h]

theorem commandLines_of_some (h : Buffer.searchCRLF bytes = some len) :
    commandLines bytes = bytes.take len ::
      commandLines (bytes.drop (len + 2 + blockLength (bytes.take len))) := by
  have hle := Buffer.searchCRLF_le h
  obtain ⟨n, hn⟩ : ∃ n, bytes.length = n + 1 := ⟨bytes.length - 1, by omega⟩
  rw [commandLines, hn, commandLinesFrom, h]
  dsimp only
  rw [commandLinesFrom_congr (by rw [length_drop]; omega) (Nat.le_refl _)]
  rfl

theorem mem_commandLines_append {line x y : List UInt8} (hline : line ∈ commandLines x) :
    line ∈ commandLines (x ++ y) := by
  induction hn : x.length using Nat.strong_induction_on generalizing x y with
  | _ n ih =>
    cases hcrlf : Buffer.searchCRLF x with
    | none =>
      rw [commandLines_of_none hcrlf] at hline
      cases hline
    | some len =>
      have hle := Buffer.searchCRLF_le hcrlf
      have htake : (x ++ y).take len = x.take len := take_append_of_le_length (by omega)
      rw [commandLines_of_some hcrlf] at hline
      rw [commandLines_of_some (Buffer.searchCRLF_append hcrlf y), htake, drop_append]
      obtain hhead | htail := mem_cons.1 hline
      · exact hhead ▸ mem_cons_self
      · refine mem_cons_of_mem _ (ih _ ?_ htail rfl)
        rw [length_drop]
        omega

/-! ## the lines that a session is given -/

/-- A line that the session does not give up on. -/
structure Proper (line : List UInt8) : Prop where
  length : line.length ≤ 1022
  key : lacksKey line = false
  count : ∀ n ∈ writtenCount line, 0 ≤ n ∧ n ≤ 2 ^ 30

theorem Proper.safe {line : List UInt8} (h : Proper line) : Safe line where
  length := by have := h.length; omega
  key := h.key
  count n hn := by
    obtain ⟨hpos, hle⟩ := h.count n hn
    exact ⟨hpos, by omega⟩

variable {hash : Key → Nat} {startTime : Int} {s s' : Session} {buf : List UInt8}

/-- The lines that are still in the buffer. -/
def linesAhead (s : Session) (buf : List UInt8) : List (List UInt8) :=
  commandLines (buf.drop s.owed)

theorem owed_of_new (hstate : s.state = .kNewCommand) : s.owed = 0 := by
  rw [owed, hstate]

theorem linesAhead_of_lt (h : buf.length < s.owed) : s.linesAhead buf = [] := by
  rw [linesAhead, drop_of_length_le h.le]
  rfl

theorem linesAhead_nil (s : Session) : s.linesAhead [] = [] := by
  rw [linesAhead, drop_nil]
  rfl

theorem Answers.owed_eq {line : List UInt8} {finished : Bool} (h : Answers hash s line s' finished)
    (hstate : s.state = .kNewCommand) (hline : Proper line) :
    (if finished then s'.resetRequest else s').owed = blockLength line := by
  have heffect := h.effect
  split at heffect
  · next f hfields =>
    obtain ⟨hfinished, -, hawaits⟩ := heffect
    have hcount : writtenCount line = some f.bytes.number := by rw [writtenCount, hfields]
    have howed := hawaits.size.2.2
    obtain ⟨hpos, hle⟩ := hline.count _ hcount
    rw [Numeral.intOfSize_toULL hpos (by omega)] at howed
    rw [hfinished, if_neg Bool.false_ne_true, blockLength, hcount]
    dsimp only
    omega
  · next hnot =>
    have hcount : writtenCount line = none := by
      unfold writtenCount
      split
      · next f hfields => exact absurd hfields (hnot f)
      · rfl
    have hnew : s'.resetRequest.state = .kNewCommand := heffect.2.trans hstate
    rw [heffect.1, if_pos rfl, owed_of_new hnew, blockLength, hcount]

/-- A round takes the first line of those ahead, or none. -/
theorem Effect.requests {rest : List UInt8} (h : Effect hash s buf s' (some rest))
    (hlines : ∀ line ∈ s.linesAhead buf, Proper line) :
    ∃ taken, s'.requests = s.requests ++ taken ∧ s.linesAhead buf = taken ++ s'.linesAhead rest := by
  cases h with
  | @line len s₁ finished hstate hcrlf hanswers =>
    have hahead : s.linesAhead buf = buf.take len ::
        commandLines (buf.drop (len + 2 + blockLength (buf.take len))) := by
      rw [linesAhead, owed_of_new hstate, drop_zero, commandLines_of_some hcrlf]
    have hproper : Proper (buf.take len) := hlines _ (by rw [hahead]; exact mem_cons_self)
    refine ⟨[buf.take len], ?_, ?_⟩
    · split
      · exact hanswers.frame.requests
      · exact hanswers.frame.requests
    · rw [hahead, linesAhead, hanswers.owed_eq hstate hproper, drop_drop]
      rfl
  | value hstate hreceiving hlt =>
    exact ⟨[], (append_nil _).symm, by rw [linesAhead_nil, linesAhead_of_lt hlt]; rfl⟩
  | discard hstate hitem hlt =>
    exact ⟨[], (append_nil _).symm, by rw [linesAhead_nil, linesAhead_of_lt hlt]; rfl⟩
  | finish hstate hpos hle hsize hfinishes =>
    refine ⟨[], hfinishes.requests.trans (append_nil _).symm, ?_⟩
    rw [linesAhead, linesAhead, owed_of_new hfinishes.state, drop_zero]
    rfl

/-- No line is ahead of a session that waits for one. -/
theorem Effect.requests_of_none (h : Effect hash s buf s' none) :
    s'.requests = s.requests ∧ s.linesAhead buf = [] := by
  cases h with
  | wait hstate hcrlf =>
    rw [linesAhead, owed_of_new hstate, drop_zero, commandLines_of_none hcrlf]
    split <;> exact ⟨rfl, rfl⟩

/-! ## bytes that arrive later -/

variable {a b : List UInt8}

/-- A round that has all it needs leaves alone what comes later. -/
theorem round_append (hs : s.Ready) (hcrlf : s.state = .kNewCommand → Buffer.searchCRLF a ≠ none)
    (howed : s.owed ≤ a.length) :
    s.round hash startTime (a ++ b) =
      (s.round hash startTime a).map fun r => (r.1, r.2.map (· ++ b)) := by
  unfold round
  cases hstate : s.state with
  | kNewCommand =>
    obtain ⟨len, hlen⟩ := Option.ne_none_iff_exists'.1 (hcrlf hstate)
    have hle := Buffer.searchCRLF_le hlen
    have htake : (a ++ b).take len = a.take len := take_append_of_le_length (by omega)
    have hdrop : (a ++ b).drop (len + 2) = a.drop (len + 2) ++ b :=
      drop_append_of_le_length hle
    dsimp only
    unfold newCommand
    rw [hlen, Buffer.searchCRLF_append hlen]
    dsimp only
    rw [htake, hdrop]
    by_cases hlt : len < 2 ^ 31
    · rw [check_of hlt, ok_bind, ok_bind]
      cases s.processRequest hash startTime (a.take len) with
      | error e => rfl
      | ok r => rfl
    · rw [check_of_not hlt]
      rfl
  | kReceiveValue =>
    obtain ⟨item, key, received, hx⟩ := hs.receiving hstate
    rw [hx.owed_eq hstate] at howed
    dsimp only
    rw [receiveValue_of_le hx howed, receiveValue_of_le hx (by rw [length_append]; omega),
      take_append_of_le_length howed, drop_append_of_le_length howed]
    cases finishValue hash { s with currItem := some (item.grown (a.take item.neededBytes)) }
        (item.grown (a.take item.neededBytes)) with
    | error e => rfl
    | ok s' => rfl
  | kDiscardValue =>
    obtain ⟨hitem, hpos⟩ := hs.discarding hstate
    rw [owed, hstate] at howed
    dsimp only at howed ⊢
    unfold discardValue
    rw [if_neg (by rw [length_append]; omega), if_neg (by omega), check_of hitem, ok_bind, ok_bind,
      drop_append_of_le_length howed]
    rfl

theorem round_of_value (hstate : s.state = .kReceiveValue) :
    s.round hash startTime buf = s.receiveValue hash buf >>= fun r => .ok (r.1, some r.2) := by
  rw [round, hstate]
  rfl

theorem round_of_discard (hstate : s.state = .kDiscardValue) :
    s.round hash startTime buf = s.discardValue buf >>= fun r => .ok (r.1, some r.2) := by
  rw [round, hstate]
  rfl

theorem receiveValue_append {item : Item} {key received : List UInt8} (hx : s.Receiving item key received)
    (hlt : a.length < item.neededBytes) :
    s.receiveValue hash (a ++ b) = { s with currItem := some (item.grown a) }.receiveValue hash b := by
  have hneeded := hx.receives.neededBytes_eq
  have hgrown := (hx.grown hlt).receives.neededBytes_eq
  have hmore : item.neededBytes = a.length + (item.grown a).neededBytes := by
    have hlen : (item.grown a).valuelen = item.valuelen := rfl
    rw [length_append, hlen] at hgrown
    omega
  have htake : item.grown ((a ++ b).take item.neededBytes) =
      (item.grown a).grown (b.take (item.grown a).neededBytes) := by
    rw [hmore, take_length_add_append, Item.grown, Item.grown, Item.grown, append_assoc]
  have hdrop : (a ++ b).drop item.neededBytes = b.drop (item.grown a).neededBytes := by
    rw [hmore, drop_length_add_append]
  rw [receiveValue_eq hx, receiveValue_eq (hx.grown hlt), htake, hdrop]

/-- The session that drops `n` bytes. -/
def dropping (s : Session) (n : Nat) : Session :=
  { s with bytesToDiscard := s.bytesToDiscard - n, discarded := s.discarded + n }

theorem discardValue_append (hlt : a.length < s.bytesToDiscard) :
    s.discardValue (a ++ b) = (s.dropping a.length).discardValue b := by
  have hlen : (a ++ b).length = a.length + b.length := length_append
  unfold discardValue
  by_cases hall : (a ++ b).length < s.bytesToDiscard
  · have hall' : b.length < (s.dropping a.length).bytesToDiscard := by
      dsimp only [dropping]
      omega
    rw [if_pos hall, if_pos hall', hlen, Nat.sub_add_eq, ← Nat.add_assoc]
    rfl
  · have hall' : ¬ b.length < (s.dropping a.length).bytesToDiscard := by
      dsimp only [dropping]
      omega
    have hbytes : (s.dropping a.length).discarded + (s.dropping a.length).bytesToDiscard =
        s.discarded + s.bytesToDiscard := by
      dsimp only [dropping]
      omega
    have hdrop : (a ++ b).drop s.bytesToDiscard = b.drop (s.dropping a.length).bytesToDiscard := by
      rw [drop_append, drop_of_length_le hlt.le]
      rfl
    dsimp only
    rw [if_neg hall, if_neg hall', hbytes, hdrop]
    rfl

/-- A part of a data block is taken in as if the rest had been there. -/
theorem round_of_lt (hs : s.Ready) (hlt : a.length < s.owed) :
    ∃ s', s.round hash startTime a = .ok (s', some []) ∧
      ∀ b, s.round hash startTime (a ++ b) = s'.round hash startTime b := by
  cases hstate : s.state with
  | kNewCommand =>
    rw [owed_of_new hstate] at hlt
    omega
  | kReceiveValue =>
    obtain ⟨item, key, received, hx⟩ := hs.receiving hstate
    rw [hx.owed_eq hstate] at hlt
    refine ⟨{ s with currItem := some (item.grown a) }, ?_, fun b => ?_⟩
    · rw [round_of_value hstate, receiveValue_of_lt hx hlt]
      rfl
    · rw [round_of_value hstate, round_of_value (s := { s with currItem := some (item.grown a) }) hstate,
        receiveValue_append hx hlt]
  | kDiscardValue =>
    have hitem := (hs.discarding hstate).1
    rw [owed, hstate] at hlt
    refine ⟨s.dropping a.length, ?_, fun b => ?_⟩
    · rw [round_of_discard hstate, discardValue, check_of hitem, ok_bind, if_pos hlt]
      rfl
    · rw [round_of_discard hstate, round_of_discard (s := s.dropping a.length) hstate, discardValue_append hlt]

/-- A session that waits for a line, and goes on when more bytes arrive. -/
theorem drain_of_wait (hs : s.Ready) (hstate : s.state = .kNewCommand)
    (hcrlf : Buffer.searchCRLF buf = none) :
    s.drain hash startTime buf = .ok (if 1024 < buf.length then s.shutdown else s, buf) := by
  rw [drain_eq hs]
  split
  · next hbuf =>
    rw [hbuf]
    rfl
  · rw [round, hstate]
    dsimp only
    rw [newCommand, hcrlf]
    rfl

theorem drain_nil (hs : s.Ready) : s.drain hash startTime [] = .ok (s, []) := by
  rw [drain_eq hs, if_pos rfl]

/-- A line of the stream that is not in the buffer yet begins there with 1024 bytes at
most. -/
theorem searchCRLF_append_none (hstate : s.state = .kNewCommand)
    (hlines : ∀ line ∈ s.linesAhead (a ++ b), Proper line) (hcrlf : Buffer.searchCRLF a = none)
    (hlong : 1024 < a.length) : Buffer.searchCRLF (a ++ b) = none := by
  cases hlen : Buffer.searchCRLF (a ++ b) with
  | none => rfl
  | some len =>
    have hmem : (a ++ b).take len ∈ s.linesAhead (a ++ b) := by
      rw [linesAhead, owed_of_new hstate, drop_zero, commandLines_of_some hlen]
      exact mem_cons_self
    have hle := Buffer.searchCRLF_le hlen
    have hshort := (hlines _ hmem).length
    rw [length_take_of_le (by omega)] at hshort
    rw [Buffer.searchCRLF_of_append hlen (by omega)] at hcrlf
    cases hcrlf

/-- **Bytes that arrive later** are treated as if they had been there. -/
theorem drain_append (hs : s.Ready) (hlines : ∀ line ∈ s.linesAhead (a ++ b), Proper line) :
    s.drain hash startTime (a ++ b) =
      s.drain hash startTime a >>= fun r => r.1.drain hash startTime (r.2 ++ b) := by
  induction hn : a.length using Nat.strong_induction_on generalizing s a with
  | _ n ih =>
    by_cases ha : a = []
    · rw [ha, drain_nil hs]
      rfl
    have hab : a ++ b ≠ [] := fun h => ha (append_eq_nil_iff.1 h).1
    by_cases hlt : a.length < s.owed
    · -- a part of a data block: the next round of the one is that of the other
      obtain ⟨s', hround, hmerge⟩ : ∃ s', s.round hash startTime a = .ok (s', some []) ∧
        ∀ b, s.round hash startTime (a ++ b) = s'.round hash startTime b := round_of_lt hs hlt
      have hs' := (effect_of_round hs hround).ready hs
      have hdrain : s.drain hash startTime a = .ok (s', []) := by
        rw [drain_eq hs, if_neg ha, hround, ok_bind]
        exact drain_nil hs'
      rw [hdrain, ok_bind, nil_append]
      by_cases hb : b = []
      · rw [hb, append_nil, hdrain]
        exact (drain_nil hs').symm
      rw [drain_eq hs, if_neg hab, hmerge, drain_eq hs', if_neg hb]
      cases hr : s'.round hash startTime b with
      | error e => rfl
      | ok r =>
        obtain ⟨s'', rest⟩ := r
        cases rest with
        | some rest => rfl
        | none =>
          cases effect_of_round hs ((hmerge b).trans hr) with
          | wait hstate =>
            rw [owed_of_new hstate] at hlt
            omega
    by_cases hwait : s.state = .kNewCommand ∧ Buffer.searchCRLF a = none
    · obtain ⟨hstate, hcrlf⟩ := hwait
      rw [drain_of_wait hs hstate hcrlf, ok_bind]
      split
      · next hlong =>
        have hnone := searchCRLF_append_none hstate hlines hcrlf hlong
        have hfresh := hs.fresh hstate
        have hs₁ : s.shutdown.Ready := ready_of_fresh hs.needle hstate { hfresh with }
        have hlong' : 1024 < (a ++ b).length := by
          rw [length_append]
          omega
        rw [drain_of_wait hs hstate hnone, drain_of_wait hs₁ hstate hnone, if_pos hlong', if_pos hlong']
        rfl
      · rfl
    · have happend : s.round hash startTime (a ++ b) =
          (s.round hash startTime a).map fun r => (r.1, r.2.map (· ++ b)) :=
        round_append hs (fun hstate hnone => hwait ⟨hstate, hnone⟩) (by omega)
      rw [drain_eq hs, drain_eq hs, if_neg ha, if_neg hab]
      cases hround : s.round hash startTime a with
      | error e =>
        rw [happend, hround]
        rfl
      | ok r =>
        obtain ⟨s', rest⟩ := r
        rw [hround] at happend
        cases rest with
        | none =>
          cases effect_of_round hs hround with
          | wait hstate hcrlf => exact absurd ⟨hstate, hcrlf⟩ hwait
        | some rest =>
          have heffect := effect_of_round hs hround
          obtain ⟨taken, -, hahead⟩ := (effect_of_round hs happend).requests hlines
          have hlines' : ∀ line ∈ s'.linesAhead (rest ++ b), Proper line := fun line hline =>
            hlines line (by rw [hahead]; exact mem_append_right _ hline)
          rw [happend]
          exact ih rest.length (by rw [← hn]; exact heffect.length_lt ha) (heffect.ready hs) hlines' rfl

/-- The loop leaves the session between two rounds, and no more bytes than there were. -/
theorem drain_ready (hs : s.Ready) {r : Session × List UInt8}
    (hr : s.drain hash startTime buf = .ok r) : r.1.Ready ∧ r.2.length ≤ buf.length := by
  induction hn : buf.length using Nat.strong_induction_on generalizing s buf with
  | _ n ih =>
    rw [drain_eq hs] at hr
    split at hr
    · cases hr
      exact ⟨hs, Nat.zero_le _⟩
    · next hbuf =>
      cases hround : s.round hash startTime buf with
      | error e =>
        rw [hround] at hr
        cases hr
      | ok r' =>
        obtain ⟨s', rest⟩ := r'
        have heffect := effect_of_round hs hround
        rw [hround] at hr
        cases rest with
        | none =>
          cases hr
          exact ⟨heffect.ready hs, hn.le⟩
        | some rest =>
          have hlt := heffect.length_lt hbuf
          obtain ⟨hready, hle⟩ := ih rest.length (by omega) (heffect.ready hs) hr rfl
          exact ⟨hready, by omega⟩

/-! ## calls -/

namespace Conn

variable {c : Conn} {x y : List UInt8}

theorem onMessage_eq_drain :
    c.onMessage hash startTime x = c.session.drain hash startTime (c.input ++ x) >>= fun r =>
      .ok { c with
        session := r.1, bytesRead := c.bytesRead + ((c.input ++ x).length - r.2.length), input := r.2 } :=
  rfl

theorem onMessage_append (hs : c.session.Ready)
    (hlines : ∀ line ∈ c.session.linesAhead (c.input ++ (x ++ y)), Proper line) :
    c.onMessage hash startTime (x ++ y) =
      c.onMessage hash startTime x >>= fun c' => c'.onMessage hash startTime y := by
  rw [← append_assoc] at hlines
  rw [onMessage_eq_drain, onMessage_eq_drain, ← append_assoc, drain_append hs hlines]
  cases hr : c.session.drain hash startTime (c.input ++ x) with
  | error e => rfl
  | ok r =>
    obtain ⟨hready, hle⟩ := drain_ready hs hr
    rw [ok_bind, ok_bind, ok_bind, onMessage_eq_drain]
    dsimp only
    cases hr' : r.1.drain hash startTime (r.2 ++ y) with
    | error e => rfl
    | ok r' =>
      have hle' := (drain_ready hready hr').2
      have hread : c.bytesRead + ((c.input ++ x ++ y).length - r'.2.length) =
          c.bytesRead + ((c.input ++ x).length - r.2.length) + ((r.2 ++ y).length - r'.2.length) := by
        have hall : (c.input ++ x ++ y).length = (c.input ++ x).length + y.length := length_append
        have hrest : (r.2 ++ y).length = r.2.length + y.length := length_append
        omega
      rw [ok_bind, ok_bind, hread]

/-- The calls for the pieces of a stream do what the call for the whole of it does. -/
theorem run_onMessage {store : Store} {chunks : List (List UInt8)}
    (hlines : ∀ line ∈ commandLines chunks.flatten, Proper line) :
    run (onMessage hash startTime) (connect store) chunks =
      (connect store).onMessage hash startTime chunks.flatten := by
  induction chunks using List.reverseRecOn with
  | nil => rfl
  | append_singleton chunks last ih =>
    rw [flatten_concat] at hlines ⊢
    rw [run_append, ih fun line hline => hlines line (mem_commandLines_append hline),
      onMessage_append (c := connect store) (ready_create store) hlines]
    cases (connect store).onMessage hash startTime chunks.flatten with
    | error e => rfl
    | ok c =>
      rw [ok_bind, ok_bind, run_cons]
      cases c.onMessage hash startTime last <;> rfl

/-- The lines of the input are processed, if no value becomes too long. -/
theorem drain_of_fits {initial fuel : Nat} (hcall : c.calling = some initial) (hs : c.session.Ready)
    (hsound : c.session.store.Sound hash)
    (hlines : ∀ line ∈ c.session.linesAhead c.input, Proper line) (hfuel : c.input.length < fuel)
    (hfits : Meets (step hash startTime) (fun c _ => c.session.fits hash) c
      (List.replicate fuel .round)) :
    ∃ r, c.session.drain hash startTime c.input = .ok r ∧
      r.1.requests = c.session.requests ++ c.session.linesAhead c.input := by
  induction fuel generalizing c with
  | zero => omega
  | succ fuel ih =>
    rw [replicate_succ] at hfits
    rw [drain_eq hs]
    by_cases hinput : c.input = []
    · rw [if_pos hinput, hinput, linesAhead_nil, append_nil]
      exact ⟨_, rfl, rfl⟩
    have hsafe : SafeRound hash c.session c.input := by
      refine ⟨fun hstate len hcrlf => Proper.safe (hlines _ ?_), fun _ => hfits.1⟩
      rw [linesAhead, owed_of_new hstate, drop_zero, commandLines_of_some hcrlf]
      exact mem_cons_self
    obtain ⟨⟨s', rest⟩, hround, heffect⟩ : ∃ r, c.session.round hash startTime c.input = .ok r ∧
      Effect hash c.session c.input r.1 r.2 := (round_effect hs).exists_ok fun _ h => h ⟨hsound, hsafe⟩
    rw [if_neg hinput, hround, ok_bind]
    cases rest with
    | none =>
      obtain ⟨hrequests, hahead⟩ := heffect.requests_of_none
      exact ⟨_, rfl, by rw [hahead, append_nil]; exact hrequests⟩
    | some rest =>
      obtain ⟨taken, hrequests, hahead⟩ := heffect.requests hlines
      have hstep : c.step hash startTime .round = .ok { c with session := s', input := rest } := by
        rw [step_round hcall hinput, hround]
        rfl
      have hlt := heffect.length_lt hinput
      obtain ⟨r, hr, hreq⟩ := ih (c := { c with session := s', input := rest }) hcall (heffect.ready hs)
        (heffect.sound hsafe hsound hs)
        (fun line hline => hlines line (by rw [hahead]; exact mem_append_right _ hline))
        (Nat.lt_of_lt_of_le hlt (Nat.le_of_lt_succ hfuel)) (hfits.2 _ hstep)
      refine ⟨r, hr, ?_⟩
      rw [hreq, hahead, ← append_assoc, ← hrequests]

/-- **Segmentation does not matter.** However a stream is cut into calls of `onMessage`,
the session, the store, the replies and the bytes that stay are those of the single call.
As long as no joined value becomes too long no assertion fails, and `processRequest` is
called with the command lines of the stream, in order, and with nothing else. -/
theorem segments_irrelevant {store : Store} (hstore : store.Sound hash)
    {chunks : List (List UInt8)} (hlines : ∀ line ∈ commandLines chunks.flatten, Proper line) :
    run (onMessage hash startTime) (connect store) chunks =
        (connect store).onMessage hash startTime chunks.flatten ∧
      (Meets (step hash startTime) (fun c _ => c.session.fits hash) (connect store)
          (.message chunks.flatten :: List.replicate (chunks.flatten.length + 1) .round) →
        ∃ c, (connect store).onMessage hash startTime chunks.flatten = .ok c ∧
          c.session.requests = commandLines chunks.flatten) := by
  refine ⟨run_onMessage hlines, fun hfits => ?_⟩
  obtain ⟨r, hr, hrequests⟩ := drain_of_fits (c := ⟨create store, 0, chunks.flatten, some _⟩) rfl
    (ready_create store) hstore hlines (Nat.lt_succ_self _) (hfits.2 _ rfl)
  refine ⟨⟨r.1, 0 + (chunks.flatten.length - r.2.length), r.2, none⟩, ?_, hrequests⟩
  rw [onMessage_eq_drain]
  exact congrArg (· >>= _) hr

instance (line : List UInt8) : Decidable (Proper line) :=
  decidable_of_iff (line.length ≤ 1022 ∧ lacksKey line = false ∧
      ∀ n ∈ writtenCount line, 0 ≤ n ∧ n ≤ 2 ^ 30)
    ⟨fun h => ⟨h.1, h.2.1, h.2.2⟩, fun h => ⟨h.length, h.key, h.count⟩⟩

/-- A value that is cut inside, and behind the CR of its end. -/
def cutHello : List (List UInt8) :=
  [ascii "set k 0 0 5\r\nhel", ascii "lo\r", ascii "\nget k\r\n"]

theorem segments_irrelevant_hello :
    run (onMessage (fun _ => 0) 0) (connect Store.create) cutHello =
        (connect Store.create).onMessage (fun _ => 0) 0 cutHello.flatten ∧
      ∃ c, (connect Store.create).onMessage (fun _ => 0) 0 cutHello.flatten = .ok c ∧
        c.session.requests = commandLines cutHello.flatten := by
  have h : run (onMessage (fun _ => 0) 0) (connect Store.create) cutHello = _ ∧ _ :=
    segments_irrelevant Store.sound_create (by decide +kernel)
  exact ⟨h.1, h.2 (by decide +kernel)⟩

/-- The data block of an update that is refused is read as a command. -/
theorem refused_block_is_command :
    ((connect Store.create).onMessage (fun _ => 0) 0 (ascii "set k x 0 5\r\nhello\r\n")).map
        (fun c => (c.session.requests, c.session.sent)) =
      .ok ([ascii "set k x 0 5", ascii "hello"],
        ascii "CLIENT_ERROR bad command line format\r\nERROR\r\n") := by
  decide +kernel

end Conn

end Muduo.Memcached.Session
