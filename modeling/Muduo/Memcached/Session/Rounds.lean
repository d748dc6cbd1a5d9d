import Muduo.Memcached.Session.Requests

/-!
# Muduo.Memcached.Session.Rounds

What a round of `Session::onMessage` does.
-/

namespace Muduo.Memcached.Session

open Lib List

variable {hash : Key → Nat} {s s' : Session} {buf : List UInt8}

/-! ## between two rounds -/

/-- A part of the value of `item` has arrived. -/
structure Receiving (s : Session) (item : Item) (key received : List UInt8) : Prop where
  currItem : s.currItem = some item
  receives : item.Receives key received
  more : (received.length : Int) < item.valuelen
  two : 2 ≤ item.valuelen
  le : item.valuelen ≤ 1024 * 1024 + 2
  policy : s.policy ≠ .kInvalid

structure Ready (s : Session) : Prop where
  needle : s.needle.valuelen = 2
  pending : match s.state with
    | .kNewCommand => s.Fresh
    | .kReceiveValue => ∃ item key received, s.Receiving item key received
    | .kDiscardValue => s.currItem = none ∧ 0 < s.bytesToDiscard

theorem ready_create (store : Store) : (create store).Ready := ⟨rfl, ⟨rfl, rfl, rfl, rfl, rfl⟩⟩

theorem Ready.fresh (hs : s.Ready) (hstate : s.state = .kNewCommand) : s.Fresh := by
  have h := hs.pending
  rwa [hstate] at h

theorem Ready.receiving (hs : s.Ready) (hstate : s.state = .kReceiveValue) :
    ∃ item key received, s.Receiving item key received := by
  have h := hs.pending
  rwa [hstate] at h

theorem Ready.discarding (hs : s.Ready) (hstate : s.state = .kDiscardValue) :
    s.currItem = none ∧ 0 < s.bytesToDiscard := by
  have h := hs.pending
  rwa [hstate] at h

theorem ready_of_fresh (hneedle : s.needle.valuelen = 2) (hstate : s.state = .kNewCommand)
    (hfresh : s.Fresh) : s.Ready :=
  ⟨hneedle, by rw [hstate]; exact hfresh⟩

theorem ready_of_receiving {item : Item} {key received : List UInt8}
    (hneedle : s.needle.valuelen = 2) (hstate : s.state = .kReceiveValue)
    (hx : s.Receiving item key received) : s.Ready :=
  ⟨hneedle, by rw [hstate]; exact ⟨item, key, received, hx⟩⟩

theorem ready_of_discarding (hneedle : s.needle.valuelen = 2) (hstate : s.state = .kDiscardValue)
    (hitem : s.currItem = none) (hpos : 0 < s.bytesToDiscard) : s.Ready :=
  ⟨hneedle, by rw [hstate]; exact ⟨hitem, hpos⟩⟩

/-- The bytes of the data block that have not arrived. -/
def owed (s : Session) : Nat :=
  match s.state with
  | .kNewCommand => 0
  | .kReceiveValue => (s.currItem.map Item.neededBytes).getD 0
  | .kDiscardValue => s.bytesToDiscard

/-- The bytes of the data block as the session counts them. -/
def blockSize (s : Session) : Int :=
  match s.state with
  | .kNewCommand => 0
  | .kReceiveValue => (s.currItem.map Item.valuelen).getD 0
  | .kDiscardValue => s.discarded + s.bytesToDiscard

variable (hash) in
/-- The value, if it is joined with the one in the store, does not become too long. -/
def fits (s : Session) : Bool :=
  match s.currItem with
  | none => true
  | some item => match s.store.find hash item.key with
    | none => true
    | some old => (s.policy = .kAppend ∨ s.policy = .kPrepend) →
        item.valueLength + old.valueLength - 2 < Item.maxValue

/-! ## the end of a data block -/

variable (hash) in
/-- The session is done with a data block of `n` bytes. -/
structure Finishes (s s' : Session) (n : Nat) : Prop where
  state : s'.state = .kNewCommand
  fresh : s'.Fresh
  needle : s'.needle.valuelen = s.needle.valuelen
  requests : s'.requests = s.requests
  overread : s'.overread = s.overread
  blocks : s'.blocks = s.blocks ++ [(s.count, n)]
  sound : s.store.Sound hash → s.fits hash → s'.store.Sound hash

variable {item x : Item} {key received : List UInt8}

theorem finishValue_spec (hx : s.Receiving item key received) {more : List UInt8}
    (hfull : ((received ++ more).length : Int) = item.valuelen) :
    Outcome (fun s' => Finishes hash s s' (received ++ more).length)
      (fun _ => ¬ (s.store.Sound hash ∧ s.fits hash))
      (finishValue hash { s with currItem := some (item.grown more) } (item.grown more)) := by
  have htwo := hx.two
  have hle := hx.le
  have hroom : (received.length : Int) + more.length ≤ item.valuelen := by
    rw [← hfull, length_append]
    omega
  have hgrown := hx.receives.grown hroom
  have hvalue : (item.grown more).value.length = (received ++ more).length := by
    rw [Item.value, hgrown.data, hgrown.keylen, drop_left]
  unfold finishValue
  rw [hvalue]
  dsimp only
  split
  · next hcrlf =>
    obtain ⟨body, hbody⟩ := hgrown.holds_of_endsWithCRLF (by omega) hfull
      (by rw [Item.maxValue_eq]; omega) hcrlf
    have hkey : item.key = key := by
      rw [Item.key, hx.receives.data, hx.receives.keylen, take_left]
    let u : Update := ⟨item.grown more, s.policy, key, body, hbody, hx.policy⟩
    have hfits : s.fits hash → u.fits (s.store.find hash u.key) := by
      intro h
      rw [fits, hx.currItem] at h
      dsimp only at h
      rw [hkey] at h
      cases hfind : s.store.find hash key with
      | none => rfl
      | some old =>
        rw [hfind] at h
        exact h
    have hstore : s.store.Sound hash → s.fits hash →
        ∃ r, s.store.storeItem hash (item.grown more) s.policy = .ok r ∧ r.1.Sound hash :=
      fun hsound h => hsound.storeItem u (hfits h)
    cases hr : s.store.storeItem hash (item.grown more) s.policy with
    | error e =>
      refine .error fun h => ?_
      obtain ⟨r, hok, -⟩ := hstore h.1 h.2
      rw [hok] at hr
      cases hr
    | ok r =>
      have hsound : s.store.Sound hash → s.fits hash → r.1.Sound hash := by
        intro h₁ h₂
        obtain ⟨r', hok, hr'⟩ := hstore h₁ h₂
        rw [hr] at hok
        cases hok
        exact hr'
      have hreply : Keeps hash { s with
          currItem := some (item.grown more), store := r.1,
          blocks := s.blocks ++ [(s.count, (received ++ more).length)] } _ :=
        keeps_reply _ (if r.2.1 then "STORED\r\n" else notStored s.policy r.2.2)
      exact .ok ⟨rfl, ⟨rfl, rfl, rfl, rfl, rfl⟩, hreply.needle, hreply.requests, hreply.overread,
        hreply.blocks, fun h₁ h₂ => hreply.sound (hsound h₁ h₂)⟩
  · next hcrlf =>
    have hreply : Keeps hash { s with
        currItem := some (item.grown more),
        blocks := s.blocks ++ [(s.count, (received ++ more).length)] } _ :=
      keeps_reply _ "CLIENT_ERROR bad data chunk\r\n"
    exact .ok ⟨rfl, ⟨rfl, rfl, rfl, rfl, rfl⟩, hreply.needle, hreply.requests, hreply.overread,
      hreply.blocks, fun h _ => hreply.sound h⟩

variable (hash) in
/-- What a round does with the bytes `buf`: the session after it, and the bytes that
stay. -/
inductive Effect (s : Session) (buf : List UInt8) : Session → Option (List UInt8) → Prop
  | line {len : Nat} {s₁ : Session} {finished : Bool} (hstate : s.state = .kNewCommand)
      (hcrlf : Buffer.searchCRLF buf = some len) (hanswers : Answers hash s (buf.take len) s₁ finished) :
      Effect s buf (if finished then s₁.resetRequest else s₁) (some (buf.drop (len + 2)))
  | wait (hstate : s.state = .kNewCommand) (hcrlf : Buffer.searchCRLF buf = none) :
      Effect s buf (if 1024 < buf.length then s.shutdown else s) none
  | value {item : Item} {key received : List UInt8} (hstate : s.state = .kReceiveValue)
      (hreceiving : s.Receiving item key received) (hlt : buf.length < s.owed) :
      Effect s buf { s with currItem := some (item.grown buf) } (some [])
  | discard (hstate : s.state = .kDiscardValue) (hitem : s.currItem = none)
      (hlt : buf.length < s.owed) :
      Effect s buf { s with
        bytesToDiscard := s.bytesToDiscard - buf.length, discarded := s.discarded + buf.length } (some [])
  | finish {s' : Session} {n : Nat} (hstate : s.state ≠ .kNewCommand) (hpos : 0 < s.owed)
      (hle : s.owed ≤ buf.length) (hsize : (n : Int) = s.blockSize) (hfinishes : Finishes hash s s' n) :
      Effect s buf s' (some (buf.drop s.owed))

variable (hash) in
/-- The rounds that do not fail. -/
structure SafeRound (s : Session) (buf : List UInt8) : Prop where
  line : s.state = .kNewCommand → ∀ len ∈ Buffer.searchCRLF buf, Safe (buf.take len)
  value : s.state = .kReceiveValue → s.fits hash

theorem receiveValue_eq (hx : s.Receiving item key received) :
    s.receiveValue hash buf =
      (let x := item.grown (buf.take item.neededBytes)
       (if x.neededBytes = 0 then finishValue hash { s with currItem := some x } x
        else .ok { s with currItem := some x }) >>= fun s' => .ok (s', buf.drop item.neededBytes)) := by
  have hneeded := hx.receives.neededBytes_eq
  have htake : buf.take (min buf.length item.neededBytes) = buf.take item.neededBytes := by
    rw [Nat.min_comm, ← take_eq_take_min]
  have hdrop : buf.drop (min buf.length item.neededBytes) = buf.drop item.neededBytes := by
    obtain hle | hle := Nat.le_total buf.length item.neededBytes
    · rw [Nat.min_eq_left hle, drop_length, drop_of_length_le hle]
    · rw [Nat.min_eq_right hle]
  have happend : item.append (buf.take item.neededBytes) =
      .ok (item.grown (buf.take item.neededBytes)) :=
    hx.receives.append_eq (by rw [length_take]; omega)
  unfold receiveValue
  rw [hx.currItem]
  dsimp only
  rw [htake, hdrop, happend]
  rfl

theorem Receiving.owed_eq (hx : s.Receiving item key received) (hstate : s.state = .kReceiveValue) :
    s.owed = item.neededBytes := by
  rw [owed, hstate, hx.currItem]
  rfl

theorem receiveValue_of_lt (hx : s.Receiving item key received) (hlt : buf.length < item.neededBytes) :
    s.receiveValue hash buf = .ok ({ s with currItem := some (item.grown buf) }, []) := by
  have hneeded := hx.receives.neededBytes_eq
  have hroom : (received.length : Int) + buf.length ≤ item.valuelen := by omega
  have hgrown := (hx.receives.grown hroom).neededBytes_eq
  have hmore : ¬ (item.grown buf).neededBytes = 0 := by
    rw [length_append] at hgrown
    have : (item.grown buf).valuelen = item.valuelen := rfl
    omega
  rw [receiveValue_eq hx, take_of_length_le hlt.le, drop_of_length_le hlt.le]
  dsimp only
  rw [if_neg hmore]
  rfl

theorem receiveValue_of_le (hx : s.Receiving item key received) (hle : item.neededBytes ≤ buf.length) :
    s.receiveValue hash buf =
      (finishValue hash { s with currItem := some (item.grown (buf.take item.neededBytes)) }
        (item.grown (buf.take item.neededBytes)) >>= fun s' => .ok (s', buf.drop item.neededBytes)) := by
  have hneeded := hx.receives.neededBytes_eq
  have hlen : (buf.take item.neededBytes).length = item.neededBytes := length_take_of_le hle
  have hroom : (received.length : Int) + (buf.take item.neededBytes).length ≤ item.valuelen := by
    omega
  have hgrown := (hx.receives.grown hroom).neededBytes_eq
  have hfull : (item.grown (buf.take item.neededBytes)).neededBytes = 0 := by
    rw [length_append] at hgrown
    have : (item.grown (buf.take item.neededBytes)).valuelen = item.valuelen := rfl
    omega
  rw [receiveValue_eq hx]
  dsimp only
  rw [if_pos hfull]

theorem round_effect {startTime : Int} (hs : s.Ready) :
    Outcome (fun r => Effect hash s buf r.1 r.2)
      (fun _ => ¬ (s.store.Sound hash ∧ SafeRound hash s buf)) (s.round hash startTime buf) := by
  unfold round
  cases hstate : s.state with
  | kNewCommand =>
    dsimp only
    unfold newCommand
    cases hcrlf : Buffer.searchCRLF buf with
    | none => exact .ok (.wait hstate hcrlf)
    | some len =>
      have hsafe : SafeRound hash s buf → Safe (buf.take len) := fun h =>
        h.line hstate len hcrlf
      refine Outcome.bind (outcome_check fun hlen h => ?_) fun _ _ => ?_
      · have hlong := (hsafe h.2).length
        have := Buffer.searchCRLF_le hcrlf
        rw [length_take_of_le (by omega)] at hlong
        exact hlen hlong
      refine Outcome.bind ((processRequest_spec (hs.fresh hstate) hs.needle).mono (fun _ h => h)
        fun _ h h' => h (hsafe h'.2)) fun r hr => .ok (.line hstate hcrlf hr)
  | kReceiveValue =>
    obtain ⟨item, key, received, hx⟩ := hs.receiving hstate
    have howed := hx.owed_eq hstate
    have hneeded := hx.receives.neededBytes_eq
    dsimp only
    obtain hlt | hle := Nat.lt_or_ge buf.length item.neededBytes
    · rw [receiveValue_of_lt hx hlt]
      exact .ok (.value hstate hx (howed ▸ hlt))
    · have hlen : (buf.take item.neededBytes).length = item.neededBytes := length_take_of_le hle
      have hfull : ((received ++ buf.take item.neededBytes).length : Int) = item.valuelen := by
        rw [length_append, hlen]
        omega
      have hsize : s.blockSize = item.valuelen := by
        rw [blockSize, hstate, hx.currItem]
        rfl
      have hmore := hx.more
      have hvalue : Outcome (fun r => Finishes hash s r.1 (received ++ buf.take item.neededBytes).length ∧
          r.2 = buf.drop item.neededBytes)
          (fun _ => ¬ (s.store.Sound hash ∧ SafeRound hash s buf)) (s.receiveValue hash buf) := by
        rw [receiveValue_of_le hx hle]
        exact Outcome.bind ((finishValue_spec hx hfull).mono (fun _ h => h)
          fun _ h h' => h ⟨h'.1, h'.2.value hstate⟩) fun s' hs' => .ok ⟨hs', rfl⟩
      refine Outcome.bind hvalue fun r hr => .ok ?_
      rw [hr.2, ← howed]
      exact .finish (by simp [hstate]) (by omega) (howed ▸ hle) (hfull.trans hsize.symm) hr.1
  | kDiscardValue =>
    obtain ⟨hitem, hpos⟩ := hs.discarding hstate
    have howed : s.owed = s.bytesToDiscard := by rw [owed, hstate]
    dsimp only
    unfold discardValue
    rw [check_of hitem, ok_bind]
    split
    · next hlt => exact .ok (.discard hstate hitem (howed ▸ hlt))
    · next hle =>
      have hsize : ((s.discarded + s.bytesToDiscard : Nat) : Int) = s.blockSize := by
        rw [blockSize, hstate]
        rfl
      rw [← howed] at hpos hle
      rw [← howed]
      refine .ok (.finish (by simp [hstate]) hpos (by omega) hsize
        ⟨rfl, ⟨rfl, rfl, rfl, rfl, rfl⟩, rfl, rfl, rfl, ?_, fun h _ => h⟩)
      rw [← howed]
      rfl

/-! ## what the rounds keep -/

theorem Awaits.ready {n : Int} (h : s.Awaits n) (hneedle : s.needle.valuelen = 2) : s.Ready := by
  cases h with
  | value hstate hitem hreceives hvaluelen hpos hle hpolicy =>
    refine ready_of_receiving hneedle hstate ⟨hitem, hreceives, ?_, by omega, by omega, hpolicy⟩
    rw [length_nil]
    omega
  | discard hstate hitem hbytes => exact ready_of_discarding hneedle hstate hitem (by omega)

theorem Awaits.size {n : Int} (h : s.Awaits n) :
    s.state ≠ .kNewCommand ∧ s.blockSize = n + 2 ∧ (s.owed : Int) = n + 2 := by
  cases h with
  | value hstate hitem hreceives hvaluelen hpos hle hpolicy =>
    have hneeded := hreceives.neededBytes_eq
    simp only [length_nil] at hneeded
    simp only [blockSize, owed, hstate, hitem, Option.map_some, Option.getD_some]
    exact ⟨nofun, hvaluelen, by omega⟩
  | discard hstate hitem hbytes hdiscarded hlt =>
    simp only [blockSize, owed, hstate, hdiscarded]
    exact ⟨nofun, by omega, hbytes⟩

theorem Receiving.grown (hx : s.Receiving item key received) (hlt : buf.length < item.neededBytes) :
    { s with currItem := some (item.grown buf) }.Receiving (item.grown buf) key (received ++ buf) := by
  have hneeded := hx.receives.neededBytes_eq
  have hroom : (received.length : Int) + buf.length ≤ item.valuelen := by omega
  refine ⟨rfl, hx.receives.grown hroom, ?_, hx.two, hx.le, hx.policy⟩
  have hlen : (item.grown buf).valuelen = item.valuelen := rfl
  rw [length_append, hlen]
  omega

variable {rest : Option (List UInt8)}

theorem Effect.ready (h : Effect hash s buf s' rest) (hs : s.Ready) : s'.Ready := by
  cases h with
  | line hstate hcrlf hanswers =>
    have hneedle := hanswers.frame.needle.trans hs.needle
    have heffect := hanswers.effect
    split at heffect
    · rw [heffect.1, if_neg Bool.false_ne_true]
      exact heffect.2.2.ready hneedle
    · rw [heffect.1, if_pos rfl]
      exact ready_of_fresh hneedle (heffect.2.trans hstate) ⟨rfl, rfl, rfl, rfl, rfl⟩
  | wait hstate hcrlf =>
    have hfresh := hs.fresh hstate
    split
    · exact ready_of_fresh hs.needle hstate { hfresh with }
    · exact hs
  | value hstate hreceiving hlt =>
    rw [hreceiving.owed_eq hstate] at hlt
    exact ready_of_receiving hs.needle hstate (hreceiving.grown hlt)
  | discard hstate hitem hlt =>
    rw [owed, hstate] at hlt
    exact ready_of_discarding hs.needle hstate hitem (Nat.sub_pos_of_lt hlt)
  | finish hstate hpos hle hsize hfinishes =>
    exact ready_of_fresh (hfinishes.needle.trans hs.needle) hfinishes.state hfinishes.fresh

/-- A round that does not leave the loop takes something from the buffer. -/
theorem Effect.length_lt {more : List UInt8} (h : Effect hash s buf s' (some more)) (hbuf : buf ≠ []) :
    more.length < buf.length := by
  have hpos := length_pos_of_ne_nil hbuf
  cases h with
  | line hstate hcrlf =>
    have hle := Buffer.searchCRLF_le hcrlf
    rw [length_drop]
    omega
  | value | discard => exact hpos
  | finish hstate howed hle =>
    rw [length_drop]
    omega

theorem Effect.sound (h : Effect hash s buf s' rest) (hsafe : SafeRound hash s buf)
    (hsound : s.store.Sound hash) (hs : s.Ready) : s'.store.Sound hash := by
  cases h with
  | line hstate hcrlf hanswers =>
    have hstore := hanswers.frame.sound hsound
    split <;> exact hstore
  | wait => split <;> exact hsound
  | value | discard => exact hsound
  | finish hstate hpos hle hsize hfinishes =>
    refine hfinishes.sound hsound ?_
    cases hstate' : s.state with
    | kNewCommand => contradiction
    | kReceiveValue => exact hsafe.value hstate'
    | kDiscardValue =>
      rw [fits, (hs.discarding hstate').1]

variable {startTime : Int}

variable (hash startTime) in
/-- The loop with enough fuel. -/
def drain (s : Session) (buf : List UInt8) : Except Fault (Session × List UInt8) :=
  loop hash startTime (buf.length + 1) s buf

theorem effect_of_round (hs : s.Ready) (hround : s.round hash startTime buf = .ok (s', rest)) :
    Effect hash s buf s' rest :=
  (round_effect hs).of_ok hround

theorem loop_eq_drain {fuel : Nat} (hs : s.Ready) (hfuel : buf.length < fuel) :
    loop hash startTime fuel s buf = s.drain hash startTime buf := by
  induction hn : buf.length using Nat.strong_induction_on generalizing fuel s buf with
  | _ n ih =>
    obtain ⟨fuel, rfl⟩ : ∃ k, fuel = k + 1 := ⟨fuel - 1, by omega⟩
    rw [drain, loop, loop]
    split
    · rfl
    · next hbuf =>
      cases hround : s.round hash startTime buf with
      | error e => rfl
      | ok r =>
        obtain ⟨s', rest⟩ := r
        cases rest with
        | none => rfl
        | some rest =>
          have heffect := effect_of_round hs hround
          have hlt := heffect.length_lt hbuf
          have hs' := heffect.ready hs
          calc loop hash startTime fuel s' rest
            _ = s'.drain hash startTime rest := ih rest.length (by omega) hs' (by omega) rfl
            _ = loop hash startTime buf.length s' rest :=
                (ih rest.length (by omega) hs' hlt rfl).symm

theorem drain_eq (hs : s.Ready) :
    s.drain hash startTime buf =
      if buf = [] then .ok (s, [])
      else s.round hash startTime buf >>= fun r => match r with
        | (s', none) => .ok (s', buf)
        | (s', some rest) => s'.drain hash startTime rest := by
  rw [drain, loop]
  split
  · rfl
  · next hbuf =>
    cases hround : s.round hash startTime buf with
    | error e => rfl
    | ok r =>
      obtain ⟨s', rest⟩ := r
      cases rest with
      | none => rfl
      | some rest =>
        have heffect := effect_of_round hs hround
        exact loop_eq_drain (heffect.ready hs) (heffect.length_lt hbuf)

end Muduo.Memcached.Session
