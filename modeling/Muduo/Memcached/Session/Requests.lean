import Muduo.Memcached.Session
import Muduo.Memcached.Store

/-!
# Muduo.Memcached.Session.Requests

What a request line does to a session.
-/

namespace Muduo.Memcached

open Lib

variable {hash : Key → Nat}

/-! ## the store -/

variable (hash) in
/-- Every item of the store is complete. -/
def Store.Sound (s : Store) : Prop := ∀ key x, s.find hash key = some x → ∃ body, x.Holds key body

theorem Store.sound_create : Store.create.Sound hash := nofun

theorem Store.Sound.deleteItem {s : Store} (hs : s.Sound hash) (key : Key) :
    (s.deleteItem hash key).1.Sound hash := by
  intro key' x hx
  by_cases hkey : key' = key
  · subst hkey
    simp [Store.deleteItem, Store.find_erase_self] at hx
  · rw [Store.deleteItem, Store.find_erase_of_ne hkey] at hx
    exact hs key' x hx

theorem Store.find_replace {s : Store} {key key' : Key} {y : Item} (hy : y.key = key) (cas : Nat) :
    ({ s with gCas := cas }.setShard hash key
      (insertItem ((s.shards (shardOf hash key)).erase key) y)).find hash key' =
        if key' = key then some y else s.find hash key' := by
  have hnot : y.key ∉ (s.shards (shardOf hash key)).erase key := by
    simp [hy, AList.mem_erase]
  rw [find_setShard, insertItem, if_neg hnot, hy]
  by_cases hkey : key' = key
  · rw [if_pos hkey, hkey, if_pos rfl, AList.lookup_insert]
  · rw [if_neg hkey, AList.lookup_insert_ne hkey, AList.lookup_erase_ne hkey]
    split
    · next hshard => rw [find, hshard]
    · rfl

/-- One thread alone: `storeItem` returns, unless a combined value is too long. -/
theorem Store.Sound.storeItem {s : Store} (hs : s.Sound hash) (u : Update)
    (hfits : u.fits (s.find hash u.key)) :
    ∃ r, s.storeItem hash u.item u.policy = .ok r ∧ r.1.Sound hash := by
  let m : MapState := ⟨fun key => (s.find hash key).map Item.entry, s.gCas⟩
  rw [Store.storeItem, check_of u.holds.neededBytes_eq, ok_bind, u.holds.key_eq]
  dsimp only
  rw [admits_eq (m := m) rfl, ok_bind]
  cases hu : m.update u with
  | none => exact ⟨_, rfl, hs⟩
  | some e =>
    obtain ⟨y, hy, ⟨body, hbody⟩, -⟩ := newItem_spec (m := m) rfl (hs u.key) hu hfits
    rw [Option.isSome_some, if_pos rfl, hy, ok_bind]
    refine ⟨_, rfl, fun key x hx => ?_⟩
    rw [find_replace hbody.key_eq] at hx
    split at hx
    · next hkey =>
      cases hx
      exact ⟨body, hkey ▸ hbody⟩
    · exact hs key x hx

/-! ## items -/

namespace Item

variable {x : Item} {key received : List UInt8}

theorem resetKey_of_le (hvaluelen : x.valuelen = 2) (hkey : key.length ≤ kLongestKeySize) :
    x.resetKey key = .ok { x with keylen := key.length, data := key } := by
  have hneeded : key.length ≤ { x with keylen := key.length, data := [] }.neededBytes := by
    unfold kLongestKeySize at hkey
    simp only [neededBytes, totalLen, hvaluelen, sizeOfInt, List.length_nil]
    omega
  have htotal : (([] ++ key : List UInt8).length : Int) ≤
      { x with keylen := key.length, data := [] ++ key }.totalLen := by
    simp [totalLen, hvaluelen]
  rw [resetKey, check_of hkey, ok_bind, Item.append, check_of hneeded, ok_bind]
  dsimp only
  rw [check_of (by exact htotal)]
  rfl

theorem Receives.holds_of_endsWithCRLF (h : x.Receives key received)
    (htwo : 2 ≤ received.length) (hfull : (received.length : Int) = x.valuelen)
    (hlt : received.length < maxValue) (hcrlf : x.endsWithCRLF) : ∃ body, x.Holds key body := by
  obtain ⟨body, hbody⟩ : ∃ body, body = received.take (received.length - 2) := ⟨_, rfl⟩
  have hlen : body.length = received.length - 2 := by simp [hbody]
  have hreceived : received = body ++ crlf := by
    simp only [endsWithCRLF, decide_eq_true_eq, h.data, List.length_append] at hcrlf
    obtain ⟨-, hcr, hlf⟩ := hcrlf
    rw [List.getElem?_append_right (by omega)] at hcr hlf
    have htail : received.drop (received.length - 2) = crlf := by
      refine List.ext_getElem? fun i => ?_
      rw [List.getElem?_drop]
      rcases i with _ | _ | i
      · rw [← hcr.symm.trans (congrArg (received[·]?) (by omega))]; rfl
      · rw [← hlf.symm.trans (congrArg (received[·]?) (by omega))]; rfl
      · rw [List.getElem?_eq_none (by omega)]; rfl
    rw [hbody, ← htail, List.take_append_drop]
  exact ⟨body, (hreceived ▸ h).holds (by omega) (by omega)⟩

end Item

/-! ## replies and lookups -/

namespace Session

variable {s s' s'' : Session} {key : Key} {toks : List Token}

variable (hash) in
/-- What every request leaves alone. -/
structure Frame (s s' : Session) : Prop where
  needle : s'.needle.valuelen = s.needle.valuelen
  requests : s'.requests = s.requests
  blocks : s'.blocks = s.blocks
  sound : s.store.Sound hash → s'.store.Sound hash

variable (hash) in
/-- What a reply, a lookup and a deletion leave alone. -/
structure Keeps (s s' : Session) : Prop extends Frame hash s s' where
  state : s'.state = s.state
  policy : s'.policy = s.policy
  currItem : s'.currItem = s.currItem
  count : s'.count = s.count
  overread : s'.overread = s.overread

theorem Frame.trans (h : Frame hash s s') (h' : Frame hash s' s'') : Frame hash s s'' where
  needle := h'.needle.trans h.needle
  requests := h'.requests.trans h.requests
  blocks := h'.blocks.trans h.blocks
  sound := h'.sound ∘ h.sound

theorem Keeps.refl (s : Session) : Keeps hash s s :=
  ⟨⟨rfl, rfl, rfl, id⟩, rfl, rfl, rfl, rfl, rfl⟩

theorem Keeps.trans (h : Keeps hash s s') (h' : Keeps hash s' s'') : Keeps hash s s'' where
  toFrame := h.toFrame.trans h'.toFrame
  state := h'.state.trans h.state
  policy := h'.policy.trans h.policy
  currItem := h'.currItem.trans h.currItem
  count := h'.count.trans h.count
  overread := h'.overread.trans h.overread

theorem keeps_send (s : Session) (msg : List UInt8) : Keeps hash s (s.send msg) := by
  unfold send
  split
  · exact { Keeps.refl s with }
  · exact .refl s

theorem keeps_reply (s : Session) (msg : String) : Keeps hash s (s.reply msg) := by
  unfold reply
  split
  · exact .refl s
  · exact keeps_send s _

theorem keeps_outputBuf (s : Session) (buf : List UInt8) :
    Keeps hash s { s with outputBuf := buf } :=
  { Keeps.refl s with }

theorem keeps_sendOutput (s : Session) : Keeps hash s s.sendOutput := by
  unfold sendOutput
  split
  · exact { Keeps.refl s with }
  · exact .refl s

theorem keeps_deleteNeedle (s : Session) : Keeps hash s (s.deleteNeedle hash).1 :=
  { (Keeps.refl s : Keeps hash s s) with sound := fun hs => hs.deleteItem _ }

/-- The session after `needle_->resetKey(key)`. -/
def withNeedle (s : Session) (key : Key) : Session :=
  { s with needle := { s.needle with keylen := key.length, data := key } }

theorem key_withNeedle (s : Session) (key : Key) : (s.withNeedle key).needle.key = key :=
  List.take_length

theorem keeps_withNeedle (s : Session) (key : Key) : Keeps hash s (s.withNeedle key) :=
  { Keeps.refl s with }

theorem resetNeedle_of_le (hneedle : s.needle.valuelen = 2) (hkey : key.length ≤ kLongestKeySize) :
    s.resetNeedle key = .ok (s.withNeedle key) := by
  rw [resetNeedle, Item.resetKey_of_le hneedle hkey]
  rfl

theorem doGet_spec (cas : Bool) (toks : List Token) (hneedle : s.needle.valuelen = 2) :
    ∃ s', doGet hash cas s toks = .ok s' ∧ Keeps hash s s' := by
  induction toks generalizing s with
  | nil => exact ⟨_, rfl, (keeps_outputBuf s _).trans (keeps_sendOutput _)⟩
  | cons key toks ih =>
    rw [doGet]
    split
    · next hkey =>
      have hkeeps : Keeps hash s (s.withNeedle key.text) := keeps_withNeedle s _
      rw [resetNeedle_of_le hneedle hkey, ok_bind]
      cases (s.withNeedle key.text).store.getItem hash (s.withNeedle key.text).needle.key with
      | none =>
        obtain ⟨s', hs', hkeeps'⟩ := ih (s := s.withNeedle key.text) hneedle
        exact ⟨s', hs', hkeeps.trans hkeeps'⟩
      | some item =>
        have hout : Keeps hash (s.withNeedle key.text) { s.withNeedle key.text with
            outputBuf := s.outputBuf ++ item.output cas } := keeps_outputBuf _ _
        obtain ⟨s', hs', hkeeps'⟩ := ih (s := { s.withNeedle key.text with outputBuf := _ }) hneedle
        exact ⟨s', hs', (hkeeps.trans hout).trans hkeeps'⟩
    · exact ⟨_, rfl, keeps_reply s _⟩

theorem doDelete_spec (hneedle : s.needle.valuelen = 2) (htoks : toks ≠ []) :
    ∃ s', s.doDelete hash toks = .ok s' ∧ Keeps hash s s' := by
  cases toks with
  | nil => contradiction
  | cons key toks =>
    rw [doDelete]
    split
    · exact ⟨_, rfl, keeps_reply s _⟩
    · next hkey =>
      split
      · exact ⟨_, rfl, keeps_reply s _⟩
      · rw [resetNeedle_of_le hneedle (not_not.1 hkey), ok_bind]
        exact ⟨_, rfl, ((keeps_withNeedle s _).trans (keeps_deleteNeedle _)).trans (keeps_reply _ _)⟩

/-! ## requests -/

/-- The session waits for the value of an update, or drops it.  `n` is the byte count as
an `int`. -/
inductive Awaits (s : Session) (n : Int) : Prop
  | value {item : Item} {key : Key} (hstate : s.state = .kReceiveValue)
      (hitem : s.currItem = some item) (hreceives : item.Receives key [])
      (hvaluelen : item.valuelen = n + 2) (hpos : 0 ≤ n) (hle : n ≤ 1024 * 1024)
      (hpolicy : s.policy ≠ .kInvalid)
  | discard (hstate : s.state = .kDiscardValue) (hitem : s.currItem = none)
      (hbytes : (s.bytesToDiscard : Int) = n + 2) (hdiscarded : s.discarded = 0)
      (hlt : 1024 * 1024 < n)

/-- The byte counts that `doUpdate` reads as they are written. -/
def InRange (n : Int) : Prop := 0 ≤ n ∧ n ≤ 2 ^ 31 - 3

variable {startTime : Int} {policy : UpdatePolicy} {line : List UInt8}

theorem acceptUpdate_spec {f : UpdateFields} (hneedle : s.needle.valuelen = 2)
    (hitem : s.currItem = none) (hpolicy : s.policy ≠ .kInvalid)
    (hkey : key.length ≤ kLongestKeySize) :
    Outcome (fun s' => Frame hash s s' ∧ s'.overread = s.overread ∧ s'.count = f.bytes.number ∧
        s'.Awaits (intOfSize f.bytes.toULL))
      (fun _ => ¬ InRange f.bytes.number) (acceptUpdate hash startTime s key f) := by
  obtain ⟨n, hn⟩ : ∃ n, n = intOfSize f.bytes.toULL := ⟨_, rfl⟩
  have hrange : InRange f.bytes.number → n = f.bytes.number := fun h =>
    hn.trans (Numeral.intOfSize_toULL h.1 (by have := h.2; omega))
  unfold acceptUpdate
  rw [← hn]
  dsimp only
  clear hn
  split
  · next hbig =>
    obtain ⟨s₁, hs₁⟩ : ∃ s₁, s₁ = { s with count := f.bytes.number }.reply
      "SERVER_ERROR object too large for cache\r\n" := ⟨_, rfl⟩
    have hkeeps₁ : Keeps hash { s with count := f.bytes.number } s₁ := hs₁ ▸ keeps_reply _ _
    have hkeeps : Keeps hash { s with count := f.bytes.number } ((s₁.withNeedle key).deleteNeedle hash).1 :=
      (hkeeps₁.trans (keeps_withNeedle _ _)).trans (keeps_deleteNeedle _)
    rw [← hs₁, resetNeedle_of_le (hkeeps₁.needle.trans hneedle) hkey, ok_bind]
    refine Outcome.bind (outcome_check fun hover hin => ?_) fun _ hlt => .ok ?_
    · have := hin.2
      have := hrange hin
      omega
    · have hbytes : ((sizeOfInt (n + 2) : Nat) : Int) = n + 2 := by
        unfold sizeOfInt
        omega
      exact ⟨{ hkeeps.toFrame with }, hkeeps.overread, hkeeps.count,
        .discard rfl (hkeeps.currItem.trans hitem) hbytes rfl hbig⟩
  · next hsmall =>
    by_cases hpos : 0 ≤ n
    · obtain ⟨item, hmake, hreceives, -, -, hvaluelen, -⟩ := Item.makeItem_spec hkey
        (UInt32.ofNat f.flags.toULL) (relExptime startTime (timeOfULL f.exptime.toULL))
        (show 2 ≤ n + 2 by omega) (by rw [Item.maxValue_eq]; omega) ((f.cas.map Numeral.toULL).getD 0)
      rw [hmake]
      exact .ok ⟨⟨rfl, rfl, rfl, id⟩, rfl, rfl, .value rfl rfl hreceives hvaluelen hpos (by omega) hpolicy⟩
    · have hnot : ¬ InRange f.bytes.number := fun hin => hpos (hrange hin ▸ hin.1)
      have hmake : Item.makeItem key (UInt32.ofNat f.flags.toULL)
          (relExptime startTime (timeOfULL f.exptime.toULL)) (n + 2) ((f.cas.map Numeral.toULL).getD 0) =
            .error .itemValuelen := by
        rw [Item.makeItem]
        dsimp only
        rw [check_of_not (by omega)]
        rfl
      rw [hmake]
      exact .error hnot

theorem doUpdate_spec {key : Token} (hneedle : s.needle.valuelen = 2) (hitem : s.currItem = none)
    (hpolicy : policyOf s.command = some policy) :
    Outcome (fun r => Frame hash s r.1 ∧ match readFields policy key.text toks with
        | .error e => r.2 = true ∧ r.1.state = s.state ∧
            r.1.overread = (s.overread || e = .overread)
        | .ok f => r.2 = false ∧ r.1.overread = s.overread ∧ r.1.count = f.bytes.number ∧
            r.1.Awaits (intOfSize f.bytes.toULL))
      (fun _ => ∃ f, readFields policy key.text toks = .ok f ∧ ¬ InRange f.bytes.number)
      (s.doUpdate hash startTime (key :: toks)) := by
  unfold doUpdate
  rw [hpolicy]
  dsimp only
  cases hfields : readFields policy key.text toks with
  | error e =>
    have hkeeps : Keeps hash { s with policy, overread := s.overread || e = .overread } _ :=
      keeps_reply _ "CLIENT_ERROR bad command line format\r\n"
    exact .ok ⟨{ hkeeps.toFrame with }, rfl, hkeeps.state, hkeeps.overread⟩
  | ok f =>
    have haccept : Outcome _ _ (acceptUpdate hash startTime { s with policy } key.text f) :=
      acceptUpdate_spec hneedle hitem (policyOf_ne_kInvalid hpolicy) (key_le_of_readFields hfields)
    refine Outcome.bind (haccept.mono (fun _ h => h) fun e he => ⟨f, rfl, he⟩) fun s' hs' => .ok ?_
    exact ⟨{ hs'.1 with }, rfl, hs'.2⟩

theorem doCommand_of_none (hneedle : s.needle.valuelen = 2) (hpolicy : policyOf s.command = none)
    (hdelete : s.command = ascii "delete" → toks ≠ []) :
    ∃ s', s.doCommand hash startTime toks = .ok (s', true) ∧ Keeps hash s s' := by
  rw [doCommand, hpolicy, Option.isSome_none, if_neg Bool.false_ne_true]
  split
  · obtain ⟨s', hs', hkeeps⟩ : ∃ s', doGet hash (s.command = ascii "gets") s toks = .ok s' ∧
        Keeps hash s s' := doGet_spec _ toks hneedle
    exact ⟨s', by rw [hs']; rfl, hkeeps⟩
  split
  · next hcommand =>
    obtain ⟨s', hs', hkeeps⟩ : ∃ s', s.doDelete hash toks = .ok s' ∧ Keeps hash s s' :=
      doDelete_spec hneedle (hdelete hcommand)
    exact ⟨s', by rw [hs']; rfl, hkeeps⟩
  split
  · exact ⟨_, rfl, keeps_reply s _⟩
  split
  · exact ⟨_, rfl, { Keeps.refl s with }⟩
  split
  · exact ⟨_, rfl, { Keeps.refl s with }⟩
  · exact ⟨_, rfl, keeps_reply s _⟩

theorem doCommand_delete_nil (hcommand : s.command = ascii "delete") :
    s.doCommand hash startTime [] = .error .endIterator := by
  have hpolicy : ¬ (policyOf s.command).isSome := by rw [hcommand]; decide
  have hget : ¬ (s.command = ascii "get" ∨ s.command = ascii "gets") := by rw [hcommand]; decide
  rw [doCommand, if_neg hpolicy, if_neg hget, if_pos hcommand]
  rfl

theorem doCommand_update (hpolicy : policyOf s.command = some policy) :
    s.doCommand hash startTime toks = s.doUpdate hash startTime toks := by
  rw [doCommand, if_pos (by rw [hpolicy]; rfl)]

theorem doUpdate_nil (hpolicy : policyOf s.command = some policy) :
    s.doUpdate hash startTime [] = .error .endIterator := by
  rw [doUpdate, hpolicy]

/-- A line that does not make the session fail. -/
structure Safe (line : List UInt8) : Prop where
  length : line.length < 2 ^ 31
  key : lacksKey line = false
  count : ∀ n ∈ writtenCount line, InRange n

variable (hash) in
/-- What a request line does. -/
structure Answers (s : Session) (line : List UInt8) (s' : Session) (finished : Bool) : Prop where
  frame : Frame hash { s with requests := s.requests ++ [line] } s'
  overread : s'.overread = (s.overread || overreads line)
  effect : match lineFields line with
    | some (.ok f) => finished = false ∧ s'.count = f.bytes.number ∧
        s'.Awaits (intOfSize f.bytes.toULL)
    | _ => finished = true ∧ s'.state = s.state

/-- Between two requests. -/
structure Fresh (s : Session) : Prop where
  command : s.command = []
  noreply : s.noreply = false
  policy : s.policy = .kInvalid
  currItem : s.currItem = none
  bytesToDiscard : s.bytesToDiscard = 0

/-- The session when the command of a line has been read. -/
def opened (s : Session) (line command : List UInt8) : Session :=
  { s with
    requestsProcessed := s.requestsProcessed + 1
    requests := s.requests ++ [line]
    noreply := (parseRequest line).noreply
    command }

theorem processRequest_of_fresh (hfresh : s.Fresh) :
    s.processRequest hash startTime line = match (parseRequest line).tokens with
      | [] => .ok ((s.opened line s.command).reply "ERROR\r\n", true)
      | command :: toks => (s.opened line command.text).doCommand hash startTime toks := by
  unfold processRequest
  rw [check_of hfresh.command, ok_bind, check_of hfresh.noreply, ok_bind, check_of hfresh.policy,
    ok_bind, check_of hfresh.currItem, ok_bind, check_of hfresh.bytesToDiscard, ok_bind]
  dsimp only
  cases (parseRequest line).tokens <;> rfl

theorem Keeps.answers {line command : List UInt8} (hkeeps : Keeps hash (s.opened line command) s')
    (hfields : lineFields line = none) : Answers hash s line s' true where
  frame := { hkeeps.toFrame with }
  overread := by
    rw [overreads, hfields, Bool.or_false]
    exact hkeeps.overread
  effect := by
    rw [hfields]
    exact ⟨rfl, hkeeps.state⟩

theorem lineFields_of_policyOf_none {command : Token}
    (htokens : (parseRequest line).tokens = command :: toks)
    (hpolicy : policyOf command.text = none) : lineFields line = none := by
  cases toks with
  | nil => exact lineFields_of_short (by simp [htokens])
  | cons key toks => rw [lineFields_of_tokens htokens, hpolicy, Option.map_none]

theorem processRequest_spec (hfresh : s.Fresh) (hneedle : s.needle.valuelen = 2) :
    Outcome (fun r => Answers hash s line r.1 r.2) (fun _ => ¬ Safe line)
      (s.processRequest hash startTime line) := by
  have hlacks : lacksKey line = true → ¬ Safe line := fun h hsafe =>
    Bool.false_ne_true (hsafe.key.symm.trans h)
  rw [processRequest_of_fresh hfresh]
  match htokens : (parseRequest line).tokens with
  | [] => exact .ok ((keeps_reply _ _).answers (lineFields_of_short (by simp [htokens])))
  | command :: toks =>
    dsimp only
    cases hpolicy : policyOf command.text with
    | none =>
      by_cases hdelete : command.text = ascii "delete" → toks ≠ []
      · obtain ⟨s', hs', hkeeps⟩ : ∃ s', (s.opened line command.text).doCommand hash startTime toks =
            .ok (s', true) ∧ Keeps hash (s.opened line command.text) s' :=
          doCommand_of_none hneedle hpolicy hdelete
        rw [hs']
        exact .ok (hkeeps.answers (lineFields_of_policyOf_none htokens hpolicy))
      · obtain ⟨hcommand, rfl⟩ : command.text = ascii "delete" ∧ toks = [] := by simpa using hdelete
        have hlack : lacksKey line = true := by
          rw [lacksKey, htokens]
          simp [hcommand]
        rw [doCommand_delete_nil hcommand]
        exact .error (hlacks hlack)
    | some policy =>
      rw [doCommand_update hpolicy]
      cases toks with
      | nil =>
        have hlack : lacksKey line = true := by
          rw [lacksKey, htokens]
          simp [hpolicy]
        rw [doUpdate_nil hpolicy]
        exact .error (hlacks hlack)
      | cons key toks =>
        have hfields : lineFields line = some (readFields policy key.text toks) := by
          rw [lineFields_of_tokens htokens, hpolicy, Option.map_some]
        refine (doUpdate_spec (s := s.opened line command.text) hneedle hfresh.currItem hpolicy).mono
          (fun r hr => ?_) fun _ he hsafe => ?_
        · obtain ⟨hframe, heffect⟩ := hr
          cases hread : readFields policy key.text toks with
          | error e =>
            rw [hread] at heffect
            refine ⟨{ hframe with }, ?_, ?_⟩
            · rw [heffect.2.2, overreads, hfields, hread]
              cases e <;> rfl
            · rw [hfields, hread]
              exact ⟨heffect.1, heffect.2.1⟩
          | ok f =>
            rw [hread] at heffect
            refine ⟨{ hframe with }, ?_, ?_⟩
            · rw [heffect.2.1, overreads, hfields, hread, Bool.or_false]
              rfl
            · rw [hfields, hread]
              exact ⟨heffect.1, heffect.2.2⟩
        · obtain ⟨f, hf, hnot⟩ := he
          exact hnot (hsafe.count _ (by simp [writtenCount, hfields, hf]))

end Session

end Muduo.Memcached
