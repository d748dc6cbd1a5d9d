import Muduo.Memcached.Session.Contained

/-!
# Muduo.Memcached.Session.Replies

What a session sends in answer to a `get`.

A key that is too long, behind one that was found, leaves a block in `outputBuf_` that
is sent with the next answer.
-/

namespace Muduo.Memcached.Session

open Lib List

variable {hash : Key → Nat} {startTime : Int} {s s' : Session} {buf : List UInt8}

/-! ## the answer to a `get` -/

/-- The key of a line of `get` or `gets`, and whether it is `gets`. -/
def getKeys (line : List UInt8) : Option (Bool × List Key) :=
  match (parseRequest line).tokens with
  | [] => none
  | command :: toks =>
    if command.text = ascii "get" ∨ command.text = ascii "gets" then
      some (command.text = ascii "gets", toks.map Token.text)
    else none

variable (hash) in
/-- The block of a key, if it is in the store. -/
def valueBlock (store : Store) (cas : Bool) (key : Key) : List UInt8 :=
  match store.find hash key with
  | some item => item.output cas
  | none => []

variable (hash) in
/-- The answer to a `get` whose keys are short. -/
def getReply (store : Store) (cas : Bool) (keys : List Key) : List UInt8 :=
  keys.flatMap (valueBlock hash store cas) ++ ascii "END\r\n"

/-- The answer to a key that is too long. -/
def keyError : List UInt8 := ascii "CLIENT_ERROR bad command line format\r\n"

variable {cas : Bool} {toks : List Token}

theorem doGet_cons {key : Token} (hneedle : s.needle.valuelen = 2)
    (hkey : key.text.length ≤ kLongestKeySize) :
    doGet hash cas s (key :: toks) = doGet hash cas { s.withNeedle key.text with
      outputBuf := s.outputBuf ++ valueBlock hash s.store cas key.text } toks := by
  rw [doGet, if_pos hkey, resetNeedle_of_le hneedle hkey, ok_bind, key_withNeedle]
  dsimp only [withNeedle, Store.getItem]
  rw [valueBlock]
  cases s.store.find hash key.text with
  | none => rw [append_nil]
  | some item => rfl

theorem doGet_append {keys toks : List Token} (hneedle : s.needle.valuelen = 2)
    (hshort : ∀ key ∈ keys, key.text.length ≤ kLongestKeySize) :
    ∃ needle, doGet hash cas s (keys ++ toks) = doGet hash cas { s with
      needle
      outputBuf := s.outputBuf ++ keys.flatMap fun key => valueBlock hash s.store cas key.text } toks := by
  induction keys generalizing s with
  | nil => exact ⟨s.needle, by rw [nil_append, flatMap_nil, append_nil]⟩
  | cons key keys ih =>
    obtain ⟨needle, hloop⟩ := ih (s := { s.withNeedle key.text with
      outputBuf := s.outputBuf ++ valueBlock hash s.store cas key.text }) hneedle
      fun tok htok => hshort tok (mem_cons_of_mem _ htok)
    refine ⟨needle, ?_⟩
    rw [cons_append, doGet_cons hneedle (hshort key mem_cons_self), hloop, flatMap_cons,
      append_assoc]
    rfl

/-! ## the other requests -/

theorem outputBuf_send (s : Session) (msg : List UInt8) : (s.send msg).outputBuf = s.outputBuf := by
  unfold send
  split <;> rfl

theorem outputBuf_reply (s : Session) (msg : String) : (s.reply msg).outputBuf = s.outputBuf := by
  unfold reply
  split
  · rfl
  · exact outputBuf_send s _

theorem outputBuf_resetNeedle (key : Key) :
    Outcome (fun s' => s'.outputBuf = s.outputBuf) (fun _ => True) (s.resetNeedle key) := by
  unfold resetNeedle
  cases s.needle.resetKey key with
  | error e => exact .error trivial
  | ok needle => exact .ok rfl

theorem outputBuf_acceptUpdate (key : Key) (f : UpdateFields) :
    Outcome (fun s' => s'.outputBuf = s.outputBuf) (fun _ => True)
      (acceptUpdate hash startTime s key f) := by
  unfold acceptUpdate
  dsimp only
  split
  · refine Outcome.bind (outputBuf_resetNeedle key) fun s₁ hs₁ => ?_
    refine Outcome.bind (outcome_check fun _ => trivial) fun _ _ => .ok ?_
    exact hs₁.trans (outputBuf_reply _ _)
  · cases Item.makeItem key _ _ _ _ with
    | error e => exact .error trivial
    | ok item => exact .ok rfl

theorem outputBuf_doUpdate (toks : List Token) :
    Outcome (fun r => r.1.outputBuf = s.outputBuf) (fun _ => True) (s.doUpdate hash startTime toks) := by
  unfold doUpdate
  split
  · exact .error trivial
  · split
    · exact .error trivial
    · split
      · exact .ok (outputBuf_reply _ _)
      · exact Outcome.bind (outputBuf_acceptUpdate _ _) fun s₁ hs₁ => .ok hs₁

theorem outputBuf_doDelete (toks : List Token) :
    Outcome (fun s' => s'.outputBuf = s.outputBuf) (fun _ => True) (s.doDelete hash toks) := by
  cases toks with
  | nil => exact .error trivial
  | cons key toks =>
    rw [doDelete]
    split
    · exact .ok (outputBuf_reply _ _)
    · split
      · exact .ok (outputBuf_reply _ _)
      · exact Outcome.bind (outputBuf_resetNeedle _) fun s₁ hs₁ => .ok ((outputBuf_reply _ _).trans hs₁)

theorem outputBuf_doCommand (hget : ¬ (s.command = ascii "get" ∨ s.command = ascii "gets")) :
    Outcome (fun r => r.1.outputBuf = s.outputBuf) (fun _ => True)
      (s.doCommand hash startTime toks) := by
  unfold doCommand
  split
  · exact outputBuf_doUpdate toks
  split
  · exact Outcome.bind (outputBuf_doDelete toks) fun s₁ hs₁ => .ok hs₁
  split
  · exact .ok (outputBuf_reply _ _)
  split
  · exact .ok rfl
  split
  · exact .ok rfl
  · exact .ok (outputBuf_reply _ _)

theorem outputBuf_finishValue (item : Item) :
    Outcome (fun s' => s'.outputBuf = s.outputBuf) (fun _ => True) (finishValue hash s item) := by
  unfold finishValue
  dsimp only
  split
  · cases s.store.storeItem hash item s.policy with
    | error e => exact .error trivial
    | ok r => exact .ok (outputBuf_reply _ _)
  · exact .ok (outputBuf_reply _ _)

theorem outputBuf_round (hs : s.Ready)
    (hline : s.state = .kNewCommand → ∀ len ∈ Buffer.searchCRLF buf, getKeys (buf.take len) = none) :
    Outcome (fun r => r.1.outputBuf = s.outputBuf) (fun _ => True) (s.round hash startTime buf) := by
  unfold round
  cases hstate : s.state with
  | kNewCommand =>
    dsimp only
    unfold newCommand
    cases hcrlf : Buffer.searchCRLF buf with
    | none =>
      refine .ok ?_
      dsimp only
      split <;> rfl
    | some len =>
      have hkeys := hline hstate len hcrlf
      refine Outcome.bind (outcome_check fun _ => trivial) fun _ _ => ?_
      have hrequest : Outcome (fun r => r.1.outputBuf = s.outputBuf) (fun _ => True)
          (s.processRequest hash startTime (buf.take len)) := by
        rw [processRequest_of_fresh (hs.fresh hstate)]
        unfold getKeys at hkeys
        cases htokens : (parseRequest (buf.take len)).tokens with
        | nil => exact .ok (outputBuf_reply _ _)
        | cons command toks =>
          rw [htokens] at hkeys
          exact outputBuf_doCommand (s := s.opened (buf.take len) command.text) (by simpa [opened] using hkeys)
      refine Outcome.bind hrequest fun r hr => .ok ?_
      dsimp only
      split
      · exact hr
      · exact hr
  | kReceiveValue =>
    obtain ⟨item, key, received, hx⟩ := hs.receiving hstate
    have hvalue : Outcome (fun r => r.1.outputBuf = s.outputBuf) (fun _ => True)
        (s.receiveValue hash buf) := by
      rw [receiveValue_eq hx]
      dsimp only
      split
      · exact Outcome.bind (outputBuf_finishValue _) fun s₁ hs₁ => .ok hs₁
      · exact .ok rfl
    exact Outcome.bind hvalue fun r hr => .ok hr
  | kDiscardValue =>
    have hvalue : Outcome (fun r => r.1.outputBuf = s.outputBuf) (fun _ => True)
        (s.discardValue buf) := by
      unfold discardValue
      refine Outcome.bind (outcome_check fun _ => trivial) fun _ _ => ?_
      split
      · exact .ok rfl
      · exact .ok rfl
    exact Outcome.bind hvalue fun r hr => .ok hr

/-! ## clean lines -/

variable (hash) in
/-- The connection is up; and if a key is too long, then an error may be sent, and no key
in front of it is in the store. -/
def CleanGet (s : Session) (line : List UInt8) : Prop :=
  ∀ r ∈ getKeys line, s.connected = true ∧ ((∃ key ∈ r.2, kLongestKeySize < key.length) →
    (parseRequest line).noreply = false ∧
      ∀ key ∈ r.2.takeWhile (fun key => key.length ≤ kLongestKeySize), s.store.find hash key = none)

theorem doGet_of_short (hneedle : s.needle.valuelen = 2) (hconnected : s.connected = true)
    (hempty : s.outputBuf = [])
    (hshort : ∀ key ∈ toks.map Token.text, key.length ≤ kLongestKeySize) :
    ∃ s', doGet hash cas s toks = .ok s' ∧ s'.outputBuf = [] ∧
      s'.sent = s.sent ++ getReply hash s.store cas (toks.map Token.text) := by
  obtain ⟨needle, hloop⟩ : ∃ needle, doGet hash cas s (toks ++ []) = doGet hash cas { s with
      needle
      outputBuf := s.outputBuf ++ toks.flatMap fun key => valueBlock hash s.store cas key.text } [] :=
    doGet_append hneedle fun key hkey => hshort _ (mem_map_of_mem hkey)
  rw [append_nil, doGet, sendOutput, if_pos hconnected] at hloop
  refine ⟨_, hloop, rfl, ?_⟩
  rw [hempty, getReply, flatMap_map]
  rfl

theorem doGet_of_long (hneedle : s.needle.valuelen = 2) (hconnected : s.connected = true)
    (hreply : s.noreply = false) (hempty : s.outputBuf = [])
    (hlong : ∃ key ∈ toks.map Token.text, kLongestKeySize < key.length)
    (hnone : ∀ key ∈ (toks.map Token.text).takeWhile (fun key => key.length ≤ kLongestKeySize),
      s.store.find hash key = none) :
    ∃ s', doGet hash cas s toks = .ok s' ∧ s'.outputBuf = [] ∧ s'.sent = s.sent ++ keyError := by
  let short : Token → Bool := fun key => key.text.length ≤ kLongestKeySize
  have hsplit : toks.takeWhile short ++ toks.dropWhile short = toks := takeWhile_append_dropWhile
  have hblocks : (toks.takeWhile short).flatMap (fun key => valueBlock hash s.store cas key.text) = [] := by
    refine flatMap_eq_nil_iff.2 fun key hkey => ?_
    have hfind := hnone key.text (by
      rw [takeWhile_map]
      exact mem_map_of_mem hkey)
    rw [valueBlock, hfind]
  cases hdrop : toks.dropWhile short with
  | nil =>
    obtain ⟨key, hkey, hlt⟩ := hlong
    obtain ⟨tok, htok, rfl⟩ := mem_map.1 hkey
    have hle := dropWhile_eq_nil_iff.1 hdrop tok htok
    simp only [short, decide_eq_true_eq] at hle
    omega
  | cons key post =>
    have hkey : short key = false := by
      have hhead := List.head?_dropWhile_not short toks
      rw [hdrop] at hhead
      simpa using hhead
    obtain ⟨needle, hloop⟩ : ∃ needle, doGet hash cas s (toks.takeWhile short ++ key :: post) =
        doGet hash cas { s with
          needle
          outputBuf := s.outputBuf ++
            (toks.takeWhile short).flatMap fun key => valueBlock hash s.store cas key.text } (key :: post) :=
      doGet_append hneedle fun key hkey => by simpa [short] using mem_takeWhile_imp hkey
    rw [hdrop] at hsplit
    rw [hsplit, hblocks, append_nil, doGet, if_neg (by simpa [short] using hkey), reply] at hloop
    dsimp only at hloop
    rw [hreply, if_neg Bool.false_ne_true, send] at hloop
    dsimp only at hloop
    rw [if_pos hconnected] at hloop
    exact ⟨_, hloop, hempty, rfl⟩

variable (hash) in
/-- The bytes that may answer the line of a `get`. -/
def OwnAnswer (store : Store) (r : Bool × List Key) (answer : List UInt8) : Prop :=
  answer = keyError ∨ answer = getReply hash store r.1 r.2

theorem doCommand_get (hget : s.command = ascii "get" ∨ s.command = ascii "gets") :
    s.doCommand hash startTime toks =
      doGet hash (s.command = ascii "gets") s toks >>= fun s' => .ok (s', true) := by
  have hpolicy : ¬ (policyOf s.command).isSome := by
    obtain h | h := hget
    · rw [h]
      decide
    · rw [h]
      decide
  rw [doCommand, if_neg hpolicy, if_pos hget]
  rfl

theorem round_get {len : Nat} {r : Bool × List Key} (hs : s.Ready) (hstate : s.state = .kNewCommand)
    (hcrlf : Buffer.searchCRLF buf = some len) (hkeys : getKeys (buf.take len) = some r)
    (hempty : s.outputBuf = []) (hclean : CleanGet hash s (buf.take len)) :
    Outcome (fun r' => r'.1.outputBuf = [] ∧ ∃ answer, r'.1.sent = s.sent ++ answer ∧
        OwnAnswer hash s.store r answer)
      (fun _ => True) (s.round hash startTime buf) := by
  obtain ⟨line, hline⟩ : ∃ line, line = buf.take len := ⟨_, rfl⟩
  rw [← hline] at hkeys hclean
  obtain ⟨hconnected, hlong⟩ := hclean _ hkeys
  rw [round, hstate]
  dsimp only
  rw [newCommand, hcrlf]
  refine Outcome.bind (outcome_check fun _ => trivial) fun _ _ => ?_
  rw [← hline, processRequest_of_fresh (hs.fresh hstate)]
  unfold getKeys at hkeys
  cases htokens : (parseRequest line).tokens with
  | nil =>
    rw [htokens] at hkeys
    cases hkeys
  | cons command toks =>
    rw [htokens] at hkeys
    dsimp only at hkeys ⊢
    split at hkeys
    · next hget =>
      cases hkeys
      rw [doCommand_get (s := s.opened line command.text) hget]
      by_cases hall : ∀ key ∈ toks.map Token.text, key.length ≤ kLongestKeySize
      · obtain ⟨s', hdo, hout, hsent⟩ : ∃ s', doGet hash
            ((s.opened line command.text).command = ascii "gets") (s.opened line command.text) toks =
              .ok s' ∧ _ := doGet_of_short hs.needle hconnected hempty hall
        rw [hdo]
        exact .ok ⟨hout, _, hsent, .inr rfl⟩
      · have hany : ∃ key ∈ toks.map Token.text, kLongestKeySize < key.length := by simpa using hall
        obtain ⟨hnoreply, hnone⟩ := hlong hany
        obtain ⟨s', hdo, hout, hsent⟩ : ∃ s', doGet hash
            ((s.opened line command.text).command = ascii "gets") (s.opened line command.text) toks =
              .ok s' ∧ _ := doGet_of_long hs.needle hconnected hnoreply hempty hany hnone
        rw [hdo]
        exact .ok ⟨hout, _, hsent, .inl rfl⟩
    · cases hkeys

namespace Conn

variable {c c' : Conn}

/-- The line that the next round processes. -/
def nextLine (c : Conn) : Option (List UInt8) :=
  if c.calling.isSome ∧ c.session.state = .kNewCommand then
    (Buffer.searchCRLF c.input).map fun len => c.input.take len
  else none

variable (hash) in
/-- The condition on the state before a step. -/
def CleanStep (c : Conn) : Label → Prop
  | .message _ => True
  | .round => ∀ line ∈ c.nextLine, CleanGet hash c.session line

variable (hash startTime) in
/-- `outputBuf_` is empty when a line is processed, and what is sent in answer to a `get`
belongs to it. -/
def AnswersOwn (c : Conn) : Label → Prop
  | .message _ => True
  | .round => ∀ line ∈ c.nextLine, c.session.outputBuf = [] ∧
      ∀ r ∈ getKeys line, ∀ c', c.step hash startTime .round = .ok c' →
        ∃ answer, c'.session.sent = c.session.sent ++ answer ∧ OwnAnswer hash c.session.store r answer

structure Flushed (c : Conn) : Prop where
  ready : c.session.Ready
  empty : c.session.outputBuf = []

/-- A step is a round of the session, or the session stays as it is. -/
theorem session_of_step (hstep : c.step hash startTime .round = .ok c') :
    c'.session = c.session ∧ c.nextLine = none ∨
      c.calling.isSome ∧ ∃ rest, c.session.round hash startTime c.input = .ok (c'.session, rest) := by
  cases hcall : c.calling with
  | none =>
    rw [step_round_idle hcall] at hstep
    cases hstep
    exact .inl ⟨rfl, by rw [nextLine, hcall]; rfl⟩
  | some initial =>
    by_cases hinput : c.input = []
    · rw [step_round_nil hcall hinput] at hstep
      cases hstep
      refine .inl ⟨rfl, ?_⟩
      rw [nextLine, hinput]
      split <;> rfl
    · rw [step_round hcall hinput] at hstep
      refine .inr ⟨rfl, ?_⟩
      cases hround : c.session.round hash startTime c.input with
      | error e =>
        rw [hround] at hstep
        cases hstep
      | ok r =>
        obtain ⟨s, rest⟩ := r
        rw [hround] at hstep
        cases rest <;> (cases hstep; exact ⟨_, rfl⟩)

theorem nextLine_eq (hcall : c.calling.isSome) (hstate : c.session.state = .kNewCommand) :
    c.nextLine = (Buffer.searchCRLF c.input).map fun len => c.input.take len := by
  rw [nextLine, if_pos ⟨hcall, hstate⟩]

theorem Flushed.round {s : Session} {rest : Option (List UInt8)} (hc : c.Flushed)
    (hclean : CleanStep hash c .round) (hcall : c.calling.isSome)
    (hround : c.session.round hash startTime c.input = .ok (s, rest)) :
    s.outputBuf = [] ∧ ∀ line ∈ c.nextLine, ∀ r ∈ getKeys line,
      ∃ answer, s.sent = c.session.sent ++ answer ∧ OwnAnswer hash c.session.store r answer := by
  by_cases hget : ∃ line ∈ c.nextLine, ∃ r, getKeys line = some r
  · obtain ⟨line, hline, r, hr⟩ := hget
    have hstate : c.session.state = .kNewCommand := by
      unfold nextLine at hline
      split at hline
      · next h => exact h.2
      · cases hline
    have hnext := nextLine_eq hcall hstate
    obtain ⟨len, hcrlf, rfl⟩ := Option.map_eq_some_iff.1 (hnext.symm.trans hline)
    obtain ⟨hempty, answer, hsent, hown⟩ :=
      (round_get hc.ready hstate hcrlf hr hc.empty (hclean _ hline)).of_ok hround
    refine ⟨hempty, fun line' hline' r' hr' => ⟨answer, hsent, ?_⟩⟩
    obtain rfl : c.input.take len = line' := Option.some.inj (hline.symm.trans hline')
    obtain rfl : r = r' := Option.some.inj (hr.symm.trans hr')
    exact hown
  · have hnone : ∀ line ∈ c.nextLine, getKeys line = none := fun line hline =>
      Option.eq_none_iff_forall_ne_some.2 fun r hr => hget ⟨line, hline, r, hr⟩
    refine ⟨((outputBuf_round hc.ready fun hstate len hcrlf => ?_).of_ok hround).trans hc.empty,
      fun line hline r hr => absurd ⟨line, hline, r, hr⟩ hget⟩
    exact hnone _ (by rw [nextLine_eq hcall hstate, hcrlf]; rfl)

theorem Flushed.step {l : Label} (hc : c.Flushed) (hclean : CleanStep hash c l)
    (hstep : c.step hash startTime l = .ok c') : c'.Flushed := by
  cases l with
  | message data =>
    cases hcall : c.calling with
    | none =>
      rw [Conn.step, hcall] at hstep
      cases hstep
      exact { hc with }
    | some initial =>
      rw [Conn.step, hcall] at hstep
      cases hstep
      exact hc
  | round =>
    obtain ⟨hsession, -⟩ | ⟨hcall, rest, hround⟩ := session_of_step hstep
    · exact ⟨hsession ▸ hc.ready, hsession ▸ hc.empty⟩
    · exact ⟨(effect_of_round hc.ready hround).ready hc.ready, (hc.round hclean hcall hround).1⟩

/-- **A `get` is answered for itself.** In a run whose `get` lines are clean, `outputBuf_`
is empty whenever a line is processed, and each `get` is answered with an error or with
the blocks of its own keys. -/
theorem get_answers_own {store : Store} {labels : List Label}
    (hclean : Meets (step hash startTime) (CleanStep hash) (connect store) labels) :
    Meets (step hash startTime) (AnswersOwn hash startTime) (connect store) labels := by
  have hstart : (connect store).Flushed := ⟨ready_create store, rfl⟩
  refine Meets.of_invariant (fun _ _ _ hc ha hstep => Flushed.step hc ha hstep) (fun c l hc ha => ?_) hstart hclean
  cases l with
  | message data => trivial
  | round =>
    refine fun line hline => ⟨hc.empty, fun r hr c' hstep => ?_⟩
    obtain ⟨-, hnone⟩ | ⟨hcall, rest, hround⟩ := session_of_step hstep
    · rw [hnone] at hline
      cases hline
    · exact (hc.round ha hcall hround).2 line hline r hr

instance (s : Session) (line : List UInt8) : Decidable (CleanGet hash s line) :=
  inferInstanceAs (Decidable (∀ r ∈ getKeys line, _ ∧ _))

instance (c : Conn) : (l : Label) → Decidable (CleanStep hash c l)
  | .message _ => .isTrue trivial
  | .round => inferInstanceAs (Decidable (∀ line ∈ c.nextLine, CleanGet hash c.session line))

/-- A value is stored and asked for. -/
def storeAndGet : List Label :=
  [.message (ascii "set a 0 0 1\r\nx\r\nget a b\r\n"), .round, .round, .round]

theorem get_answers_own_storeAndGet :
    Meets (step (fun _ => 0) 0) (AnswersOwn (fun _ => 0) 0) (connect Store.create) storeAndGet :=
  get_answers_own (by decide +kernel)

/-- A `get` for a key that is there and one that is too long, and another `get`. -/
def getTooLong : List UInt8 :=
  ascii "set a 0 0 1\r\nx\r\nget a " ++ List.replicate 251 107 ++ ascii "\r\nget b\r\n"

/-- The block of the first `get` is sent with the answer to the second. -/
theorem get_answers_other :
    (run (step (fun _ => 0) 0) (connect Store.create)
        [.message getTooLong, .round, .round, .round]).map
          (fun c => (c.nextLine, c.session.outputBuf, c.session.sent)) =
      .ok (some (ascii "get b"), ascii "VALUE a 0 1\r\nx\r\n", ascii "STORED\r\n" ++ keyError) ∧
    (run (step (fun _ => 0) 0) (connect Store.create)
        [.message getTooLong, .round, .round, .round, .round]).map (fun c => c.session.sent) =
      .ok (ascii "STORED\r\n" ++ keyError ++ ascii "VALUE a 0 1\r\nx\r\nEND\r\n") := by
  refine ⟨?_, ?_⟩
  · decide +kernel
  · decide +kernel

end Conn

end Muduo.Memcached.Session
