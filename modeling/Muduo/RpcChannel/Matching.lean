import Muduo.RpcChannel

/-!
# Muduo.RpcChannel.Matching

A channel on its own, whatever messages arrive: each REQUEST gets one RESPONSE, and
each call is completed at most once, by a RESPONSE that bears its id.
-/

namespace Muduo.RpcChannel

open Lib List Function

/-! ## the side of the server -/

/-- The RESPONSE is the one that the REQUEST `m` asks for: the response of the method,
or the error code of the first test that fails. -/
def Reply.Answers (r : Reply) (services : Option ServiceMap) (m : RpcMessage) : Prop :=
  match r.result with
  | some response => errorOf services m = .NO_ERROR ∧ r.message = doneReply m.id response
  | none => errorOf services m ≠ .NO_ERROR ∧ r.message = errorReply m.id (errorOf services m)

/-- The assertion of `onRpcMessage`. -/
def HasResult (m : RpcMessage) : Prop :=
  m.type = .RESPONSE → m.response.isSome ∨ m.error.isSome

section
variable {r : Reply} {services : Option ServiceMap} {m : RpcMessage}

theorem Reply.Answers.id_eq (h : r.Answers services m) : r.message.id = m.id := by
  unfold Reply.Answers at h
  split at h <;> rw [h.2] <;> rfl

theorem Reply.Answers.hasResult (h : r.Answers services m) : HasResult r.message := by
  unfold Reply.Answers at h
  split at h <;> simp [HasResult, h.2, doneReply, errorReply]

end

/-- The messages that have arrived. -/
def received (log : List Event) : List RpcMessage :=
  log.filterMap fun
    | .registered _ => none
    | .received m _ => some m

theorem received_append (log log' : List Event) :
    received (log ++ log') = received log ++ received log' := filterMap_append

/-- Every REQUEST has one RESPONSE, or a closure that has not been invoked. -/
structure Serves (s : RpcChannel) : Prop where
  requests_eq : s.requests = (received s.log).filter (·.type = .REQUEST)
  responses_eq : s.sent.filter (·.type = .RESPONSE) = s.replies.map (·.message)
  one_each : (s.replies.map (·.request) ++ s.closures.map (·.request)).Perm
    (List.range s.requests.length)
  answers : ∀ r ∈ s.replies, ∃ m, s.requests[r.request]? = some m ∧ r.Answers s.services m
  closures : ∀ closure ∈ s.closures, ∃ m, s.requests[closure.request]? = some m ∧
    closure.id = m.id ∧ errorOf s.services m = .NO_ERROR

theorem serves_create (services : Option ServiceMap) : (create services).Serves where
  requests_eq := rfl
  responses_eq := rfl
  one_each := .nil
  answers := fun _ hr => absurd hr not_mem_nil
  closures := fun _ hc => absurd hc not_mem_nil

section
variable {s : RpcChannel}

theorem Serves.congr (h : s.Serves) {s' : RpcChannel} (hservices : s'.services = s.services)
    (hrequests : s'.requests = s.requests) (hreplies : s'.replies = s.replies)
    (hclosures : s'.closures = s.closures) (hlog : (received s'.log).filter (·.type = .REQUEST) =
      (received s.log).filter (·.type = .REQUEST))
    (hsent : s'.sent.filter (·.type = .RESPONSE) = s.sent.filter (·.type = .RESPONSE)) :
    s'.Serves where
  requests_eq := by rw [hrequests, hlog]; exact h.requests_eq
  responses_eq := by rw [hsent, hreplies]; exact h.responses_eq
  one_each := by rw [hreplies, hclosures, hrequests]; exact h.one_each
  answers := by rw [hreplies, hrequests, hservices]; exact h.answers
  closures := by rw [hclosures, hrequests, hservices]; exact h.closures

theorem Serves.exists_reply (h : s.Serves) {m : RpcMessage} (hm : m ∈ s.sent)
    (htype : m.type = .RESPONSE) :
    ∃ r ∈ s.replies, r.message = m ∧ ∃ q ∈ s.requests, r.Answers s.services q := by
  have hreply : m ∈ s.replies.map (·.message) := by
    rw [← h.responses_eq]
    exact mem_filter.mpr ⟨hm, by simp [htype]⟩
  obtain ⟨r, hr, heq⟩ := mem_map.mp hreply
  obtain ⟨q, hq, hanswers⟩ := h.answers r hr
  exact ⟨r, hr, heq, q, mem_of_getElem? hq, hanswers⟩

theorem getElem?_append_some {α : Type} {l : List α} {i : Nat} {a : α} (h : l[i]? = some a)
    (l' : List α) : (l ++ l')[i]? = some a := by
  obtain ⟨hlt, -⟩ := List.getElem?_eq_some_iff.mp h
  rw [List.getElem?_append_left hlt, h]

/-- **A REQUEST** is answered at once, or leads to a closure. -/
theorem Serves.onRequest (h : s.Serves) {m : RpcMessage} (hm : m.type = .REQUEST) :
    (s.onRequest m).Serves := by
  have hrequests : s.requests ++ [m] =
      (received (s.log ++ [.received m []])).filter (·.type = .REQUEST) := by
    rw [received_append, filter_append, ← h.requests_eq]
    simp [received, hm]
  have hanswers : ∀ r ∈ s.replies, ∃ m', (s.requests ++ [m])[r.request]? = some m' ∧
      r.Answers s.services m' := by
    intro r hr
    obtain ⟨m', hm', hanswers⟩ := h.answers r hr
    exact ⟨m', getElem?_append_some hm' _, hanswers⟩
  have hclosures : ∀ closure ∈ s.closures, ∃ m', (s.requests ++ [m])[closure.request]? = some m' ∧
      closure.id = m'.id ∧ errorOf s.services m' = .NO_ERROR := by
    intro closure hc
    obtain ⟨m', hm', hclosure⟩ := h.closures closure hc
    exact ⟨m', getElem?_append_some hm' _, hclosure⟩
  have hnew : (s.requests ++ [m])[s.requests.length]? = some m := by simp
  have hperm := h.one_each.append_right [s.requests.length]
  rw [← range_succ, append_assoc] at hperm
  unfold RpcChannel.onRequest
  by_cases herror : errorOf s.services m = .NO_ERROR
  · simp only [herror, if_true]
    refine ⟨hrequests, h.responses_eq, ?_, hanswers, ?_⟩
    · simpa using hperm
    · intro closure hc
      obtain hc | hc := mem_append.mp hc
      · exact hclosures closure hc
      · obtain rfl := mem_singleton.mp hc
        exact ⟨m, hnew, rfl, herror⟩
  · simp only [if_neg herror]
    refine ⟨hrequests, ?_, ?_, ?_, hclosures⟩
    · simp [reply, h.responses_eq, errorReply]
    · have hcomm : ([s.requests.length] ++ s.closures.map (·.request)).Perm
          (s.closures.map (·.request) ++ [s.requests.length]) := perm_append_comm
      simpa [reply] using (hcomm.append_left (s.replies.map (·.request))).trans hperm
    · intro r hr
      obtain hr | hr := mem_append.mp hr
      · exact hanswers r hr
      · obtain rfl := mem_singleton.mp hr
        exact ⟨m, hnew, herror, rfl⟩

/-- **A closure** sends the RESPONSE for its REQUEST, and is gone. -/
theorem Serves.doneCallback (h : s.Serves) {closure : Closure} (hc : closure ∈ s.closures)
    (response : Bytes) : (s.doneCallback closure response).Serves := by
  obtain ⟨m, hm, hid, herror⟩ := h.closures closure hc
  refine ⟨h.requests_eq, ?_, ?_, ?_, fun c' hc' => h.closures c' (mem_of_mem_erase hc')⟩
  · simp [RpcChannel.doneCallback, reply, h.responses_eq, doneReply]
  · have herase := ((perm_cons_erase hc).map (·.request)).symm.append_left
      (s.replies.map (·.request))
    simpa [RpcChannel.doneCallback, reply] using herase.trans h.one_each
  · intro r hr
    obtain hr | hr := mem_append.mp hr
    · exact h.answers r hr
    · obtain rfl := mem_singleton.mp hr
      exact ⟨m, hm, herror, by rw [hid]⟩

end

/-! ## the side of the client -/

/-- The call number `c`, which has the id `id`, has been registered, and since then no
RESPONSE with that id has arrived. -/
def awaits (c id : Nat) (log : List Event) : Bool :=
  log.foldl (fun b e => match e with
    | .registered c' => b || c' = c
    | .received m _ => b && !(m.type = .RESPONSE && m.id = id)) false

/-- What has been done with the objects of the calls. -/
def effects (log : List Event) : List Effect :=
  log.flatMap fun
    | .registered _ => []
    | .received _ es => es

/-- A call is completed at most once, by a RESPONSE with its id. -/
structure Completes (s : RpcChannel) : Prop where
  /-- `outstandings_` are the calls that have not been answered. -/
  outstanding : ∀ id out, s.outstandings.lookup id = some out ↔
    ∃ c k, s.calls[c]? = some k ∧ k.id = id ∧ awaits c k.id s.log = true ∧ out = k.out c
  once : ∀ c, (effects s.log).count (.ran c) ≤ 1
  /-- The closure is run on a RESPONSE with the id of its call, and behind the filling
  of the response object. -/
  own : ∀ m es c, .received m es ∈ s.log → .ran c ∈ es → m.type = .RESPONSE ∧
    (∃ k, s.calls[c]? = some k ∧ k.id = m.id) ∧
    es = m.response.toList.map (.filled c) ++ [.ran c, .deleted c]

/-- A RESPONSE with an id that no call waits for changes nothing. -/
def IgnoresStrays (s : RpcChannel) : Prop :=
  ∀ m, m.type = .RESPONSE → m.response.isSome ∨ m.error.isSome →
    (∀ c k, s.calls[c]? = some k → k.id = m.id → awaits c k.id s.log = false) →
    s.onRpcMessage m = .ok { s with log := s.log ++ [.received m []] }

variable {k : Call}

section
variable {c id : Nat} {log : List Event}

@[simp] theorem awaits_registered (c' : Nat) :
    awaits c id (log ++ [.registered c']) = (awaits c id log || c' = c) := by
  simp [awaits]

@[simp] theorem awaits_received (m : RpcMessage) (es : List Effect) :
    awaits c id (log ++ [.received m es]) =
      (awaits c id log && !(m.type = .RESPONSE && m.id = id)) := by
  simp [awaits]

@[simp] theorem effects_registered (c' : Nat) : effects (log ++ [.registered c']) = effects log := by
  simp [effects]

@[simp] theorem effects_received (m : RpcMessage) (es : List Effect) :
    effects (log ++ [.received m es]) = effects log ++ es := by
  simp [effects]

/-- The closure of a call is run for its own RESPONSE only, and then once. -/
theorem ran_mem_complete {m : RpcMessage} {c c' : Nat} (h : .ran c' ∈ complete m (k.out c)) :
    c' = c ∧ complete m (k.out c) = m.response.toList.map (.filled c) ++ [.ran c, .deleted c] := by
  unfold complete Call.out at *
  cases hresponse : k.response with
  | false => simp [hresponse] at h
  | true =>
    cases hdone : k.done with
    | false => simp [hresponse, hdone] at h
    | true =>
      simp only [hresponse, hdone, if_true, Option.toList_some, map_cons, map_nil] at h
      simp at h
      simp [h]

theorem count_complete (m : RpcMessage) (k : Call) (c c' : Nat) :
    (complete m (k.out c)).count (.ran c') ≤ if c' = c then 1 else 0 := by
  by_cases hmem : Effect.ran c' ∈ complete m (k.out c)
  · obtain ⟨rfl, heq⟩ := ran_mem_complete hmem
    rw [heq, if_pos rfl]
    cases m.response <;> simp
  · rw [count_eq_zero.mpr hmem]
    exact Nat.zero_le _

end

structure ClientInv (s : RpcChannel) : Prop extends s.Completes where
  count : s.id = s.calls.length
  ids : ∀ c k, s.calls[c]? = some k → k.id = c + 1
  fresh : ∀ c, s.calls.length ≤ c → s.stage c = .drawn
  drawn : ∀ c, s.stage c = .drawn →
    (∀ id, awaits c id s.log = false) ∧ (effects s.log).count (.ran c) = 0
  waiting : ∀ c k, s.calls[c]? = some k → awaits c k.id s.log = true →
    (effects s.log).count (.ran c) = 0

theorem clientInv_create (services : Option ServiceMap) : (create services).ClientInv where
  count := rfl
  ids := by simp [create]
  fresh := fun _ _ => rfl
  drawn := fun _ _ => ⟨fun _ => rfl, rfl⟩
  waiting := by simp [create]
  outstanding := by simp [create]
  once := fun _ => Nat.zero_le _
  own := fun _ _ _ hm => absurd hm not_mem_nil

section
variable {s : RpcChannel}

theorem ClientInv.congr (h : s.ClientInv) {s' : RpcChannel} (hid : s'.id = s.id)
    (hcalls : s'.calls = s.calls) (hstage : s'.stage = s.stage)
    (houtstandings : s'.outstandings = s.outstandings) (hlog : s'.log = s.log) : s'.ClientInv where
  outstanding := by rw [houtstandings, hcalls, hlog]; exact h.outstanding
  once := by rw [hlog]; exact h.once
  own := by rw [hcalls, hlog]; exact h.own
  count := by rw [hid, hcalls]; exact h.count
  ids := by rw [hcalls]; exact h.ids
  fresh := by rw [hcalls, hstage]; exact h.fresh
  drawn := by rw [hstage, hlog]; exact h.drawn
  waiting := by rw [hcalls, hlog]; exact h.waiting

theorem ClientInv.id_eq_iff (h : s.ClientInv) {c c' : Nat} {k k' : Call}
    (hk : s.calls[c]? = some k) (hk' : s.calls[c']? = some k') : k'.id = k.id ↔ c' = c := by
  rw [h.ids c k hk, h.ids c' k' hk']
  omega

theorem ClientInv.inj (h : s.ClientInv) {c c' : Nat} {k k' : Call} (hk : s.calls[c]? = some k)
    (hk' : s.calls[c']? = some k') (hid : k'.id = k.id) : c' = c ∧ k' = k := by
  obtain rfl := (h.id_eq_iff hk hk').mp hid
  exact ⟨rfl, Option.some.inj (hk'.symm.trans hk)⟩

/-- A call that has an entry in the log is not only drawn. -/
theorem ClientInv.stage_ne_drawn (h : s.ClientInv) {c id : Nat} (hawaits : awaits c id s.log = true) :
    s.stage c ≠ .drawn := by
  intro hstage
  rw [(h.drawn c hstage).1 id] at hawaits
  exact Bool.false_ne_true hawaits

theorem ClientInv.fresh_update (h : s.ClientInv) {c : Nat} (hk : s.calls[c]? = some k)
    (stage : Stage) (c' : Nat) (hc' : s.calls.length ≤ c') : update s.stage c stage c' = .drawn := by
  obtain ⟨hlt, -⟩ := List.getElem?_eq_some_iff.mp hk
  rw [update_of_ne (by omega)]
  exact h.fresh c' hc'

/-- **The id of a new call** is used by no other call. -/
theorem ClientInv.callMethod (h : s.ClientInv) (service method request : Bytes)
    (response done : Bool) : (s.callMethod service method request response done).ClientInv := by
  have hnew : s.stage s.calls.length = .drawn := h.fresh _ le_rfl
  -- an old call is not the new one, for which nothing has happened
  have hold : ∀ c k, (s.callMethod service method request response done).calls[c]? = some k →
      awaits c k.id s.log = true → s.calls[c]? = some k := by
    intro c k hk hawaits
    have hc : c ≠ s.calls.length := fun hc => h.stage_ne_drawn hawaits (hc ▸ hnew)
    unfold RpcChannel.callMethod at hk
    grind
  refine ⟨⟨?_, h.once, ?_⟩, ?_, ?_, ?_, h.drawn, ?_⟩
  · intro id out
    rw [show (s.callMethod service method request response done).outstandings = s.outstandings from rfl,
      h.outstanding id out]
    constructor
    · rintro ⟨c, k, hk, hrest⟩
      exact ⟨c, k, getElem?_append_some hk _, hrest⟩
    · rintro ⟨c, k, hk, hid, hawaits, hout⟩
      exact ⟨c, k, hold c k hk hawaits, hid, hawaits, hout⟩
  · intro m es c hm hc
    obtain ⟨htype, ⟨k, hk, hid⟩, hes⟩ := h.own m es c hm hc
    exact ⟨htype, ⟨k, getElem?_append_some hk _, hid⟩, hes⟩
  · simp [RpcChannel.callMethod, h.count]
  · intro c k hk
    have := h.ids c k
    have := h.count
    unfold RpcChannel.callMethod at hk
    grind
  · intro c hc
    simp only [RpcChannel.callMethod, length_append, length_singleton] at hc
    exact h.fresh c (by omega)
  · intro c k hk hawaits
    exact h.waiting c k (hold c k hk hawaits) hawaits

/-- **The registration of a call**, for which nothing has happened before. -/
theorem ClientInv.register (h : s.ClientInv) {c : Nat} (hk : s.calls[c]? = some k)
    (hstage : s.stage c = .drawn) : (s.register c k).ClientInv := by
  obtain ⟨hawaits, hran⟩ := h.drawn c hstage
  -- for every other call the log is as before
  have hother : ∀ c' id, c' ≠ c → awaits c' id (s.log ++ [.registered c]) = awaits c' id s.log := by
    intro c' id hc'
    simp [hc'.symm]
  refine ⟨⟨?_, ?_, ?_⟩, h.count, h.ids, h.fresh_update hk _, ?_, ?_⟩
  · intro id out
    by_cases hid : id = k.id
    · subst hid
      simp only [RpcChannel.register, AList.lookup_insert]
      constructor
      · rintro ⟨⟩
        exact ⟨c, k, hk, rfl, by simp, rfl⟩
      · rintro ⟨c', k', hk', hid', -, rfl⟩
        obtain ⟨rfl, rfl⟩ := h.inj hk hk' hid'
        rfl
    · simp only [RpcChannel.register, AList.lookup_insert_ne hid, h.outstanding id out]
      refine exists_congr fun c' => exists_congr fun k' => and_congr_right fun hk' =>
        and_congr_right fun hid' => ?_
      have hc' : c' ≠ c := by
        rw [ne_eq, ← h.id_eq_iff hk hk', hid']
        exact hid
      rw [hother c' k'.id hc']
  · simpa [RpcChannel.register] using h.once
  · intro m es c' hm hc'
    have hm : .received m es ∈ s.log := by simpa [RpcChannel.register] using hm
    exact h.own m es c' hm hc'
  · intro c' hc'
    have hne : c' ≠ c := by
      rintro rfl
      simp [RpcChannel.register] at hc'
    have hdrawn := h.drawn c' (by simpa [RpcChannel.register, hne] using hc')
    simpa [RpcChannel.register, hne.symm] using hdrawn
  · intro c' k' hk' hc'
    simp only [RpcChannel.register, effects_registered]
    by_cases hne : c' = c
    · rw [hne, hran]
    · exact h.waiting c' k' hk' ((hother c' _ hne).symm.trans hc')

/-- **The REQUEST is sent** by a call that is registered. -/
theorem ClientInv.send (h : s.ClientInv) {c : Nat} (hk : s.calls[c]? = some k) :
    (s.send c k).ClientInv := by
  refine ⟨⟨h.outstanding, h.once, h.own⟩, h.count, h.ids, h.fresh_update hk _, ?_, h.waiting⟩
  · intro c' hc'
    have hne : c' ≠ c := by
      rintro rfl
      simp [RpcChannel.send] at hc'
    exact h.drawn c' (by simpa [RpcChannel.send, hne] using hc')

/-- **A message that completes no call**: a REQUEST, or a RESPONSE that is not waited for. -/
theorem ClientInv.received_nil (h : s.ClientInv) {m : RpcMessage}
    (hm : m.type = .RESPONSE → s.outstandings.lookup m.id = none) :
    { s with log := s.log ++ [.received m []] : RpcChannel }.ClientInv := by
  -- a call that waits is outstanding, so the message is not for it
  have hawaits : ∀ c k, s.calls[c]? = some k →
      awaits c k.id (s.log ++ [.received m []]) = awaits c k.id s.log := by
    intro c k hk
    by_cases hwaits : awaits c k.id s.log = true
    · have hlookup := (h.outstanding k.id (k.out c)).mpr ⟨c, k, hk, rfl, hwaits, rfl⟩
      have hne : ¬ (m.type = .RESPONSE ∧ m.id = k.id) := by
        rintro ⟨htype, hid⟩
        rw [← hid, hm htype] at hlookup
        cases hlookup
      simpa [hwaits] using not_and_or.mp hne
    · simp [Bool.not_eq_true _ ▸ hwaits]
  refine ⟨⟨?_, ?_, ?_⟩, h.count, h.ids, h.fresh, ?_, ?_⟩
  · intro id out
    rw [h.outstanding id out]
    exact exists_congr fun c => exists_congr fun k => and_congr_right fun hk => by rw [hawaits c k hk]
  · simpa using h.once
  · intro m' es c hm' hc
    obtain hm' | hm' := mem_append.mp hm'
    · exact h.own m' es c hm' hc
    · obtain ⟨-, rfl⟩ := Event.received.inj (mem_singleton.mp hm')
      cases hc
  · intro c hc
    obtain ⟨hdrawn, hran⟩ := h.drawn c hc
    simp [hdrawn, hran]
  · intro c k hk hc
    simpa using h.waiting c k hk ((hawaits c k hk).symm.trans hc)

/-- **The RESPONSE to a call** takes it out of `outstandings_` and completes it. -/
theorem ClientInv.completed (h : s.ClientInv) {m : RpcMessage} (hm : m.type = .RESPONSE) {c : Nat}
    (hk : s.calls[c]? = some k) (hid : k.id = m.id) (hwaits : awaits c k.id s.log = true) :
    { s with
      outstandings := s.outstandings.erase m.id,
      log := s.log ++ [.received m (complete m (k.out c))] : RpcChannel }.ClientInv := by
  have hran := h.waiting c k hk hwaits
  -- nothing is done with another call
  have hcount : ∀ c', c' ≠ c → (effects (s.log ++ [.received m (complete m (k.out c))])).count
      (.ran c') = (effects s.log).count (.ran c') := by
    intro c' hc'
    have := count_complete m k c c'
    rw [if_neg hc'] at this
    rw [effects_received, count_append]
    omega
  -- of the calls that wait, this one does so no longer
  have hawaits : ∀ c' k', s.calls[c']? = some k' →
      (awaits c' k'.id (s.log ++ [.received m (complete m (k.out c))]) = true ↔
        awaits c' k'.id s.log = true ∧ c' ≠ c) := by
    intro c' k' hk'
    have hne : m.id = k'.id ↔ c' = c := by
      rw [← hid, eq_comm]
      exact h.id_eq_iff hk hk'
    simp [hm, hne]
  refine ⟨⟨?_, ?_, ?_⟩, h.count, h.ids, h.fresh, ?_, ?_⟩
  · intro id out
    by_cases heq : id = m.id
    · subst heq
      simp only [AList.lookup_erase]
      refine iff_of_false nofun ?_
      rintro ⟨c', k', hk', hid', hwaits', -⟩
      exact ((hawaits c' k' hk').mp hwaits').2 ((h.id_eq_iff hk hk').mp (hid'.trans hid.symm))
    · simp only [AList.lookup_erase_ne heq, h.outstanding id out]
      refine exists_congr fun c' => exists_congr fun k' => and_congr_right fun hk' =>
        and_congr_right fun hid' => ?_
      have hc' : c' ≠ c := by
        rw [ne_eq, ← h.id_eq_iff hk hk', hid', hid]
        exact heq
      rw [hawaits c' k' hk', and_iff_left hc']
  · intro c'
    by_cases hc' : c' = c
    · subst hc'
      have := count_complete m k c' c'
      rw [if_pos rfl] at this
      rw [effects_received, count_append, hran]
      omega
    · rw [hcount c' hc']
      exact h.once c'
  · intro m' es c' hm' hc'
    obtain hm' | hm' := mem_append.mp hm'
    · exact h.own m' es c' hm' hc'
    · obtain ⟨rfl, rfl⟩ := Event.received.inj (mem_singleton.mp hm')
      obtain ⟨rfl, hes⟩ := ran_mem_complete hc'
      exact ⟨hm, ⟨k, hk, hid⟩, hes⟩
  · intro c' hc'
    obtain ⟨hdrawn, hnone⟩ := h.drawn c' hc'
    have hne : c' ≠ c := fun heq => h.stage_ne_drawn hwaits (heq ▸ hc')
    exact ⟨fun id => by simp [hdrawn id], by rw [hcount c' hne, hnone]⟩
  · intro c' k' hk' hwaits'
    obtain ⟨hold, hne⟩ := (hawaits c' k' hk').mp hwaits'
    rw [hcount c' hne]
    exact h.waiting c' k' hk' hold

/-- What `outstandings_` has for an id tells whether a call waits for it. -/
theorem Completes.ignoresStrays (h : s.Completes) : s.IgnoresStrays := by
  intro m htype hm hnone
  have hlookup : s.outstandings.lookup m.id = none := by
    refine Option.eq_none_iff_forall_ne_some.mpr fun out hout => ?_
    obtain ⟨c, k, hk, hid, hwaits, -⟩ := (h.outstanding m.id out).mp hout
    exact absurd hwaits (by simp [hnone c k hk hid])
  simp [onRpcMessage, htype, onResponse, check_of hm, hlookup]

end

/-! ## the whole channel -/

structure Inv (s : RpcChannel) : Prop where
  serves : s.Serves
  client : s.ClientInv
  requests : ∀ m ∈ s.sent, m.type = .REQUEST →
    ∃ c k, s.calls[c]? = some k ∧ s.stage c = .sent ∧ m = k.message

/-- The channel goes on from `s` to `s'`, in which the messages `ms` have arrived. -/
structure Advance (s s' : RpcChannel) (ms : List RpcMessage) : Prop where
  inv : s'.Inv
  arrived : received s'.log = received s.log ++ ms
  sent : s.sent <+: s'.sent
  services : s'.services = s.services

theorem inv_create (services : Option ServiceMap) : (create services).Inv :=
  ⟨serves_create services, clientInv_create services, fun _ hm => absurd hm not_mem_nil⟩

section
variable {s : RpcChannel}

theorem Inv.refl (h : s.Inv) : s.Advance s [] :=
  ⟨h, (append_nil _).symm, prefix_rfl, rfl⟩

theorem Inv.hasResult (h : s.Inv) {m : RpcMessage} (hm : m ∈ s.sent) : HasResult m := by
  intro htype
  obtain ⟨r, -, rfl, q, -, hanswers⟩ := h.serves.exists_reply hm htype
  exact hanswers.hasResult htype

theorem Inv.callMethod (h : s.Inv) (service method request : Bytes) (response done : Bool) :
    s.Advance (s.callMethod service method request response done) [] := by
  refine ⟨⟨h.serves.congr rfl rfl rfl rfl rfl rfl, h.client.callMethod .., ?_⟩,
    (append_nil _).symm, prefix_rfl, rfl⟩
  intro m hm htype
  obtain ⟨c, k, hk, hrest⟩ := h.requests m hm htype
  exact ⟨c, k, getElem?_append_some hk _, hrest⟩

theorem Inv.register (h : s.Inv) {c : Nat} (hk : s.calls[c]? = some k)
    (hstage : s.stage c = .drawn) : s.Advance (s.register c k) [] := by
  have hreceived : received (s.register c k).log = received s.log := by
    simp [RpcChannel.register, received]
  refine ⟨⟨h.serves.congr rfl rfl rfl rfl (by rw [hreceived]) rfl, h.client.register hk hstage, ?_⟩,
    by simp [hreceived], prefix_rfl, rfl⟩
  intro m hm htype
  obtain ⟨c', k', hk', hsent, heq⟩ := h.requests m hm htype
  have hne : c' ≠ c := by
    rintro rfl
    exact absurd (hstage.symm.trans hsent) (by decide)
  exact ⟨c', k', hk', (update_of_ne hne _ _).trans hsent, heq⟩

theorem Inv.send (h : s.Inv) {c : Nat} (hk : s.calls[c]? = some k) : s.Advance (s.send c k) [] := by
  refine ⟨⟨h.serves.congr rfl rfl rfl rfl rfl ?_, h.client.send hk, ?_⟩,
    (append_nil _).symm, prefix_append _ _, rfl⟩
  · simp [RpcChannel.send, Call.message]
  · intro m hm htype
    obtain hm | hm := mem_append.mp hm
    · obtain ⟨c', k', hk', hsent, heq⟩ := h.requests m hm htype
      refine ⟨c', k', hk', ?_, heq⟩
      by_cases hne : c' = c
      · simp [RpcChannel.send, hne]
      · exact (update_of_ne hne _ _).trans hsent
    · exact ⟨c, k, hk, update_self .., mem_singleton.mp hm⟩

theorem Inv.doneCallback (h : s.Inv) {closure : Closure} (hc : closure ∈ s.closures)
    (response : Bytes) : s.Advance (s.doneCallback closure response) [] := by
  refine ⟨⟨h.serves.doneCallback hc response, h.client.congr rfl rfl rfl rfl rfl, ?_⟩,
    (append_nil _).symm, prefix_append _ _, rfl⟩
  intro m hm htype
  obtain hm | hm := mem_append.mp hm
  · exact h.requests m hm htype
  · obtain rfl := mem_singleton.mp hm
    cases htype

/-- **A step of a thread** keeps the invariant, and what has been sent stays sent. -/
theorem Inv.act (h : s.Inv) (a : Action) : s.Advance (s.act a) [] := by
  cases a with
  | callMethod service method request response done => exact h.callMethod ..
  | register c =>
    simp only [RpcChannel.act]
    cases hk : s.calls[c]? with
    | none => exact h.refl
    | some k =>
      dsimp only
      split
      · exact h.register hk ‹_›
      · exact h.refl
  | send c =>
    simp only [RpcChannel.act]
    cases hk : s.calls[c]? with
    | none => exact h.refl
    | some k =>
      dsimp only
      split
      · exact h.send hk
      · exact h.refl
  | done n response =>
    simp only [RpcChannel.act]
    cases hc : s.closures.find? (·.request = n) with
    | none => exact h.refl
    | some closure => exact h.doneCallback (mem_of_find?_eq_some hc) response

/-- A REQUEST concerns the server only, which may send a RESPONSE. -/
theorem onRequest_frame (s : RpcChannel) (m : RpcMessage) : ∃ closures replies ms,
    (∀ m' ∈ ms, m'.type = .RESPONSE) ∧
    s.onRequest m = { s with
      requests := s.requests ++ [m], log := s.log ++ [.received m []],
      closures, replies, sent := s.sent ++ ms } := by
  unfold RpcChannel.onRequest
  by_cases herror : errorOf s.services m = .NO_ERROR
  · refine ⟨s.closures ++ [⟨s.requests.length, m.id⟩], s.replies, [],
      fun _ hm => absurd hm not_mem_nil, ?_⟩
    simp only [herror, if_true, append_nil]
  · let response := errorReply m.id (errorOf s.services m)
    refine ⟨s.closures, s.replies ++ [⟨s.requests.length, none, response⟩], [response], ?_, ?_⟩
    · simp [response, errorReply]
    · simp only [if_neg herror]
      rfl

/-- **A message** that passes the assertion is handled, whatever it is. -/
theorem Inv.onRpcMessage (h : s.Inv) {m : RpcMessage} (hm : HasResult m) :
    ∃ s', s.onRpcMessage m = .ok s' ∧ s.Advance s' [m] := by
  have hreceived : ∀ es, received (s.log ++ [.received m es]) = received s.log ++ [m] := by
    intro es
    simp [received]
  -- for the server a message that is not a REQUEST is none
  have hserver : ∀ es, m.type ≠ .REQUEST →
      (received (s.log ++ [.received m es])).filter (·.type = .REQUEST) =
        (received s.log).filter (·.type = .REQUEST) := by
    intro es htype
    simp [hreceived es, htype]
  unfold RpcChannel.onRpcMessage
  cases htype : m.type with
  | REQUEST =>
    have hserves := h.serves.onRequest htype
    have hne : m.type ≠ .RESPONSE := by simp [htype]
    have hclient := h.client.received_nil fun hresponse => absurd hresponse hne
    obtain ⟨closures, replies, ms, hms, heq⟩ := onRequest_frame s m
    refine ⟨_, rfl, ⟨hserves, ?_, ?_⟩, ?_, ?_, ?_⟩ <;> rw [heq]
    · exact hclient.congr rfl rfl rfl rfl rfl
    · intro m' hm' htype'
      obtain hm' | hm' := mem_append.mp hm'
      · exact h.requests m' hm' htype'
      · exact absurd (htype'.symm.trans (hms m' hm')) (by decide)
    · exact hreceived []
    · exact prefix_append _ _
  | RESPONSE =>
    have hserves := fun es => hserver es (by simp [htype])
    simp only [onResponse, check_of (hm htype)]
    cases hlookup : s.outstandings.lookup m.id with
    | some out =>
      obtain ⟨c, k, hk, hid, hwaits, rfl⟩ := (h.client.outstanding m.id out).mp hlookup
      exact ⟨_, rfl, ⟨h.serves.congr rfl rfl rfl rfl (hserves _) rfl,
        h.client.completed htype hk hid hwaits, h.requests⟩, hreceived _, prefix_rfl, rfl⟩
    | none =>
      exact ⟨_, rfl, ⟨h.serves.congr rfl rfl rfl rfl (hserves []) rfl,
        h.client.received_nil fun _ => hlookup, h.requests⟩, hreceived [], prefix_rfl, rfl⟩
  | ERROR =>
    have hne : m.type ≠ .RESPONSE := by simp [htype]
    exact ⟨_, rfl, ⟨h.serves.congr rfl rfl rfl rfl (hserver [] (by simp [htype])) rfl,
      h.client.received_nil fun hresponse => absurd hresponse hne, h.requests⟩,
      hreceived [], prefix_rfl, rfl⟩

end

end Muduo.RpcChannel
