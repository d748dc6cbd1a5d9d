import Muduo.RpcChannel.Matching

/-!
# Muduo.RpcChannel.Pair

Two channels, joined by a connection that delivers the messages of each to the other
one in the order in which they were sent.
-/

namespace Muduo

open Lib RpcChannel List Function

inductive Side
  | left
  | right
deriving DecidableEq, Repr

def Side.other : Side → Side
  | .left => .right
  | .right => .left

@[simp] theorem Side.other_other (p : Side) : p.other.other = p := by cases p <;> rfl

theorem Side.other_ne (p : Side) : p.other ≠ p := by cases p <;> decide

theorem Side.eq_or_eq_other (p q : Side) : q = p ∨ q = p.other := by
  cases p <;> cases q <;> decide

/-- `delivered` counts the messages of the other side that have been delivered to a
side. -/
structure RpcPair where
  chan : Side → RpcChannel
  delivered : Side → Nat

namespace RpcPair

def create (services : Side → Option ServiceMap) : RpcPair where
  chan := fun p => RpcChannel.create (services p)
  delivered := fun _ => 0

inductive Label
  | act (p : Side) (a : RpcChannel.Action)
  | deliver (p : Side)
deriving DecidableEq, Repr

/-- One step of the two processes and the connection. -/
def step (s : RpcPair) : Label → Except RpcChannel.Fault RpcPair
  | .act p a => .ok { s with chan := update s.chan p ((s.chan p).act a) }
  | .deliver p => match (s.chan p.other).sent[s.delivered p]? with
    | none => .ok s
    | some m => do
      let c ← (s.chan p).onRpcMessage m
      return ⟨update s.chan p c, update s.delivered p (s.delivered p + 1)⟩

/-! ## the invariant -/

/-- What has arrived on a side is an initial part of what the other side has sent. -/
structure Inv (services : Side → Option ServiceMap) (s : RpcPair) : Prop where
  chan : ∀ p, (s.chan p).Inv
  services_eq : ∀ p, (s.chan p).services = services p
  delivered_le : ∀ p, s.delivered p ≤ (s.chan p.other).sent.length
  arrived : ∀ p, received (s.chan p).log = (s.chan p.other).sent.take (s.delivered p)

theorem inv_create (services : Side → Option ServiceMap) : (create services).Inv services where
  chan := fun p => RpcChannel.inv_create (services p)
  services_eq := fun _ => rfl
  delivered_le := fun _ => Nat.zero_le _
  arrived := fun _ => rfl

variable {services : Side → Option ServiceMap} {s : RpcPair}

variable {p : Side} {m : RpcMessage}

/-- **One side goes on**, with the next messages of the other one. -/
theorem Inv.advance (h : s.Inv services) {c : RpcChannel} {ms : List RpcMessage}
    (hc : (s.chan p).Advance c ms) (hms : ms <+: (s.chan p.other).sent.drop (s.delivered p)) :
    Inv services ⟨update s.chan p c, update s.delivered p (s.delivered p + ms.length)⟩ := by
  have hle := h.delivered_le p
  obtain ⟨rest, hrest⟩ := hms
  obtain ⟨more, hmore⟩ := hc.sent
  refine ⟨fun q => ?_, fun q => ?_, fun q => ?_, fun q => ?_⟩ <;>
    obtain rfl | rfl := p.eq_or_eq_other q
  · simpa using hc.inv
  · simpa [Side.other_ne] using h.chan p.other
  · simpa [hc.services] using h.services_eq q
  · simpa [Side.other_ne] using h.services_eq p.other
  · have hlength := congrArg List.length hrest
    simp only [length_append, length_drop] at hlength
    simp only [update_self, update_of_ne (Side.other_ne _)]
    omega
  · have := h.delivered_le p.other
    simp only [Side.other_other] at this
    simp only [Side.other_other, update_self, update_of_ne (Side.other_ne _),
      ← hmore, length_append]
    omega
  · simp only [update_self, update_of_ne (Side.other_ne _), hc.arrived,
      h.arrived, take_add, ← hrest, take_left]
  · have hshort := h.delivered_le p.other
    simp only [Side.other_other] at hshort
    simp only [Side.other_other, update_self, update_of_ne (Side.other_ne _),
      ← hmore, take_append_of_le_length hshort, h.arrived]

/-- **No step fails**, and each keeps the invariant. -/
theorem Inv.step (h : s.Inv services) (l : Label) : ∃ s', s.step l = .ok s' ∧ s'.Inv services := by
  cases l with
  | act p a =>
    have hinv := h.advance ((h.chan p).act a) nil_prefix
    refine ⟨_, rfl, ?_⟩
    simpa using hinv
  | deliver p =>
    simp only [RpcPair.step]
    cases hm : (s.chan p.other).sent[s.delivered p]? with
    | none => exact ⟨s, rfl, h⟩
    | some m =>
      have hmem : m ∈ (s.chan p.other).sent := mem_of_getElem? hm
      obtain ⟨c, hok, hc⟩ := (h.chan p).onRpcMessage ((h.chan p.other).hasResult hmem)
      have hnext : [m] <+: (s.chan p.other).sent.drop (s.delivered p) := by
        obtain ⟨hlt, rfl⟩ := List.getElem?_eq_some_iff.mp hm
        rw [drop_eq_getElem_cons hlt]
        exact ⟨_, rfl⟩
      simp only [hok]
      exact ⟨_, rfl, h.advance hc hnext⟩

/-! ## matching -/

/-- The closure of a call of the side `p` is run on the RESPONSE that the other side
has sent for the REQUEST of that call. -/
structure Matched (s : RpcPair) (p : Side) : Prop where
  in_order : received (s.chan p).log = (s.chan p.other).sent.take (s.delivered p)
  own_request : ∀ m es c, .received m es ∈ (s.chan p).log → .ran c ∈ es →
    ∃ k, (s.chan p).calls[c]? = some k ∧ k.message ∈ (s.chan p).sent ∧
      ∃ r ∈ (s.chan p.other).replies,
        r.message = m ∧ r.Answers (s.chan p.other).services k.message

theorem mem_received {log : List Event} {es : List Effect}
    (h : .received m es ∈ log) : m ∈ received log :=
  mem_filterMap.mpr ⟨_, h, rfl⟩

theorem Inv.mem_sent (h : s.Inv services)
    (hm : m ∈ received (s.chan p).log) : m ∈ (s.chan p.other).sent :=
  mem_of_mem_take (h.arrived p ▸ hm)

/-- **A RESPONSE that arrives** answers the REQUEST of some call. -/
theorem Inv.response_answers (h : s.Inv services)
    (hm : m ∈ received (s.chan p).log) (htype : m.type = .RESPONSE) :
    ∃ (c : Nat) (k : Call), (s.chan p).calls[c]? = some k ∧ k.message ∈ (s.chan p).sent ∧
      ∃ r ∈ (s.chan p.other).replies,
        r.message = m ∧ r.Answers (s.chan p.other).services k.message := by
  have hserves := (h.chan p.other).serves
  obtain ⟨r, hr, rfl, q, hq, hanswers⟩ := hserves.exists_reply (h.mem_sent hm) htype
  -- the REQUEST in its turn has come from here
  rw [hserves.requests_eq, mem_filter] at hq
  have hsent := h.mem_sent hq.1
  rw [Side.other_other] at hsent
  obtain ⟨c, k, hk, -, rfl⟩ := (h.chan p).requests q hsent (by simpa using hq.2)
  exact ⟨c, k, hk, hsent, r, hr, rfl, hanswers⟩

theorem Inv.matched (h : s.Inv services) (p : Side) : s.Matched p := by
  refine ⟨h.arrived p, ?_⟩
  intro m es c hm hc
  have hclient := (h.chan p).client
  obtain ⟨htype, ⟨k, hk, hid⟩, -⟩ := hclient.own m es c hm hc
  obtain ⟨c', k', hk', hsent, r, hr, rfl, hanswers⟩ := h.response_answers (mem_received hm) htype
  have hid' : k'.id = k.id := hanswers.id_eq.symm.trans hid.symm
  obtain ⟨rfl, rfl⟩ := hclient.inj hk hk' hid'
  exact ⟨k', hk, hsent, r, hr, rfl, hanswers⟩

end RpcPair

end Muduo
