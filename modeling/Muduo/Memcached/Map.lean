import Muduo.Memcached

/-!
# Muduo.Memcached.Map

What the store of memcached is for: a map from keys to entries, and a counter.
-/

namespace Muduo.Memcached

open Lib

@[ext] structure MapState where
  entries : Key → Option Entry
  cas : Nat

namespace MapState

def empty : MapState := ⟨fun _ => none, 0⟩

/-- A value without its CR LF. -/
def stripCRLF (value : List UInt8) : List UInt8 := value.take (value.length - 2)

/-- The entry that the update installs, if any. -/
def update (m : MapState) (u : Update) : Option Entry :=
  let fresh : Entry := ⟨u.item.flags, u.item.rel_exptime, u.item.value, m.cas + 1⟩
  match u.policy, m.entries u.key with
  | .kSet, _ => some fresh
  | .kAdd, none => some fresh
  | .kReplace, some _ => some fresh
  | .kAppend, some e =>
    some { e with value := stripCRLF e.value ++ u.item.value, cas := m.cas + 1 }
  | .kPrepend, some e =>
    some { e with value := stripCRLF u.item.value ++ e.value, cas := m.cas + 1 }
  | .kCas, some e => if e.cas = u.item.cas then some fresh else none
  | _, _ => none

def apply : Op → MapState → Result × MapState
  | .store u, m => match m.update u with
    | some e => (.stored true (m.entries u.key).isSome,
        ⟨Function.update m.entries u.key (some e), m.cas + 1⟩)
    | none => (.stored false (m.entries u.key).isSome, m)
  | .get key, m => (.got (m.entries key), m)
  | .delete key, m => (.deleted (m.entries key).isSome,
      { m with entries := Function.update m.entries key none })

/-! ## cas ids -/

variable {m : MapState} {u : Update} {e : Entry} {h : List (Op × Result)}

/-- A cas update that carries `c` and succeeds. -/
def casSucceeds (c : Nat) : Op × Result → Bool
  | (.store u, .stored true _) => u.policy = .kCas ∧ u.item.cas = c
  | _ => false

/-- The id that an operation hands out. -/
def handedOut : Op × Result → Option Nat
  | (_, .got (some e)) => some e.cas
  | _ => none

theorem cas_of_update (hu : m.update u = some e) : e.cas = m.cas + 1 := by
  unfold update at hu
  grind

/-- An update by cas finds the id that it carries. -/
theorem exists_of_update_cas (hu : m.update u = some e) (hcas : u.policy = .kCas) :
    ∃ old, m.entries u.key = some old ∧ old.cas = u.item.cas := by
  unfold update at hu
  rw [hcas] at hu
  grind

/-- The ids of the entries are different and are not above the counter, and an id by
which a cas update has succeeded belongs to no entry. -/
structure Ids (m : MapState) (h : List (Op × Result)) : Prop where
  le : ∀ {key e}, m.entries key = some e → e.cas ≤ m.cas
  pos : ∀ {key e}, m.entries key = some e → 0 < e.cas
  inj : ∀ {key key' e e'}, m.entries key = some e → m.entries key' = some e' →
    e.cas = e'.cas → key = key'
  handed : ∀ {x c}, x ∈ h → handedOut x = some c → 0 < c ∧ c ≤ m.cas
  used : ∀ c, h.countP (casSucceeds c) = 0 ∨ h.countP (casSucceeds c) = 1 ∧ c ≤ m.cas ∧
    ∀ key e, m.entries key = some e → e.cas ≠ c

theorem ids_empty : Ids empty [] where
  le h := by simp [empty] at h
  pos h := by simp [empty] at h
  inj h := by simp [empty] at h
  handed h := by simp at h
  used _ := .inl rfl

theorem Ids.shrink (hm : Ids m h) {m' : MapState} {x : Op × Result} (hcas : m'.cas = m.cas)
    (hsub : ∀ key e, m'.entries key = some e → m.entries key = some e)
    (hhanded : ∀ c, handedOut x = some c → 0 < c ∧ c ≤ m.cas)
    (hnot : ∀ c, casSucceeds c x = false) : Ids m' (h ++ [x]) where
  le he := hcas ▸ hm.le (hsub _ _ he)
  pos he := hm.pos (hsub _ _ he)
  inj he he' := hm.inj (hsub _ _ he) (hsub _ _ he')
  handed hx hc := by
    rw [hcas]
    obtain hx | hx := List.mem_append.1 hx
    · exact hm.handed hx hc
    · exact hhanded _ (List.mem_singleton.1 hx ▸ hc)
  used c := by
    have hused := hm.used c
    rw [List.countP_append, List.countP_singleton, hnot c, hcas]
    grind

/-- An update that succeeds: by cas, it was the last one with its id. -/
theorem Ids.install (hm : Ids m h) (hu : m.update u = some e) (b : Bool) :
    Ids ⟨Function.update m.entries u.key (some e), m.cas + 1⟩
      (h ++ [(.store u, .stored true b)]) := by
  have hcas := cas_of_update hu
  have hle := @hm.le
  constructor
  · intro key e' he'
    dsimp only at he' ⊢
    grind [Function.update_apply]
  · intro key e' he'
    have := @hm.pos
    grind [Function.update_apply]
  · intro key key' e₁ e₂ h₁ h₂ heq
    have := @hm.inj key key' e₁ e₂
    grind [Function.update_apply]
  · intro x c hx hc
    have := @hm.handed x c
    simp only [List.mem_append, List.mem_singleton] at hx
    dsimp only
    obtain hx | rfl := hx
    · grind
    · simp [handedOut] at hc
  · intro c
    rw [List.countP_append, List.countP_singleton]
    dsimp only
    by_cases hc : casSucceeds c (.store u, .stored true b)
    · -- the id belonged to the entry that is replaced
      simp only [casSucceeds, decide_eq_true_eq] at hc
      obtain ⟨old, hold, hid⟩ := exists_of_update_cas hu hc.1
      have hused := hm.used c
      have hinj := @hm.inj
      simp only [casSucceeds, hc, and_self, decide_true, if_true]
      grind [Function.update_apply]
    · have hused := hm.used c
      simp only [hc]
      grind [Function.update_apply]

theorem Ids.apply (hm : Ids m h) (o : Op) :
    Ids (MapState.apply o m).2 (h ++ [(o, (MapState.apply o m).1)]) := by
  cases o with
  | store u =>
    simp only [MapState.apply]
    cases hu : m.update u with
    | some e => exact hm.install hu _
    | none =>
      refine hm.shrink rfl (fun _ _ he => he) (fun c hc => ?_) fun c => rfl
      simp [handedOut] at hc
  | get key =>
    refine hm.shrink rfl (fun _ _ he => he) (fun c hc => ?_) fun _ => rfl
    simp only [MapState.apply] at hc
    cases he : m.entries key with
    | none => simp [handedOut, he] at hc
    | some e =>
      simp only [handedOut, he, Option.some.injEq] at hc
      exact hc ▸ ⟨hm.pos he, hm.le he⟩
  | delete key =>
    refine hm.shrink rfl (fun key' e he => ?_) (fun c hc => ?_) fun c => rfl
    · simp only [MapState.apply, Function.update_apply] at he
      grind
    · simp [MapState.apply, handedOut] at hc

/-- **Cas succeeds once**, whoever deletes and adds the key in between. -/
theorem cas_once {θ : Type} [DecidableEq θ] {tr : List (Event θ Op Result)}
    {st : θ → Status Op Result} (htr : AtomicTrace MapState.apply empty tr m st h) : Ids m h :=
  htr.invariant ids_empty fun _ _ o hm => hm.apply o

end MapState

/-! ## items -/

section
variable {m : MapState} {u : Update} {e : Entry} {it : Option Item}

theorem admits_eq (hit : m.entries u.key = it.map Item.entry) :
    admits u.policy u.item it = .ok (m.update u).isSome := by
  have hvalid := u.valid
  unfold admits MapState.update
  rw [hit]
  cases hp : u.policy <;> cases it <;> grind [Item.entry]

theorem Item.Holds.stripCRLF_value {x : Item} {key : Key} {body : List UInt8}
    (h : x.Holds key body) : MapState.stripCRLF x.value = body := by
  rw [h.value_eq, MapState.stripCRLF]
  exact List.take_left' (by simp [Item.crlf])

theorem joinItems_spec {x old first second : Item} {key : Key} {b₁ b₂ b₃ b₄ : List UInt8}
    (hx : x.Holds key b₁) (hold : old.Holds key b₂) (hfirst : first.Holds key b₃)
    (hsecond : second.Holds key b₄) (hlen : b₃.length + b₄.length = b₁.length + b₂.length)
    (hsmall : x.valueLength + old.valueLength - 2 < Item.maxValue) (cas : Nat) :
    ∃ y, joinItems x old first second cas = .ok y ∧ y.Holds key (b₃ ++ b₄) ∧
      y.entry = ⟨old.flags, old.rel_exptime, MapState.stripCRLF first.value ++ second.value, cas⟩ := by
  have hx₁ := hx.valueLength_eq
  have hold₁ := hold.valueLength_eq
  have hlt : b₃.length + b₄.length + 2 < Item.maxValue := by omega
  have hmax := Item.maxValue_eq
  have hcat : (b₃ ++ b₄).length = b₃.length + b₄.length := List.length_append
  have hcrlf : (b₄ ++ Item.crlf).length = b₄.length + 2 := List.length_append
  obtain ⟨n, hn⟩ : ∃ n, n = b₃.length + b₄.length + 2 := ⟨_, rfl⟩
  have htwo : (2 : Int) ≤ n := by omega
  have hfirst_le : ((0 : Nat) : Int) + b₃.length ≤ n := by omega
  have hsecond_le : (b₃.length : Int) + (b₄ ++ Item.crlf).length ≤ n := by omega
  have hbody : (n : Int) = (b₃ ++ b₄).length + 2 := by omega
  have hnew : intOfSize (subSize (addSize x.valueLength old.valueLength) 2) = n := by
    rw [addSize_of_lt (by omega), subSize_of_le (by omega) (by omega), intOfSize_of_lt (by omega)]
    omega
  obtain ⟨y₀, hmake, hy₀, hflags, hexptime, hvaluelen, hcas⟩ :=
    Item.makeItem_spec hx.key_le old.flags old.rel_exptime htwo (Int.ofNat_le.2 (hn ▸ hlt.le)) cas
  obtain ⟨y₁, happend₁, hy₁, hsame₁⟩ := hy₀.append (hvaluelen.symm ▸ hfirst_le)
  have hlen₁ := hsame₁.valuelen.trans hvaluelen
  obtain ⟨y, happend₂, hy₂, hsame₂⟩ := hy₁.append (hlen₁.symm ▸ hsecond_le)
  have hlen₂ := hsame₂.valuelen.trans hlen₁
  rw [List.nil_append, ← List.append_assoc] at hy₂
  have hy := hy₂.holds (hlen₂.trans hbody) (hcat ▸ hlt)
  refine ⟨y, ?_, hy, ?_⟩
  · unfold joinItems
    dsimp only
    rw [hnew, hx.key_eq, hmake, ok_bind, hfirst.take_body, happend₁, ok_bind, hsecond.take_value,
      happend₂, ok_bind, check_of hy.neededBytes_eq, ok_bind, check_of hy.endsWithCRLF, ok_bind]
    rfl
  · rw [Item.entry, hy.value_eq, hfirst.stripCRLF_value, hsecond.value_eq, List.append_assoc,
      hsame₂.flags, hsame₁.flags, hflags, hsame₂.rel_exptime, hsame₁.rel_exptime, hexptime, hsame₂.cas,
      hsame₁.cas, hcas]

/-- The combined value of an update that appends or prepends is short enough. -/
def Update.fits (u : Update) : Option Item → Bool
  | some old => (u.policy = .kAppend ∨ u.policy = .kPrepend) →
      u.item.valueLength + old.valueLength - 2 < Item.maxValue
  | none => true

theorem newItem_spec (hit : m.entries u.key = it.map Item.entry)
    (hold : ∀ x ∈ it, ∃ body, x.Holds u.key body) (hu : m.update u = some e) (hfits : u.fits it) :
    ∃ y, newItem u.policy u.item it (m.cas + 1) = .ok y ∧ (∃ body, y.Holds u.key body) ∧
      y.entry = e := by
  have hu' := hu
  unfold MapState.update at hu
  rw [hit] at hu
  have hset : ∃ y, Except.ok (u.item.setCas (m.cas + 1)) = (.ok y : Except Assert Item) ∧
      (∃ body, y.Holds u.key body) ∧
        y.entry = ⟨u.item.flags, u.item.rel_exptime, u.item.value, m.cas + 1⟩ :=
    ⟨_, rfl, ⟨_, u.holds.setCas _⟩, rfl⟩
  unfold newItem
  cases it with
  | none => cases hp : u.policy <;> grind
  | some old =>
    obtain ⟨body, hbody⟩ := hold old rfl
    simp only [Update.fits, decide_eq_true_eq] at hfits
    cases hp : u.policy with
    | kAppend =>
      obtain ⟨y, hy, hholds, hentry⟩ :=
        joinItems_spec u.holds hbody hbody u.holds (Nat.add_comm _ _) (hfits (.inl hp)) (m.cas + 1)
      exact ⟨y, hy, ⟨_, hholds⟩, by rw [hentry]; simpa [hp, Item.entry] using hu⟩
    | kPrepend =>
      obtain ⟨y, hy, hholds, hentry⟩ :=
        joinItems_spec u.holds hbody u.holds hbody rfl (hfits (.inr hp)) (m.cas + 1)
      exact ⟨y, hy, ⟨_, hholds⟩, by rw [hentry]; simpa [hp, Item.entry] using hu⟩
    | _ => grind

end

end Muduo.Memcached
