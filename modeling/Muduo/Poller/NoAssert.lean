import Muduo.Poller.Poll

/-!
# Muduo.Poller.NoAssert

The `PollPoller` built without its assertions (`net/poller/PollPoller.cc` under
`NDEBUG`): `updateChannel` and `removeChannel` with only their effects, for any
order of the calls in which a removal is one of a registered channel.
-/

namespace Muduo.PollPoller

open Lib Function

namespace NoAssert

section model
variable {ι : Type} [DecidableEq ι]

/-- `pollfds_[idx]` -/
def slotAt (pollfds : List PollFd) (idx : Int) : Option PollFd :=
  if idx < 0 then none else pollfds[idx.toNat]?

/-- `PollPoller::updateChannel` for a new channel. -/
def addChannel (s : PollPoller ι) (c : ι) : PollPoller ι :=
  let ch := s.channel c
  let pollfds := s.pollfds ++ [⟨ch.fd, ch.events, {}⟩]
  let idx : Int := pollfds.length - 1
  { pollfds
    channel := update s.channel c { ch with index := idx }
    channels := update s.channels ch.fd (some c) }

def updateChannel (s : PollPoller ι) (c : ι) : Except Fault (PollPoller ι) :=
  let ch := s.channel c
  if ch.index < 0 then
    .ok (addChannel s c)
  else
    let idx := ch.index
    match slotAt s.pollfds idx with
    | none => .error .outOfRange
    | some _ => .ok { s with pollfds := s.pollfds.set idx.toNat ⟨monitored ch, ch.events, {}⟩ }

def removeChannel (s : PollPoller ι) (c : ι) : Except Fault (PollPoller ι) :=
  let ch := s.channel c
  let idx := ch.index
  match slotAt s.pollfds idx with
  | none => .error .outOfRange
  | some _ => eraseSlot { s with channels := update s.channels ch.fd none } idx

/-- Any channel may be updated to any interest set, and any registered channel
removed. -/
def step (s : PollPoller ι) : EPollState.Label ι → Except Fault (PollPoller ι)
  | .updateChannel c events =>
    updateChannel { s with channel := update s.channel c { s.channel c with events } } c
  | .removeChannel c => if s.Registered c then removeChannel s c else .ok s

/-! ## the build with assertions -/

/-- An update whose assertions hold has the same effect without them. -/
theorem updateChannel_of_ok {s s' : PollPoller ι} {c : ι}
    (h : s.updateChannel c = .ok s') : updateChannel s c = .ok s' := by
  unfold PollPoller.updateChannel at h
  unfold updateChannel
  dsimp only at h ⊢
  by_cases hnew : (s.channel c).index < 0
  · rw [if_pos hnew] at h ⊢
    rw [PollPoller.addChannel, check_bind_eq_ok] at h
    exact h.2
  · rw [if_neg hnew] at h ⊢
    rw [check_bind_eq_ok, check_bind_eq_ok, check_bind_eq_ok] at h
    rw [slotAt, if_neg hnew]
    cases hget : s.pollfds[(s.channel c).index.toNat]? with
    | none => simp [hget] at h
    | some pfd =>
      simp only [hget, check_bind_eq_ok] at h
      exact h.2.2.2.2

theorem removeChannel_of_ok {s s' : PollPoller ι} {c : ι}
    (h : s.removeChannel c = .ok s') : removeChannel s c = .ok s' := by
  unfold PollPoller.removeChannel at h
  unfold removeChannel
  dsimp only at h ⊢
  rw [check_bind_eq_ok, check_bind_eq_ok, check_bind_eq_ok, check_bind_eq_ok] at h
  rw [slotAt, if_neg (Int.not_lt.mpr h.2.2.2.1.1)]
  cases hget : s.pollfds[(s.channel c).index.toNat]? with
  | none => simp [hget] at h
  | some pfd =>
    simp only [hget, check_bind_eq_ok] at h
    exact h.2.2.2.2.2.2

end model

/-! ## the slots -/

variable {ι : Type}

/-- The descriptor of a slot names the channel, whether or not `poll(2)` ignores it. -/
def Encodes (fd : ι ↪ Nat) (c : ι) (pfd : PollFd) : Prop :=
  pfd.fd = fd c ∨ pfd.fd = ignored (fd c)

/-- `pollfds_` and `channels_` have the same size, and every registered channel has
a slot of its own with its descriptor. -/
structure SlotsRight (fd : ι ↪ Nat) (s : PollPoller ι) : Prop where
  sizes : {n | s.channels n ≠ none}.encard = s.pollfds.length
  index_range : ∀ c, s.Registered c →
    0 ≤ (s.channel c).index ∧ (s.channel c).index < s.pollfds.length
  slot_fd : ∀ c, s.Registered c →
    ∃ pfd, s.pollfds[(s.channel c).index.toNat]? = some pfd ∧ Encodes fd c pfd
  index_inj : ∀ c d, s.Registered c → s.Registered d →
    (s.channel c).index = (s.channel d).index → c = d

/-- What the removal of `c` leaves as it was: only the channel with the last slot
may get another index, and every other channel keeps its interest set, its
registration and what stands in its slot. -/
structure KeepsOthers (s : PollPoller ι) (c : ι) (s' : PollPoller ι) : Prop where
  index : ∀ d, (s'.channel d).index ≠ (s.channel d).index →
    s.Registered d ∧ (s.channel d).index = s.pollfds.length - 1
  events : ∀ d, (s'.channel d).events = (s.channel d).events
  registered : ∀ d, d ≠ c → (s'.Registered d ↔ s.Registered d)
  slot : ∀ d, d ≠ c → s.Registered d →
    s'.pollfds[(s'.channel d).index.toNat]? = s.pollfds[(s.channel d).index.toNat]?

/-- A step after which the slots are right, and which keeps the other channels when it
is a removal. -/
def StepRight (fd : ι ↪ Nat) (s : PollPoller ι) (a : EPollState.Label ι) (s' : PollPoller ι) :
    Prop :=
  SlotsRight fd s' ∧ ∀ c, a = .removeChannel c → s.Registered c → KeepsOthers s c s'

/-- An update is one of a registered channel or of one that was never added. -/
def Regular (s : PollPoller ι) : EPollState.Label ι → Prop
  | .updateChannel c _ => s.Registered c ∨ (s.channel c).index < 0
  | .removeChannel _ => True

instance (s : PollPoller ι) (a : EPollState.Label ι) : Decidable (Regular s a) :=
  match a with
  | .updateChannel _ _ => inferInstanceAs (Decidable (_ ∨ _))
  | .removeChannel _ => .isTrue trivial

section
variable {fd : ι ↪ Nat} {s : PollPoller ι} {c : ι}

theorem ignored_eq_iff {m n : Nat} : ignored m = ignored n ↔ m = n := by
  unfold ignored
  omega

theorem ignored_ne (m n : Nat) : ignored m ≠ n := by
  unfold ignored
  omega

theorem encodes_inj {d : ι} {pfd : PollFd} (hc : Encodes fd c pfd) (hd : Encodes fd d pfd) :
    c = d := by
  refine fd.injective ?_
  rcases hc with hc | hc <;> rcases hd with hd | hd <;> rw [hc] at hd
  · exact Int.ofNat.inj hd
  · exact absurd hd.symm (ignored_ne _ _)
  · exact absurd hd (ignored_ne _ _)
  · exact ignored_eq_iff.mp hd

theorem channelAtEnd_of_encodes {pfd : PollFd} (h : Encodes fd c pfd) :
    (if pfd.fd < 0 then -pfd.fd - 1 else pfd.fd) = fd c := by
  rcases h with h | h <;> rw [h]
  · exact if_neg (by omega)
  · unfold ignored
    rw [if_pos (by omega)]
    omega

theorem monitored_encodes (ch : PollChannel) :
    monitored ch = ch.fd ∨ monitored ch = ignored ch.fd := by
  unfold monitored
  split
  · exact .inr rfl
  · exact .inl rfl

theorem slotsRight_of_placed (h : s.Placed (Encodes fd) fd) : SlotsRight fd s where
  sizes := by
    have hkeys : {c | s.slot c ≠ none} = {c | s.Registered c} := by
      ext c
      simp [slot]
    have himage : (fun c => ((s.channel c).fd : Int)) '' {c | s.Registered c} =
        {n | s.channels n ≠ none} := by
      ext n
      constructor
      · rintro ⟨c, hc, rfl⟩
        exact hc
      · intro hn
        obtain ⟨c, hc⟩ := Option.ne_none_iff_exists'.mp hn
        have hfd := h.found n c hc
        exact ⟨c, show s.channels _ ≠ none from hfd ▸ hn, hfd.symm⟩
    have hinj : Set.InjOn (fun c => ((s.channel c).fd : Int)) {c | s.Registered c} := by
      intro c _ d _ heq
      by_contra hne
      exact h.fd_ne hne heq
    rw [← himage, hinj.encard_image, ← hkeys, h.slots.encard_keys]
  index_range c hc := by
    obtain ⟨-, -, -, hrange⟩ := h.slot_get hc
    exact hrange
  slot_fd c hc := by
    obtain ⟨pfd, hget, hpfd, -⟩ := h.slot_get hc
    exact ⟨pfd, hget, hpfd⟩
  index_inj c d hc hd heq := by
    refine h.slots.inj (slot_of_registered hc) ?_
    rw [heq]
    exact slot_of_registered hd

end

variable [DecidableEq ι] {fd : ι ↪ Nat} {s : PollPoller ι} {c : ι}

theorem step_add (hnew : (s.channel c).index < 0) (e : Events) :
    step s (.updateChannel c e) = .ok (s.added c e) := by
  simp [step, updateChannel, addChannel, added, hnew]

theorem step_change (hold : 0 ≤ (s.channel c).index) (hlt : (s.channel c).index < s.pollfds.length)
    (e : Events) : step s (.updateChannel c e) = .ok (s.changed c e) := by
  have hget : slotAt s.pollfds (s.channel c).index =
      some (s.pollfds.get ⟨(s.channel c).index.toNat, by omega⟩) := by
    rw [slotAt, if_neg (by omega), List.getElem?_eq_getElem (by omega)]
    rfl
  simp only [step, updateChannel, update_self, if_neg (Int.not_lt.mpr hold), hget]
  rfl

theorem step_remove (h : s.Placed (Encodes fd) fd) (hreg : s.Registered c) {d : ι} {back : PollFd}
    (hd : s.slot d = some (s.pollfds.length - 1))
    (hback : s.pollfds[s.pollfds.length - 1]? = some back) (hentry : Encodes fd d back) :
    step s (.removeChannel c) = .ok (s.removed c d back) := by
  obtain ⟨pfd, hget, -, hnonneg, -⟩ := h.slot_get hreg
  have hend : (if back.fd < 0 then -back.fd - 1 else back.fd) = (s.channel d).fd := by
    rw [channelAtEnd_of_encodes hentry, h.fd_eq]
  have hslot : slotAt s.pollfds (s.channel c).index = some pfd := by
    rw [slotAt, if_neg (Int.not_lt.mpr hnonneg), hget]
  simp only [step, if_pos hreg, removeChannel, hslot]
  exact h.eraseSlot_eq hreg hd hback hend

/-- The channel with the last slot finds there, at its new index, what stood in its
slot before. -/
theorem keepsOthers_removed (h : s.Placed (Encodes fd) fd) (hreg : s.Registered c) {d : ι}
    {back : PollFd} (hd : s.slot d = some (s.pollfds.length - 1))
    (hback : s.pollfds[s.pollfds.length - 1]? = some back) :
    KeepsOthers s c (s.removed c d back) := by
  have hdreg := registered_of_slot hd
  have hindex : ∀ e, e ≠ d → ((s.removed c d back).channel e).index = (s.channel e).index := by
    intro e he
    simp [removed, he]
  have hself : ((s.removed c d back).channel d).index = (s.channel c).index := by
    simp [removed]
  have hlast := h.slots.lt_length hd
  refine ⟨fun e he => ?_, events_removed s c d back, fun e he => ?_, fun e he hereg => ?_⟩
  · obtain rfl : e = d := by
      by_contra hne
      exact he (hindex e hne)
    have hnonneg := h.index_nonneg e hdreg.1
    exact ⟨hdreg.1, by omega⟩
  · rw [h.registered_removed, and_iff_left he]
  · -- a position below the last one is written only if it is that of `c`
    have hget : ∀ k, k < s.pollfds.length - 1 → (s.removed c d back).pollfds[k]? =
        (s.pollfds.set (s.channel c).index.toNat back)[k]? := by
      intro k hk
      rw [removed, List.getElem?_dropLast, List.length_set, if_pos hk]
    have hcslot := slot_of_registered hreg
    by_cases hed : e = d
    · subst hed
      have hne : (s.channel c).index.toNat ≠ s.pollfds.length - 1 := by
        intro heq
        rw [heq] at hcslot
        exact he (h.slots.inj hd hcslot)
      have hclt := h.slots.lt_length hcslot
      rw [hself, hget _ (by omega), List.getElem?_set_self hclt, hdreg.2, hback]
    · have heslot := slot_of_registered hereg
      have helt := h.slots.lt_length heslot
      have hne : (s.channel e).index.toNat ≠ s.pollfds.length - 1 := by
        intro heq
        rw [heq] at heslot
        exact hed (h.slots.inj heslot hd)
      have hce : (s.channel c).index.toNat ≠ (s.channel e).index.toNat := by
        intro heq
        rw [← heq] at heslot
        exact he (h.slots.inj heslot hcslot)
      rw [hindex e hed, hget _ (by omega), List.getElem?_set_ne hce]

theorem step_regular (h : s.Placed (Encodes fd) fd) (a : EPollState.Label ι)
    (hregular : Regular s a) :
    ∃ s', step s a = .ok s' ∧ StepRight fd s a s' ∧ s'.Placed (Encodes fd) fd := by
  cases a with
  | updateChannel c e =>
    have hright : ∀ {s' : PollPoller ι}, s'.Placed (Encodes fd) fd →
        StepRight fd s (.updateChannel c e) s' := fun hs' => ⟨slotsRight_of_placed hs', nofun⟩
    by_cases hreg : s.Registered c
    · obtain ⟨-, -, -, hnonneg, hlt⟩ := h.slot_get hreg
      have hplaced : (s.changed c e).Placed (Encodes fd) fd := by
        refine h.changed hreg ?_ fun _ hentry => hentry
        rw [Encodes, ← h.fd_eq]
        exact monitored_encodes _
      exact ⟨_, step_change hnonneg hlt e, hright hplaced, hplaced⟩
    · have hplaced : (s.added c e).Placed (Encodes fd) fd := by
        refine h.added hreg ?_ fun _ hentry => hentry
        rw [Encodes, ← h.fd_eq]
        exact .inl rfl
      exact ⟨_, step_add (hregular.resolve_left hreg) e, hright hplaced, hplaced⟩
  | removeChannel c =>
    by_cases hreg : s.Registered c
    · obtain ⟨d, back, hd, hback, hentry⟩ := h.exists_last hreg
      have hplaced := h.removed hreg hd hback fun hentry => hentry
      refine ⟨_, step_remove h hreg hd hback hentry, ⟨slotsRight_of_placed hplaced, ?_⟩, hplaced⟩
      intro e he _
      cases he
      exact keepsOthers_removed h hreg hd hback
    · refine ⟨s, if_neg hreg, ⟨slotsRight_of_placed h, ?_⟩, h⟩
      intro e he hereg
      cases he
      exact absurd hereg hreg

/-- The index that a removed channel still has is no slot at all, or the slot of
another channel, which the update takes away. -/
theorem step_not_regular (h : s.Placed (Encodes fd) fd) {a : EPollState.Label ι}
    (hregular : ¬ Regular s a) {s' : PollPoller ι} (hstep : step s a = .ok s') :
    ¬ SlotsRight fd s' := by
  cases a with
  | removeChannel c => exact absurd trivial hregular
  | updateChannel c e =>
    obtain ⟨hreg, hindex⟩ := not_or.mp hregular
    have hnonneg := Int.not_lt.mp hindex
    by_cases hlt : (s.channel c).index < s.pollfds.length
    · rw [step_change hnonneg hlt e] at hstep
      cases hstep
      obtain ⟨d, hd⟩ := h.slots.owner (show (s.channel c).index.toNat < s.pollfds.length by omega)
      obtain ⟨hdreg, hdindex⟩ := registered_of_slot hd
      have hdc : d ≠ c := by
        rintro rfl
        exact hreg hdreg
      intro hright
      obtain ⟨pfd, hget, hpfd⟩ := hright.slot_fd d ((registered_changed s c d e).mpr hdreg)
      -- the slot of `d` now has the descriptor of `c`
      have hslot : pfd.fd = monitored { s.channel c with events := e } := by
        have hdlt := h.slots.lt_length hd
        simp only [changed, update_of_ne hdc, hdindex,
          List.getElem?_set_self hdlt, Option.some.injEq] at hget
        rw [← hget]
      have hother : Encodes fd c pfd := by
        rw [Encodes, hslot, ← h.fd_eq]
        exact monitored_encodes _
      exact hdc (encodes_inj hpfd hother)
    · have hslot : slotAt s.pollfds (s.channel c).index = none := by
        rw [slotAt, if_neg hindex, List.getElem?_eq_none (by omega)]
      simp [step, updateChannel, hindex, hslot] at hstep

theorem takes_iff (h : s.Placed (Encodes fd) fd) (as : List (EPollState.Label ι)) :
    Takes step (StepRight fd) s as ↔ Meets step Regular s as :=
  takes_iff_meets (fun _ a hs ha => step_regular hs a ha)
    (fun _ _ _ hs ha hstep hright => step_not_regular hs ha hstep hright.1) h as

/-- **The slots of a `PollPoller`.** Without its assertions, the slots are right after
every step and every removal keeps the other channels, exactly when no channel is
updated again after it was removed. -/
theorem slots_iff_regular (fd : ι ↪ Nat) (as : List (EPollState.Label ι)) :
    SlotsRight fd (create fd) ∧
      (Takes step (StepRight fd) (create fd) as ↔ Meets step Regular (create fd) as) :=
  ⟨slotsRight_of_placed (placed_create _ fd), takes_iff (placed_create _ fd) as⟩

/-- Two channels are added, the first is removed, which moves the second one into its
slot, and the first is added again: it writes into that slot. -/
theorem slots_broken_by_second_add :
    ¬ Takes step (StepRight Fin.valEmbedding) (create (Fin.valEmbedding (n := 2)))
      [.updateChannel 0 kReadEvent, .updateChannel 1 kReadEvent, .removeChannel 0,
        .updateChannel 0 kReadEvent] := by
  rw [takes_iff (placed_create _ _)]
  decide

end NoAssert

end Muduo.PollPoller
