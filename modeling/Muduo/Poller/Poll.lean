import Muduo.Lib.Slots
import Muduo.Poller.EPoll

/-!
# Muduo.Poller.Poll

The `PollPoller` (`net/poller/PollPoller.cc`): a vector of `struct pollfd`,
where the `index_` of a channel is the position of its slot, and a slot that
`poll(2)` is to ignore has the negative descriptor `-fd - 1`.

A removal moves the last slot into the gap and sets the `index_` of the channel
that the last slot belongs to, so the functions work on the memory of all
channels.  The vector is one of `Muduo.Lib.Slots`.

Descriptors and sizes are `int`s in the code; there are fewer descriptors than
`INT_MAX`, so nothing here is computed beyond that.
-/

namespace Muduo

open Lib Function

/-- A channel that a `PollPoller` knows. -/
structure PollChannel where
  fd : Nat
  events : Events
  index : Int
deriving DecidableEq, Repr

def PollChannel.create (fd : Nat) : PollChannel := ⟨fd, kNoneEvent, -1⟩

def PollChannel.isNoneEvent (ch : PollChannel) : Bool := ch.events = kNoneEvent

structure PollFd where
  fd : Int
  events : Events
  revents : Events
deriving DecidableEq, Repr

/-- `ι` is the type of the pointers to channels, `channel` their memory. -/
structure PollPoller (ι : Type) where
  channels : Int → Option ι
  pollfds : List PollFd
  channel : ι → PollChannel

namespace PollPoller

inductive Assert
  | updateFoundNew
  | updateNotFound
  | updateOther
  | updateIndex
  | updateFd
  | removeNotFound
  | removeOther
  | removeNoneEvent
  | removeIndex
  | removeFd
  | removeErase
  | activeNotFound
  | activeFd
deriving DecidableEq, Repr

/-- A failed assertion, an access outside `pollfds_`, or a null pointer in
`channels_`. -/
inductive Fault
  | assertion (site : Assert)
  | outOfRange
  | nullChannel
deriving DecidableEq, Repr

/-- The descriptor of a slot that is ignored. -/
def ignored (fd : Nat) : Int := -(fd : Int) - 1

/-- The descriptor in the slot of a channel after an update. -/
def monitored (ch : PollChannel) : Int := if ch.isNoneEvent then ignored ch.fd else ch.fd

section model
variable {ι : Type} [DecidableEq ι]

/-- `PollPoller::updateChannel` for a new channel: add to `pollfds_`. -/
def addChannel (s : PollPoller ι) (c : ι) : Except Fault (PollPoller ι) := do
  let ch := s.channel c
  check (.assertion .updateFoundNew) (s.channels ch.fd = none)
  let pollfds := s.pollfds ++ [⟨ch.fd, ch.events, {}⟩]
  let idx : Int := pollfds.length - 1
  return {
    pollfds
    channel := update s.channel c { ch with index := idx }
    channels := update s.channels ch.fd (some c) }

def updateChannel (s : PollPoller ι) (c : ι) : Except Fault (PollPoller ι) :=
  let ch := s.channel c
  if ch.index < 0 then
    s.addChannel c
  else do
    check (.assertion .updateNotFound) (s.channels ch.fd ≠ none)
    check (.assertion .updateOther) (s.channels ch.fd = some c)
    let idx := ch.index
    check (.assertion .updateIndex) (0 ≤ idx ∧ idx < s.pollfds.length)
    match s.pollfds[idx.toNat]? with
    | none => .error .outOfRange
    | some pfd => do
      check (.assertion .updateFd) (pfd.fd = ch.fd ∨ pfd.fd = ignored ch.fd)
      return { s with pollfds := s.pollfds.set idx.toNat ⟨monitored ch, ch.events, {}⟩ }

/-- The end of `PollPoller::removeChannel`: the slot `idx` goes. -/
def eraseSlot (s : PollPoller ι) (idx : Int) : Except Fault (PollPoller ι) :=
  if idx.toNat = s.pollfds.length - 1 then
    .ok { s with pollfds := s.pollfds.dropLast }
  else
    match s.pollfds[s.pollfds.length - 1]? with
    | none => .error .outOfRange
    | some back =>
      let channelAtEnd := if back.fd < 0 then -back.fd - 1 else back.fd
      match s.channels channelAtEnd with
      | none => .error .nullChannel
      | some d => .ok { s with
          -- `iter_swap`, then `pop_back`
          pollfds := (s.pollfds.set idx.toNat back).dropLast
          channel := update s.channel d { s.channel d with index := idx } }

def removeChannel (s : PollPoller ι) (c : ι) : Except Fault (PollPoller ι) := do
  let ch := s.channel c
  check (.assertion .removeNotFound) (s.channels ch.fd ≠ none)
  check (.assertion .removeOther) (s.channels ch.fd = some c)
  check (.assertion .removeNoneEvent) (ch.isNoneEvent = true)
  let idx := ch.index
  check (.assertion .removeIndex) (0 ≤ idx ∧ idx < s.pollfds.length)
  match s.pollfds[idx.toNat]? with
  | none => .error .outOfRange
  | some pfd => do
    check (.assertion .removeFd) (pfd.fd = ignored ch.fd ∧ pfd.events = ch.events)
    let n := if s.channels ch.fd = none then 0 else 1
    check (.assertion .removeErase) (n = 1)
    eraseSlot { s with channels := update s.channels ch.fd none } idx

/-- `poll(2)` with the answer `ready` of the kernel for each descriptor:
negative descriptors are ignored. -/
def polled (ready : Int → Events) (pfd : PollFd) : PollFd :=
  { pfd with revents := if pfd.fd < 0 then {} else ready pfd.fd }

/-- `PollPoller::fillActiveChannels` from a position of `pollfds_` on. -/
def fillActiveChannels (s : PollPoller ι) : List PollFd → Nat → Except Fault (List ι)
  | [], _ => .ok []
  | _, 0 => .ok []
  | pfd :: rest, numEvents + 1 =>
    if pfd.revents = {} then fillActiveChannels s rest (numEvents + 1)
    else
      match s.channels pfd.fd with
      | none => .error (.assertion .activeNotFound)
      | some c => do
        check (.assertion .activeFd) (((s.channel c).fd : Int) = pfd.fd)
        let active ← fillActiveChannels s rest numEvents
        return c :: active

/-- `PollPoller::poll` when `poll(2)` has found events. -/
def poll (s : PollPoller ι) (ready : Int → Events) : Except Fault (List ι) :=
  let pollfds := s.pollfds.map (polled ready)
  s.fillActiveChannels pollfds (pollfds.countP fun pfd => pfd.revents ≠ {})

/-- New channels with the distinct descriptors `fd`. -/
def create (fd : ι ↪ Nat) : PollPoller ι where
  channels := fun _ => none
  pollfds := []
  channel := fun c => .create (fd c)

def Registered (s : PollPoller ι) (c : ι) : Prop := s.channels (s.channel c).fd ≠ none

instance (s : PollPoller ι) (c : ι) : Decidable (s.Registered c) :=
  inferInstanceAs (Decidable (¬ _))

/-- Only a registered channel with no interest is removed. -/
def CanRemove (s : PollPoller ι) (c : ι) : Prop :=
  s.Registered c ∧ (s.channel c).isNoneEvent = true

instance (s : PollPoller ι) (c : ι) : Decidable (s.CanRemove c) :=
  inferInstanceAs (Decidable (_ ∧ _))

/-- The same calls as those of the `EPollPoller`. -/
def step (s : PollPoller ι) : EPollState.Label ι → Except Fault (PollPoller ι)
  | .updateChannel c events =>
    updateChannel { s with channel := update s.channel c { s.channel c with events } } c
  | .removeChannel c => if s.CanRemove c then s.removeChannel c else .ok s

end model

/-! ## the slots -/

variable {ι : Type}

/-- The slot of a channel: its descriptor, or the negative one when there is no
interest, and its events. -/
def Entry (s : PollPoller ι) (c : ι) (pfd : PollFd) : Prop :=
  pfd.fd = monitored (s.channel c) ∧ pfd.events = (s.channel c).events

/-- The position of the slot of a registered channel. -/
def slot (s : PollPoller ι) (c : ι) : Option Nat :=
  if s.Registered c then some (s.channel c).index.toNat else none

/-- Every registered channel has a slot of its own, to which `R` relates it. -/
structure Placed (R : ι → PollFd → Prop) (fd : ι ↪ Nat) (s : PollPoller ι) : Prop where
  fd_eq : ∀ c, (s.channel c).fd = fd c
  found : ∀ n c, s.channels n = some c → n = (s.channel c).fd
  index_nonneg : ∀ c, s.Registered c → 0 ≤ (s.channel c).index
  slots : Slots R s.slot s.pollfds

structure Inv (fd : ι ↪ Nat) (s : PollPoller ι) : Prop where
  fd_eq : ∀ c, (s.channel c).fd = fd c
  found : ∀ n c, s.channels n = some c → n = (s.channel c).fd
  index_nonneg : ∀ c, s.Registered c → 0 ≤ (s.channel c).index
  slots : Slots s.Entry s.slot s.pollfds

theorem inv_iff_placed {fd : ι ↪ Nat} {s : PollPoller ι} : s.Inv fd ↔ s.Placed s.Entry fd :=
  ⟨fun h => ⟨h.fd_eq, h.found, h.index_nonneg, h.slots⟩,
    fun h => ⟨h.fd_eq, h.found, h.index_nonneg, h.slots⟩⟩

theorem Inv.placed {fd : ι ↪ Nat} {s : PollPoller ι} (h : s.Inv fd) : s.Placed s.Entry fd :=
  inv_iff_placed.mp h

variable {ch : PollChannel}

theorem monitored_eq_iff {n : Nat} : monitored ch = n ↔ ch.fd = n ∧ ch.events ≠ kNoneEvent := by
  unfold monitored ignored PollChannel.isNoneEvent
  by_cases he : ch.events = kNoneEvent
  · simp only [he, decide_true, if_true, ne_eq, not_true_eq_false, and_false, iff_false]
    omega
  · simp only [he, decide_false, Bool.false_eq_true, if_false, ne_eq, not_false_eq_true, and_true]
    omega

theorem monitored_of_none (h : ch.isNoneEvent = true) : monitored ch = ignored ch.fd := if_pos h

theorem channelAtEnd_eq (ch : PollChannel) :
    (if monitored ch < 0 then -monitored ch - 1 else monitored ch) = ch.fd := by
  unfold monitored ignored
  split <;> split <;> omega

section
variable {R : ι → PollFd → Prop} {fd : ι ↪ Nat} {s : PollPoller ι} {c d : ι}

theorem slot_of_registered (h : s.Registered c) :
    s.slot c = some (s.channel c).index.toNat := if_pos h

theorem registered_of_slot {k : Nat} (h : s.slot c = some k) :
    s.Registered c ∧ (s.channel c).index.toNat = k := by
  unfold slot at h
  split at h
  · rename_i hreg
    exact ⟨hreg, Option.some.inj h⟩
  · cases h

theorem slot_congr {s' : PollPoller ι} (hreg : s'.Registered d ↔ s.Registered d)
    (hindex : (s'.channel d).index = (s.channel d).index) : s'.slot d = s.slot d := by
  unfold slot
  by_cases hd : s.Registered d
  · rw [if_pos hd, if_pos (hreg.mpr hd), hindex]
  · rw [if_neg hd, if_neg (hd ∘ hreg.mp)]

theorem Placed.fd_ne (h : s.Placed R fd) (hne : d ≠ c) :
    ((s.channel d).fd : Int) ≠ (s.channel c).fd := by
  rw [h.fd_eq, h.fd_eq]
  exact fun heq => hne (fd.injective (Int.ofNat.inj heq))

theorem Placed.channels_eq (h : s.Placed R fd) (hreg : s.Registered c) :
    s.channels (s.channel c).fd = some c := by
  obtain ⟨d, hd⟩ := Option.ne_none_iff_exists'.mp hreg
  have hfd := h.found _ d hd
  rw [h.fd_eq, h.fd_eq] at hfd
  rw [hd, fd.injective (Int.ofNat.inj hfd)]

theorem Placed.slot_get (h : s.Placed R fd) (hreg : s.Registered c) :
    ∃ pfd, s.pollfds[(s.channel c).index.toNat]? = some pfd ∧ R c pfd ∧
      0 ≤ (s.channel c).index ∧ (s.channel c).index < s.pollfds.length := by
  obtain ⟨pfd, hget, hentry⟩ := h.slots.entry (slot_of_registered hreg)
  have hnonneg := h.index_nonneg c hreg
  have hlt := h.slots.lt_length (slot_of_registered hreg)
  exact ⟨pfd, hget, hentry, hnonneg, by omega⟩

theorem Placed.exists_last (h : s.Placed R fd) (hreg : s.Registered c) :
    ∃ d back, s.slot d = some (s.pollfds.length - 1) ∧
      s.pollfds[s.pollfds.length - 1]? = some back ∧ R d back := by
  have hlt := h.slots.lt_length (slot_of_registered hreg)
  obtain ⟨d, hd⟩ := h.slots.owner (show s.pollfds.length - 1 < s.pollfds.length by omega)
  obtain ⟨back, hback, hentry⟩ := h.slots.entry hd
  exact ⟨d, back, hd, hback, hentry⟩

theorem placed_create (R : ι → PollFd → Prop) (fd : ι ↪ Nat) : (create fd).Placed R fd :=
  ⟨fun _ => rfl, fun _ _ hn => (nomatch hn), fun _ hreg => absurd rfl hreg, by
    have hslot : (create fd).slot = fun _ => none := funext fun _ => rfl
    rw [hslot]
    exact Slots.empty⟩

theorem inv_create (fd : ι ↪ Nat) : (create fd).Inv fd :=
  inv_iff_placed.mpr (placed_create _ fd)

/-! ## poll(2) -/

theorem fillActiveChannels_spec {P : ι → Prop} {l : List PollFd} (hl : ∀ pfd ∈ l, pfd.revents ≠ {} →
      ∃ c, s.channels pfd.fd = some c ∧ ((s.channel c).fd : Int) = pfd.fd ∧ P c) (n : Nat) :
    ∃ active, s.fillActiveChannels l n = .ok active ∧ ∀ c ∈ active, P c := by
  induction l generalizing n with
  | nil => exact ⟨[], by simp [fillActiveChannels], by simp⟩
  | cons pfd rest ih =>
    have hrest := ih fun q hq => hl q (List.mem_cons_of_mem pfd hq)
    cases n with
    | zero => exact ⟨[], by simp [fillActiveChannels], by simp⟩
    | succ n =>
      by_cases hrev : pfd.revents = {}
      · obtain ⟨active, hok, hactive⟩ := hrest (n + 1)
        exact ⟨active, by rw [fillActiveChannels, if_pos hrev, hok], hactive⟩
      · obtain ⟨c, hch, hfd, hP⟩ := hl pfd List.mem_cons_self hrev
        obtain ⟨active, hok, hactive⟩ := hrest n
        refine ⟨c :: active, ?_, List.forall_mem_cons.mpr ⟨hP, hactive⟩⟩
        rw [fillActiveChannels, if_neg hrev]
        simp only [hch]
        rw [check_of hfd, hok]
        rfl

/-- Whatever the kernel answers, the channels that `poll` reports are
registered and have some interest. -/
theorem Inv.poll_spec (h : s.Inv fd) (ready : Int → Events) :
    ∃ active, s.poll ready = .ok active ∧
      ∀ c ∈ active, s.Registered c ∧ (s.channel c).events ≠ kNoneEvent := by
  refine fillActiveChannels_spec (fun pfd hpfd hrev => ?_) _
  obtain ⟨q, hq, rfl⟩ := List.mem_map.mp hpfd
  obtain ⟨c, k, hc, -, hentry⟩ := h.slots.exists_of_mem hq
  have hreg := (registered_of_slot hc).1
  have hnonneg : ¬ q.fd < 0 := by
    intro hneg
    simp [polled, hneg] at hrev
  have hfd : q.fd = (s.channel c).fd ∧ (s.channel c).events ≠ kNoneEvent := by
    obtain ⟨n, hn⟩ := Int.eq_ofNat_of_zero_le (Int.not_lt.mp hnonneg)
    have hmon := monitored_eq_iff.mp (hentry.1.symm.trans hn)
    exact ⟨by rw [hn, hmon.1], hmon.2⟩
  refine ⟨c, ?_, hfd.1.symm, hreg, hfd.2⟩
  show s.channels q.fd = some c
  rw [hfd.1]
  exact h.placed.channels_eq hreg

end

variable [DecidableEq ι]

/-! ## an update -/

/-- A new channel, added with the interest set `e`. -/
def added (s : PollPoller ι) (c : ι) (e : Events) : PollPoller ι where
  channels := update s.channels (s.channel c).fd (some c)
  pollfds := s.pollfds ++ [⟨(s.channel c).fd, e, {}⟩]
  channel := update s.channel c ⟨(s.channel c).fd, e, s.pollfds.length⟩

/-- A registered channel, updated to the interest set `e`. -/
def changed (s : PollPoller ι) (c : ι) (e : Events) : PollPoller ι where
  channels := s.channels
  pollfds := s.pollfds.set (s.channel c).index.toNat
    ⟨monitored { s.channel c with events := e }, e, {}⟩
  channel := update s.channel c { s.channel c with events := e }

section
variable {R R' : ι → PollFd → Prop} {fd : ι ↪ Nat} {s : PollPoller ι} {c d : ι}

theorem step_add (hnew : (s.channel c).index < 0) (hreg : ¬ s.Registered c) (e : Events) :
    s.step (.updateChannel c e) = .ok (s.added c e) := by
  have hnone : s.channels (s.channel c).fd = none := not_not.mp hreg
  simp only [step, updateChannel, addChannel, update_self, hnew, if_true]
  rw [check_of hnone]
  simp [added, bind, Except.bind, pure, Except.pure]

theorem Inv.step_change (h : s.Inv fd) (hreg : s.Registered c) (e : Events) :
    s.step (.updateChannel c e) = .ok (s.changed c e) := by
  obtain ⟨pfd, hget, hentry, hnonneg, hlt⟩ := h.placed.slot_get hreg
  have hch := h.placed.channels_eq hreg
  have hfd : pfd.fd = (s.channel c).fd ∨ pfd.fd = ignored (s.channel c).fd := by
    rw [hentry.1, monitored]
    split
    · exact .inr rfl
    · exact .inl rfl
  simp only [step, updateChannel, update_self]
  rw [if_neg (by omega), check_of (by simp [hch]), check_of hch, check_of ⟨hnonneg, hlt⟩]
  dsimp only [bind, Except.bind]
  rw [hget]
  dsimp only
  rw [check_of hfd]
  rfl

theorem Placed.registered_added (h : s.Placed R fd) (c d : ι) (e : Events) :
    (s.added c e).Registered d ↔ d = c ∨ s.Registered d := by
  by_cases hd : d = c
  · subst hd
    simp [Registered, PollPoller.added]
  · simp [Registered, PollPoller.added, hd, h.fd_ne hd]

theorem slot_added (h : s.Placed R fd) (c : ι) (e : Events) :
    (s.added c e).slot = update s.slot c (some s.pollfds.length) := by
  funext d
  by_cases hd : d = c
  · subst hd
    simp [slot, Registered, added]
  · rw [update_of_ne hd]
    exact slot_congr (by simp [h.registered_added, hd]) (by simp [added, hd])

variable {e : Events}

theorem Placed.added (h : s.Placed R fd) (hreg : ¬ s.Registered c)
    (hx : R' c ⟨(s.channel c).fd, e, {}⟩) (hR : ∀ {d y}, d ≠ c → R d y → R' d y) :
    (s.added c e).Placed R' fd := by
  have hfd : ∀ d, ((s.added c e).channel d).fd = (s.channel d).fd := by
    refine (forall_update_iff _ fun d (ch : PollChannel) => ch.fd = (s.channel d).fd).mpr ?_
    exact ⟨rfl, fun _ _ => rfl⟩
  refine ⟨fun d => (hfd d).trans (h.fd_eq d), fun n d hn => ?_, fun d hd => ?_, ?_⟩
  · rw [hfd]
    by_cases hnc : n = (s.channel c).fd
    · subst hnc
      obtain rfl : c = d := by simpa [PollPoller.added] using hn
      rfl
    · exact h.found n d ((update_of_ne hnc _ _).symm.trans hn)
  · by_cases hdc : d = c
    · subst hdc
      simp [PollPoller.added]
    · have hold : s.Registered d := ((h.registered_added c d e).mp hd).resolve_left hdc
      simpa [PollPoller.added, hdc] using h.index_nonneg d hold
  · rw [slot_added h]
    have hkeep : Slots R' s.slot s.pollfds := by
      refine h.slots.congr fun {d k x} hd hentry => hR ?_ hentry
      rintro rfl
      exact hreg (registered_of_slot hd).1
    exact hkeep.push (if_neg hreg) hx

theorem Inv.added (h : s.Inv fd) (hreg : ¬ s.Registered c) (he : e ≠ kNoneEvent) :
    (s.added c e).Inv fd := by
  refine inv_iff_placed.mpr (h.placed.added hreg ⟨?_, ?_⟩ fun hdc hentry => ?_)
  · simp [PollPoller.added, monitored, PollChannel.isNoneEvent, he]
  · simp [PollPoller.added]
  · simpa [Entry, PollPoller.added, hdc] using hentry

theorem registered_changed (s : PollPoller ι) (c d : ι) (e : Events) :
    (s.changed c e).Registered d ↔ s.Registered d := by
  by_cases hd : d = c
  · subst hd
    simp [Registered, changed]
  · simp [Registered, changed, hd]

theorem slot_changed (s : PollPoller ι) (c : ι) (e : Events) : (s.changed c e).slot = s.slot := by
  funext d
  by_cases hd : d = c
  · subst hd
    exact slot_congr (registered_changed s d d e) (by simp [changed])
  · exact slot_congr (registered_changed s c d e) (by simp [changed, hd])

theorem Placed.changed (h : s.Placed R fd) (hreg : s.Registered c)
    (hx : R' c ⟨monitored { s.channel c with events := e }, e, {}⟩)
    (hR : ∀ {d y}, d ≠ c → R d y → R' d y) : (s.changed c e).Placed R' fd := by
  have hfd : ∀ d, ((s.changed c e).channel d).fd = (s.channel d).fd := by
    refine (forall_update_iff _ fun d (ch : PollChannel) => ch.fd = (s.channel d).fd).mpr ?_
    exact ⟨rfl, fun _ _ => rfl⟩
  have hindex : ∀ d, ((s.changed c e).channel d).index = (s.channel d).index := by
    refine (forall_update_iff _
      fun d (ch : PollChannel) => ch.index = (s.channel d).index).mpr ?_
    exact ⟨rfl, fun _ _ => rfl⟩
  refine ⟨fun d => (hfd d).trans (h.fd_eq d), fun n d hn => ?_, fun d hd => ?_, ?_⟩
  · rw [hfd]
    exact h.found n d hn
  · rw [hindex]
    exact h.index_nonneg d ((registered_changed s c d e).mp hd)
  · rw [slot_changed]
    exact h.slots.set (slot_of_registered hreg) hx hR

theorem Inv.changed (h : s.Inv fd) (hreg : s.Registered c) (e : Events) :
    (s.changed c e).Inv fd := by
  refine inv_iff_placed.mpr (h.placed.changed hreg ⟨?_, ?_⟩ fun hdc hentry => ?_)
  · simp [PollPoller.changed]
  · simp [PollPoller.changed]
  · simpa [Entry, PollPoller.changed, hdc] using hentry

/-! ## a removal -/

/-- The channel `c` is removed, and the last slot `back`, that of `d`, moves
into its place.  `index_` of `c` stays as it is, unless `c` is `d`. -/
def removed (s : PollPoller ι) (c d : ι) (back : PollFd) : PollPoller ι where
  channels := update s.channels (s.channel c).fd none
  pollfds := (s.pollfds.set (s.channel c).index.toNat back).dropLast
  channel := update s.channel d { s.channel d with index := (s.channel c).index }

variable {back : PollFd}

/-- The last slot tells the descriptor of its channel, negative or not. -/
theorem Placed.eraseSlot_eq (h : s.Placed R fd) (hreg : s.Registered c)
    (hd : s.slot d = some (s.pollfds.length - 1))
    (hback : s.pollfds[s.pollfds.length - 1]? = some back)
    (hend : (if back.fd < 0 then -back.fd - 1 else back.fd) = (s.channel d).fd) :
    eraseSlot { s with channels := update s.channels (s.channel c).fd none }
      (s.channel c).index = .ok (s.removed c d back) := by
  unfold eraseSlot
  by_cases hlast : (s.channel c).index.toNat = s.pollfds.length - 1
  · -- `c` has the last slot itself
    obtain rfl : c = d := h.slots.inj (slot_of_registered hreg) (hlast ▸ hd)
    have hset : s.pollfds.set (s.channel c).index.toNat back = s.pollfds := by
      rw [hlast]
      obtain ⟨hlt, hget⟩ := List.getElem?_eq_some_iff.mp hback
      rw [← hget, List.set_getElem_self]
    have hsame : update s.channel c { s.channel c with index := (s.channel c).index } =
        s.channel := update_eq_self c s.channel
    rw [if_pos hlast]
    simp only [removed, hset, hsame]
  · have hdc : d ≠ c := by
      rintro rfl
      rw [slot_of_registered hreg] at hd
      exact hlast (Option.some.inj hd)
    have hfound : update s.channels (s.channel c).fd none (s.channel d).fd = some d := by
      rw [update_of_ne (h.fd_ne hdc)]
      exact h.channels_eq (registered_of_slot hd).1
    rw [if_neg hlast]
    simp only [hback, hend, hfound]
    rfl

theorem Inv.step_remove (h : s.Inv fd) (hcan : s.CanRemove c)
    (hd : s.slot d = some (s.pollfds.length - 1))
    (hback : s.pollfds[s.pollfds.length - 1]? = some back) (hentry : s.Entry d back) :
    s.step (.removeChannel c) = .ok (s.removed c d back) := by
  obtain ⟨pfd, hget, hpfd, hnonneg, hlt⟩ := h.placed.slot_get hcan.1
  have hch := h.placed.channels_eq hcan.1
  have hfd : pfd.fd = ignored (s.channel c).fd ∧ pfd.events = (s.channel c).events :=
    ⟨hpfd.1.trans (monitored_of_none hcan.2), hpfd.2⟩
  simp only [step]
  rw [if_pos hcan, removeChannel]
  dsimp only
  rw [check_of (by simp [hch]), check_of hch, check_of hcan.2, check_of ⟨hnonneg, hlt⟩]
  dsimp only [bind, Except.bind]
  rw [hget]
  dsimp only
  rw [check_of hfd, check_of (by simp [hch])]
  have hend : (if back.fd < 0 then -back.fd - 1 else back.fd) = (s.channel d).fd := by
    rw [hentry.1, channelAtEnd_eq]
  exact h.placed.eraseSlot_eq hcan.1 hd hback hend

theorem fd_removed (s : PollPoller ι) (c d : ι) (back : PollFd) (e : ι) :
    ((s.removed c d back).channel e).fd = (s.channel e).fd := by
  refine (forall_update_iff _ fun d (ch : PollChannel) => ch.fd = (s.channel d).fd).mpr ?_ e
  exact ⟨rfl, fun _ _ => rfl⟩

theorem events_removed (s : PollPoller ι) (c d : ι) (back : PollFd) (e : ι) :
    ((s.removed c d back).channel e).events = (s.channel e).events := by
  refine (forall_update_iff _
    fun d (ch : PollChannel) => ch.events = (s.channel d).events).mpr ?_ e
  exact ⟨rfl, fun _ _ => rfl⟩

theorem Placed.registered_removed (h : s.Placed R fd) (c d : ι) (back : PollFd) (e : ι) :
    (s.removed c d back).Registered e ↔ s.Registered e ∧ e ≠ c := by
  unfold Registered
  rw [fd_removed]
  by_cases hec : e = c
  · subst hec
    simp [removed]
  · simp [removed, h.fd_ne hec, hec]

theorem Placed.slot_removed (h : s.Placed R fd) (hreg : s.Registered d) :
    (s.removed c d back).slot =
      update (update s.slot d (some (s.channel c).index.toNat)) c none := by
  funext e
  by_cases hec : e = c
  · subst hec
    rw [update_self]
    exact if_neg fun hreg => ((h.registered_removed _ _ _ _).mp hreg).2 rfl
  · rw [update_of_ne hec]
    by_cases hed : e = d
    · subst hed
      rw [update_self, slot_of_registered ((h.registered_removed _ _ _ _).mpr ⟨hreg, hec⟩)]
      simp [removed]
    · rw [update_of_ne hed]
      exact slot_congr (by simp [h.registered_removed, hec]) (by simp [removed, hed])

theorem Placed.removed (h : s.Placed R fd) (hreg : s.Registered c)
    (hd : s.slot d = some (s.pollfds.length - 1))
    (hback : s.pollfds[s.pollfds.length - 1]? = some back) (hR : ∀ {e y}, R e y → R' e y) :
    (s.removed c d back).Placed R' fd := by
  have hfd := fd_removed s c d back
  refine ⟨fun e => (hfd e).trans (h.fd_eq e), fun n e hn => ?_, fun e he => ?_, ?_⟩
  · rw [hfd]
    by_cases hnc : n = (s.channel c).fd
    · subst hnc
      simp [PollPoller.removed] at hn
    · exact h.found n e ((update_of_ne hnc _ _).symm.trans hn)
  · by_cases hed : e = d
    · subst hed
      simpa [PollPoller.removed] using h.index_nonneg c hreg
    · have hold := ((h.registered_removed _ _ _ _).mp he).1
      simpa [PollPoller.removed, hed] using h.index_nonneg e hold
  · rw [h.slot_removed (registered_of_slot hd).1]
    exact (h.slots.swapRemove (slot_of_registered hreg) hd hback).congr fun _ hentry => hR hentry

theorem Inv.removed (h : s.Inv fd) (hreg : s.Registered c)
    (hd : s.slot d = some (s.pollfds.length - 1))
    (hback : s.pollfds[s.pollfds.length - 1]? = some back) : (s.removed c d back).Inv fd := by
  refine inv_iff_placed.mpr (h.placed.removed hreg hd hback fun hentry => ?_)
  simpa [Entry, monitored, PollChannel.isNoneEvent, fd_removed, events_removed] using hentry

end

end PollPoller

end Muduo
