import Muduo.Poller.Poll

/-!
# Muduo.Poller.Agree

The two pollers side by side, under the same operations on the same channels.

`EPollPoller` keeps a channel without interest in the state `kDeleted`,
`PollPoller` in a slot with a negative descriptor.  Both get there by an update
of a channel that had some interest.  They do not for a channel whose first
operation leaves it without interest, nor does `EPollPoller` for one that has
lost its interest before; and `PollPoller` leaves the `index_` of a removed
channel as it was, so that the channel cannot be used again.

`pollers_agree_iff` says that these are all the cases: over a run without them,
and over no other, both pollers monitor the channels with some interest and
nothing else.
-/

namespace Muduo

open Lib

/-- The interest operations of `Channel.h`. -/
inductive Interest
  | enableReading
  | disableReading
  | enableWriting
  | disableWriting
  | disableAll
deriving DecidableEq, Repr

namespace Interest

/-- What the operation makes of `events_`. -/
def apply (o : Interest) (e : Events) : Events :=
  match o with
  | .enableReading => e.union kReadEvent
  | .disableReading => e.minus kReadEvent
  | .enableWriting => e.union kWriteEvent
  | .disableWriting => e.minus kWriteEvent
  | .disableAll => kNoneEvent

/-- The operation, on a channel of an `EPollPoller`. -/
def call (o : Interest) (ch : Channel) : EventLoop → Except Channel.Fault (EventLoop × Channel) :=
  match o with
  | .enableReading => ch.enableReading
  | .disableReading => ch.disableReading
  | .enableWriting => ch.enableWriting
  | .disableWriting => ch.disableWriting
  | .disableAll => ch.disableAll

theorem call_eq (o : Interest) (ch : Channel) : o.call ch = ch.setEvents (o.apply ch.events) := by
  cases o <;> rfl

end Interest

/-- An operation on one of the channels. -/
inductive ChannelCall (ι : Type)
  | interest (c : ι) (o : Interest)
  | remove (c : ι)
deriving DecidableEq

/-- Both pollers.  `removed` has the channels on which `remove()` was called;
no code reads it. -/
structure Pollers (ι : Type) where
  epoll : EPollState ι
  poll : PollPoller ι
  removed : ι → Bool

namespace Pollers

inductive Fault
  | epoll (f : Channel.Fault)
  | poll (f : PollPoller.Fault)
deriving DecidableEq

variable {ι : Type}

def create (addr : ι → Nat) (fd : ι ↪ Nat) : Pollers ι where
  epoll := .create addr fd
  poll := .create fd
  removed := fun _ => false

/-- The channel with the descriptor `n` is registered and interested in `e`. -/
def Interested (s : Pollers ι) (n : Nat) (e : Events) : Prop :=
  ∃ c, s.epoll.Registered c ∧ (s.epoll.channel c).fd = n ∧ (s.epoll.channel c).events = e ∧
    e ≠ kNoneEvent

/-- `poll(2)` is asked for the events `e` of the descriptor `n`. -/
def PollMonitors (s : Pollers ι) (n : Nat) (e : Events) : Prop :=
  ∃ pfd ∈ s.poll.pollfds, pfd.fd = n ∧ pfd.events = e

/-- Both pollers have the same channels, and monitor those with some interest
and nothing else; so no other channel is reported active. -/
structure Agree (s : Pollers ι) : Prop where
  events : ∀ c, (s.epoll.channel c).events = (s.poll.channel c).events
  registered : ∀ c, s.epoll.Registered c ↔ s.poll.Registered c
  epoll : ∀ n e, s.epoll.poller.kernel n = some e ↔ s.Interested n e
  poll : ∀ n e, s.PollMonitors n e ↔ s.Interested n e
  active : ∀ ready, ∃ active, s.poll.poll ready = .ok active ∧
    ∀ c ∈ active, (s.poll.channel c).events ≠ kNoneEvent

/-- An operation that leaves a channel without interest is made on one that had
some; and none is made on a removed channel. -/
def Regular (s : Pollers ι) : ChannelCall ι → Prop
  | .interest c o => s.removed c = false ∧
      (o.apply (s.epoll.channel c).events = kNoneEvent → (s.epoll.channel c).events ≠ kNoneEvent)
  | .remove _ => True

instance (s : Pollers ι) : (a : ChannelCall ι) → Decidable (s.Regular a)
  | .interest _ _ => inferInstanceAs (Decidable (_ ∧ (_ → _)))
  | .remove _ => .isTrue trivial

structure Inv (fd : ι ↪ Nat) (s : Pollers ι) : Prop where
  epoll : s.epoll.Inv fd
  poll : s.poll.Inv fd
  events : ∀ c, (s.epoll.channel c).events = (s.poll.channel c).events
  registered : ∀ c, s.epoll.Registered c ↔ s.poll.Registered c
  index : ∀ c, s.epoll.Registered c →
    (s.epoll.channel c).index = Channel.openIndex (s.epoll.channel c).events
  interest : ∀ c, (s.epoll.channel c).events ≠ kNoneEvent → s.epoll.Registered c
  fresh : ∀ c, ¬ s.poll.Registered c → ((s.poll.channel c).index < 0 ↔ s.removed c = false)
  used : ∀ c, s.poll.Registered c → s.removed c = false

section
variable {fd : ι ↪ Nat} {s : Pollers ι} {c : ι}

theorem Inv.kernel_iff (h : s.Inv fd) (n : Nat) (e : Events) :
    s.epoll.poller.kernel n = some e ↔ s.Interested n e := by
  have hin := h.epoll.inStep
  constructor
  · intro hk
    obtain ⟨c, hc⟩ := h.epoll.owner n (by simp [hk])
    have hn : (s.epoll.channel c).fd = n := (h.epoll.fd_eq c).trans hc
    have hreg : s.epoll.Registered c := by
      intro hnone
      have ht := h.epoll.tracks c
      simp only [EPollPoller.Tracks, (hin.new c).mpr hnone, hn, hk] at ht
      cases ht.2
    have hindex := h.index c hreg
    unfold Channel.openIndex at hindex
    split at hindex
    · have hdel := ((hin.deleted c).mp hindex).2
      rw [hn, hk] at hdel
      cases hdel
    · rename_i hne
      have hadd := (hin.added c).mp hindex
      rw [hn, hk] at hadd
      obtain rfl := Option.some.inj hadd
      exact ⟨c, hreg, hn, rfl, hne⟩
  · rintro ⟨c, hreg, rfl, rfl, hne⟩
    refine (hin.added c).mp ?_
    rw [h.index c hreg, Channel.openIndex, if_neg hne]

theorem Inv.pollMonitors_iff (h : s.Inv fd) (n : Nat) (e : Events) :
    s.PollMonitors n e ↔ s.Interested n e := by
  have hfd : ∀ c, (s.epoll.channel c).fd = (s.poll.channel c).fd :=
    fun c => (h.epoll.fd_eq c).trans (h.poll.fd_eq c).symm
  constructor
  · rintro ⟨pfd, hmem, hn, rfl⟩
    obtain ⟨c, k, hc, -, hentry⟩ := h.poll.slots.exists_of_mem hmem
    have hmon := PollPoller.monitored_eq_iff.mp (hentry.1.symm.trans hn)
    refine ⟨c, (h.registered c).mpr (PollPoller.registered_of_slot hc).1, ?_, ?_, ?_⟩
    · rw [hfd, hmon.1]
    · rw [h.events, hentry.2]
    · rw [hentry.2]
      exact hmon.2
  · rintro ⟨c, hreg, rfl, rfl, hne⟩
    obtain ⟨pfd, hget, hentry, -⟩ := h.poll.placed.slot_get ((h.registered c).mp hreg)
    refine ⟨pfd, List.mem_of_getElem? hget, ?_, ?_⟩
    · rw [hentry.1, hfd]
      exact PollPoller.monitored_eq_iff.mpr ⟨rfl, by rwa [← h.events]⟩
    · rw [hentry.2, h.events]

theorem Inv.agree (h : s.Inv fd) : s.Agree := by
  refine ⟨h.events, h.registered, h.kernel_iff, h.pollMonitors_iff, fun ready => ?_⟩
  obtain ⟨active, hok, hactive⟩ := h.poll.poll_spec ready
  exact ⟨active, hok, fun c hc => (hactive c hc).2⟩

theorem inv_create (addr : ι → Nat) (fd : ι ↪ Nat) : (create addr fd).Inv fd where
  epoll := EPollState.inv_create addr fd
  poll := PollPoller.inv_create fd
  events _ := rfl
  registered _ := by simp [create, EPollState.Registered, EPollState.create, PollPoller.Registered,
    PollPoller.create]
  index _ hreg := absurd rfl hreg
  interest _ hne := absurd rfl hne
  fresh _ _ := by simp [create, PollPoller.create, PollChannel.create]
  used _ _ := rfl

end

variable [DecidableEq ι]

def step (s : Pollers ι) : ChannelCall ι → Except Fault (Pollers ι)
  | .interest c o => do
    let epoll ← (s.epoll.step (.updateChannel c (o.apply (s.epoll.channel c).events))).mapError
      .epoll
    let poll ← (s.poll.step (.updateChannel c (o.apply (s.poll.channel c).events))).mapError .poll
    return { s with epoll, poll }
  | .remove c => do
    let removed := if s.epoll.CanRemove c then Function.update s.removed c true else s.removed
    let epoll ← (s.epoll.step (.removeChannel c)).mapError .epoll
    let poll ← (s.poll.step (.removeChannel c)).mapError .poll
    return { epoll, poll, removed }

section
variable {fd : ι ↪ Nat} {s : Pollers ι} {c : ι}

theorem Inv.update (h : s.Inv fd) {e : Events} {p : PollPoller ι} (hp : p.Inv fd)
    (hc : (p.channel c).events = e) (hreg : p.Registered c)
    (hother : ∀ d, d ≠ c → p.channel d = s.poll.channel d ∧
      (p.Registered d ↔ s.poll.Registered d))
    (hremoved : s.removed c = false)
    (he : e = kNoneEvent → (s.epoll.channel c).events ≠ kNoneEvent) :
    Inv fd ⟨s.epoll.updated c e, p, s.removed⟩ := by
  have hself : (s.epoll.updated c e).channel c = { s.epoll.channel c with
      events := e, index := Channel.nextIndex (s.epoll.channel c).index e } :=
    Function.update_self ..
  have hsame : ∀ d, d ≠ c → (s.epoll.updated c e).channel d = s.epoll.channel d :=
    fun d hd => Function.update_of_ne hd _ _
  refine ⟨h.epoll.updated c e, hp, fun d => ?_, fun d => ?_, fun d hd => ?_, fun d hd => ?_,
    fun d hd => ?_, fun d hd => ?_⟩ <;> by_cases hdc : d = c
  · subst hdc
    rw [hself, hc]
  · rw [hsame d hdc, (hother d hdc).1, h.events]
  · subst hdc
    simp [h.epoll.registered_updated, hreg]
  · rw [h.epoll.registered_updated, (hother d hdc).2, h.registered]
    simp [hdc]
  · subst hdc
    rw [hself]
    refine Channel.nextIndex_eq_openIndex ?_
    by_cases hnone : e = kNoneEvent
    · have hold := he hnone
      rw [h.index d (h.interest d hold), Channel.openIndex, if_neg hold]
      exact .inl rfl
    · exact .inr hnone
  · rw [hsame d hdc]
    exact h.index d (((h.epoll.registered_updated c d e).mp hd).resolve_left hdc)
  · exact (h.epoll.registered_updated c d e).mpr (.inl hdc)
  · rw [hsame d hdc] at hd
    exact (h.epoll.registered_updated c d e).mpr (.inr (h.interest d hd))
  · subst hdc
    exact absurd hreg hd
  · rw [(hother d hdc).1]
    exact h.fresh d (hd ∘ (hother d hdc).2.mpr)
  · rw [hdc, hremoved]
  · exact h.used d ((hother d hdc).2.mp hd)

theorem Inv.step_interest (h : s.Inv fd) {o : Interest} (hregular : s.Regular (.interest c o)) :
    ∃ s', s.step (.interest c o) = .ok s' ∧ s'.Inv fd := by
  obtain ⟨hremoved, he⟩ := hregular
  obtain ⟨e, hdef⟩ : ∃ e, e = o.apply (s.epoll.channel c).events := ⟨_, rfl⟩
  have hpoll : ∃ p, s.poll.step (.updateChannel c e) = .ok p ∧ p.Inv fd ∧
      (p.channel c).events = e ∧ p.Registered c ∧ ∀ d, d ≠ c → p.channel d = s.poll.channel d ∧
        (p.Registered d ↔ s.poll.Registered d) := by
    by_cases hreg : s.poll.Registered c
    · exact ⟨_, h.poll.step_change hreg e, h.poll.changed hreg e, by simp [PollPoller.changed],
        (PollPoller.registered_changed _ c c e).mpr hreg,
        fun d hd => ⟨Function.update_of_ne hd _ _, PollPoller.registered_changed _ c d e⟩⟩
    · -- a new channel has no interest, so it gets some
      have hnone : (s.epoll.channel c).events = kNoneEvent :=
        not_not.mp fun hne => hreg ((h.registered c).mp (h.interest c hne))
      have hsome : e ≠ kNoneEvent := fun hn => he (hdef ▸ hn) hnone
      exact ⟨_, PollPoller.step_add ((h.fresh c hreg).mpr hremoved) hreg e,
        h.poll.added hreg hsome, by simp [PollPoller.added],
        (h.poll.placed.registered_added c c e).mpr (.inl rfl),
        fun d hd => ⟨Function.update_of_ne hd _ _, by simp [h.poll.placed.registered_added, hd]⟩⟩
  obtain ⟨p, hstep, hp, hc, hreg, hother⟩ := hpoll
  refine ⟨_, ?_, h.update hp hc hreg hother hremoved (hdef ▸ he)⟩
  simp only [step]
  rw [← h.events, ← hdef, h.epoll.step_updateChannel, hstep]
  rfl

theorem Inv.step_remove (h : s.Inv fd) (c : ι) : ∃ s', s.step (.remove c) = .ok s' ∧ s'.Inv fd := by
  have hsame : s.epoll.CanRemove c ↔ s.poll.CanRemove c := by
    simp [EPollState.CanRemove, PollPoller.CanRemove, h.registered, Channel.isNoneEvent,
      PollChannel.isNoneEvent, h.events]
  by_cases hcan : s.epoll.CanRemove c
  · have hpcan := hsame.mp hcan
    obtain ⟨d, back, hd, hback, hentry⟩ := h.poll.placed.exists_last hpcan.1
    have hdreg := (PollPoller.registered_of_slot hd).1
    have hevents : ∀ e, ((s.poll.removed c d back).channel e).events =
        (s.poll.channel e).events := by
      refine (Function.forall_update_iff _
        fun e (ch : PollChannel) => ch.events = (s.poll.channel e).events).mpr ?_
      exact ⟨rfl, fun _ _ => rfl⟩
    have hepoll : ∀ e, ((s.epoll.removed c).channel e).events = (s.epoll.channel e).events := by
      refine (Function.forall_update_iff _
        fun e (ch : Channel) => ch.events = (s.epoll.channel e).events).mpr ?_
      exact ⟨rfl, fun _ _ => rfl⟩
    refine ⟨⟨s.epoll.removed c, s.poll.removed c d back, Function.update s.removed c true⟩, ?_,
      h.epoll.removed c, h.poll.removed hpcan.1 hd hback, fun e => ?_, fun e => ?_, fun e he => ?_,
      fun e he => ?_, fun e he => ?_, fun e he => ?_⟩
    · simp only [step]
      rw [h.epoll.step_removeChannel hcan, h.poll.step_remove hpcan hd hback hentry, if_pos hcan]
      rfl
    · rw [hevents, hepoll, h.events]
    · rw [h.epoll.registered_removed, h.poll.placed.registered_removed, h.registered]
    · obtain ⟨hreg, hne⟩ := (h.epoll.registered_removed c e).mp he
      rw [hepoll]
      show (Function.update s.epoll.channel c _ e).index = _
      rw [Function.update_of_ne hne]
      exact h.index e hreg
    · rw [hepoll] at he
      refine (h.epoll.registered_removed c e).mpr ⟨h.interest e he, ?_⟩
      rintro rfl
      exact he (of_decide_eq_true hcan.2)
    · by_cases hec : e = c
      · subst hec
        have hindex : ((s.poll.removed e d back).channel e).index = (s.poll.channel e).index := by
          by_cases hed : e = d
          · subst hed
            simp [PollPoller.removed]
          · simp [PollPoller.removed, hed]
        have hnonneg := h.poll.index_nonneg e hpcan.1
        simp [hindex, hnonneg]
      · have hold : ¬ s.poll.Registered e := fun hreg =>
          he ((h.poll.placed.registered_removed _ _ _ _).mpr ⟨hreg, hec⟩)
        have hed : e ≠ d := by
          rintro rfl
          exact hold hdreg
        simpa [PollPoller.removed, hed, hec] using h.fresh e hold
    · obtain ⟨hreg, hne⟩ := (h.poll.placed.registered_removed _ _ _ _).mp he
      simpa [hne] using h.used e hreg
  · refine ⟨s, ?_, h⟩
    simp only [step, EPollState.step, PollPoller.step]
    rw [if_neg hcan, if_neg (hcan ∘ hsame.mpr), if_neg hcan]
    rfl

/-- An operation that is not regular fails, or leaves a descriptor without
interest in the interest list. -/
theorem Inv.not_agree (h : s.Inv fd) {a : ChannelCall ι} (ha : ¬ s.Regular a) {s' : Pollers ι}
    (hstep : s.step a = .ok s') : ¬ s'.Agree := by
  cases a with
  | remove c => exact absurd trivial ha
  | interest c o =>
    intro hagree
    simp only [step] at hstep
    rw [h.epoll.step_updateChannel] at hstep
    obtain ⟨e, hdef⟩ : ∃ e, e = o.apply (s.epoll.channel c).events := ⟨_, rfl⟩
    rw [← h.events, ← hdef] at hstep
    cases hpoll : s.poll.step (.updateChannel c e) with
    | error f =>
      rw [hpoll] at hstep
      cases hstep
    | ok p =>
      rw [hpoll] at hstep
      obtain rfl := (Except.ok.inj hstep).symm
      by_cases hremoved : s.removed c = false
      · -- no interest before and after: the descriptor is added again
        have hboth : e = kNoneEvent ∧ (s.epoll.channel c).events = kNoneEvent := by
          simpa [Regular, hremoved, ← hdef] using ha
        have hindex : (s.epoll.channel c).index ≠ .kAdded := by
          intro hadded
          have hreg : s.epoll.Registered c := fun hnone => by
            have hnew := (h.epoll.index_eq_kNew_iff c).mpr hnone
            rw [hadded] at hnew
            cases hnew
          have hopen := h.index c hreg
          simp [hadded, Channel.openIndex, hboth.2] at hopen
        have hk : (s.epoll.updated c e).poller.kernel (s.epoll.channel c).fd =
            some kNoneEvent := by
          simp [EPollState.updated, EPollPoller.updated, Channel.ctlOp, hindex, hboth.1]
        obtain ⟨-, -, -, -, hne⟩ := (hagree.epoll _ _).mp hk
        exact hne rfl
      · -- `index_` is still the old position
        have hreg : ¬ s.poll.Registered c := fun hreg => hremoved (h.used c hreg)
        have hindex : ¬ (s.poll.channel c).index < 0 := hremoved ∘ (h.fresh c hreg).mp
        have hnone : s.poll.channels (s.poll.channel c).fd = none := not_not.mp hreg
        simp only [PollPoller.step, PollPoller.updateChannel, Function.update_self] at hpoll
        rw [if_neg hindex, check_of_not (by simp [hnone])] at hpoll
        cases hpoll

end

/-- **The pollers agree** all along a run of interest operations and removals
on any number of channels, and no assertion of either fails, if and only if
every operation of the run is regular. -/
theorem pollers_agree_iff (addr : ι → Nat) (fd : ι ↪ Nat) (as : List (ChannelCall ι)) :
    Always step Agree (create addr fd) as ↔ Meets step Regular (create addr fd) as := by
  refine always_iff_meets (I := Inv fd) (fun s a h ha => ?_) (fun s h => h.agree)
    (fun s a s' h ha hstep => h.not_agree ha hstep) (inv_create addr fd) as
  cases a with
  | interest c o => exact h.step_interest ha
  | remove c => exact h.step_remove c

/-- The one channel of an acceptor. -/
def acceptChannel : Pollers Unit := create (fun _ => 1) ⟨fun _ => 5, fun _ _ _ => rfl⟩

/-- **Not so otherwise.**  `~Acceptor` of a server that was never started calls
`disableAll` first: `PollPoller` registers the descriptor itself, and the
assertion of `removeChannel` fails.  A second `disableAll` puts the descriptor
back into the interest list of `EPollPoller` only.  A channel that was removed
cannot be enabled again with `PollPoller`. -/
theorem disableAll_first :
    run step acceptChannel [.interest () .disableAll, .remove ()] =
        .error (.poll (.assertion .removeFd)) ∧
      (∃ s, run step acceptChannel [.interest () .enableReading, .interest () .disableAll,
          .interest () .disableAll] = .ok s ∧ s.epoll.poller.kernel 5 = some kNoneEvent ∧
        s.poll.pollfds = [⟨-6, kNoneEvent, {}⟩]) ∧
      run step acceptChannel [.interest () .enableReading, .interest () .disableAll, .remove (),
        .interest () .enableReading] = .error (.poll (.assertion .updateNotFound)) :=
  ⟨rfl, ⟨_, rfl, rfl, rfl⟩, rfl⟩

end Pollers

end Muduo
