import Muduo.Channel

/-!
# Muduo.Poller.EPoll

The `EPollPoller` with any number of channels.

`Muduo.Channel` follows one channel.  Here the calls of `updateChannel` and
`removeChannel` come for any channels in any order, and the interest list of
the kernel, the map `channels_` and the `index_` of each channel have to agree
over the whole history.
-/

namespace Muduo

open Lib

namespace EPollPoller

section
variable {p : EPollPoller} {ch : Channel}

theorem Tracks.congr {p' : EPollPoller} (h : p.Tracks ch)
    (hch : p'.channels ch.fd = p.channels ch.fd) (hk : p'.kernel ch.fd = p.kernel ch.fd) :
    p'.Tracks ch := by
  unfold Tracks at h ⊢
  rw [hch, hk]
  exact h

end

/-! ## the interest list -/

/-- One `epoll_ctl(2)` on the set of descriptors in the interest list;
nothing for an invalid one. -/
def ctl (present : Nat → Bool) : EpollOp × Nat → Option (Nat → Bool)
  | (.add, fd) => if present fd then none else some (Function.update present fd true)
  | (.mod, fd) => if present fd then some present else none
  | (.del, fd) => if present fd then some (Function.update present fd false) else none

/-- The descriptors in the interest list after the calls, if each was valid
when it was made. -/
def replay (calls : List (EpollOp × Nat)) : Option (Nat → Bool) :=
  calls.foldlM ctl fun _ => false

theorem replay_concat (calls : List (EpollOp × Nat)) (call : EpollOp × Nat) :
    replay (calls ++ [call]) = replay calls >>= fun present => ctl present call := by
  simp [replay, List.foldlM_append]

/-- The descriptors in the interest list of the kernel. -/
def present (p : EPollPoller) (fd : Nat) : Bool := (p.kernel fd).isSome

/-- The calls were valid and have led to the interest list of the kernel. -/
def CallsValid (p : EPollPoller) : Prop := replay p.calls = some p.present

section
variable {p : EPollPoller} {ch : Channel}

theorem present_update (p : EPollPoller) (fd : Nat) (entry : Option Events) :
    (fun n => (Function.update p.kernel fd entry n).isSome) =
      Function.update p.present fd entry.isSome := by
  funext n
  by_cases hn : n = fd
  · subst hn
    simp
  · simp [hn, present]

theorem CallsValid.updated (hvalid : p.CallsValid) (h : p.Tracks ch) (e : Events) :
    (p.updated ch e).CallsValid := by
  have hpresent : (p.updated ch e).present = Function.update p.present ch.fd
      (if Channel.ctlOp ch.index e = .del then none else some e : Option Events).isSome :=
    present_update p ch.fd _
  unfold CallsValid
  rw [hpresent]
  simp only [EPollPoller.updated]
  rw [replay_concat, hvalid]
  unfold Tracks at h
  cases hi : ch.index with
  | kNew | kDeleted =>
    simp only [hi] at h
    simp [Channel.ctlOp, ctl, present, h.2]
  | kAdded =>
    simp only [hi] at h
    by_cases he : e = kNoneEvent
    · simp [Channel.ctlOp, ctl, present, h.2, he]
    · have hsame : Function.update p.present ch.fd true = p.present :=
        Function.update_eq_self_iff.mpr (by simp [present, h.2])
      simp [Channel.ctlOp, ctl, he, hsame, present, h.2]

theorem CallsValid.removed (hvalid : p.CallsValid) (h : p.Tracks ch) :
    (p.removed ch).CallsValid := by
  have hpresent : (p.removed ch).present = Function.update p.present ch.fd false :=
    present_update p ch.fd none
  unfold CallsValid
  rw [hpresent]
  simp only [EPollPoller.removed]
  by_cases hadded : ch.index = .kAdded
  · have hk : p.kernel ch.fd = some ch.events := by
      simp only [Tracks, hadded] at h
      exact h.2
    rw [if_pos hadded, replay_concat, hvalid]
    simp [ctl, present, hk]
  · have hk : p.kernel ch.fd = none := by
      unfold Tracks at h
      cases hi : ch.index with
      | kAdded => exact absurd hi hadded
      | kNew | kDeleted => simp only [hi] at h; exact h.2
    have hsame : Function.update p.present ch.fd false = p.present :=
      Function.update_eq_self_iff.mpr (by simp [present, hk])
    rw [if_neg hadded, List.append_nil, hvalid, hsame]

end

end EPollPoller

/-- The poller and the channels, which have the names `ι`. -/
structure EPollState (ι : Type) where
  poller : EPollPoller
  channel : ι → Channel

namespace EPollState

variable {ι : Type}

/-- New channels with the addresses `addr` and the distinct descriptors `fd`. -/
def create (addr : ι → Nat) (fd : ι ↪ Nat) : EPollState ι where
  poller := ⟨fun _ => none, fun _ => none, []⟩
  channel := fun i => .create (addr i) (fd i)

inductive Label (ι : Type)
  /-- `updateChannel` for a channel whose `events_` has become `events`. -/
  | updateChannel (i : ι) (events : Events)
  | removeChannel (i : ι)

/-- The channel is in `channels_`. -/
def Registered (s : EPollState ι) (i : ι) : Prop :=
  s.poller.channels (s.channel i).fd ≠ none

instance (s : EPollState ι) (i : ι) : Decidable (s.Registered i) :=
  inferInstanceAs (Decidable (¬ _))

/-- Only a registered channel with no interest is removed. -/
def CanRemove (s : EPollState ι) (i : ι) : Prop :=
  s.Registered i ∧ (s.channel i).isNoneEvent = true

instance (s : EPollState ι) (i : ι) : Decidable (s.CanRemove i) :=
  inferInstanceAs (Decidable (_ ∧ _))

structure Inv (fd : ι ↪ Nat) (s : EPollState ι) : Prop where
  fd_eq : ∀ i, (s.channel i).fd = fd i
  tracks : ∀ i, s.poller.Tracks (s.channel i)
  /-- The interest list has descriptors of the channels only. -/
  owner : ∀ n, s.poller.kernel n ≠ none → ∃ i, fd i = n
  calls : s.poller.CallsValid

section
variable {fd : ι ↪ Nat} {s : EPollState ι} {i j : ι}

theorem Inv.fd_ne (h : s.Inv fd) (hne : j ≠ i) : (s.channel j).fd ≠ (s.channel i).fd := by
  rw [h.fd_eq, h.fd_eq]
  exact fun heq => hne (fd.injective heq)

theorem Inv.index_eq_kNew_iff (h : s.Inv fd) (i : ι) :
    (s.channel i).index = .kNew ↔ s.poller.channels (s.channel i).fd = none := by
  have ht := h.tracks i
  constructor
  · intro hi
    simp only [EPollPoller.Tracks, hi] at ht
    exact ht.1
  · intro hnone
    by_contra hi
    rw [ht.channels_eq hi] at hnone
    cases hnone

theorem inv_create (addr : ι → Nat) (fd : ι ↪ Nat) : (create addr fd).Inv fd :=
  ⟨fun _ => rfl, fun _ => ⟨rfl, rfl⟩, fun _ hn => absurd rfl hn, rfl⟩

end

variable [DecidableEq ι]

def step (s : EPollState ι) : Label ι → Except Channel.Fault (EPollState ι)
  | .updateChannel i events => do
    let (p, ch) ← s.poller.updateChannel { s.channel i with events }
    return ⟨p, Function.update s.channel i ch⟩
  | .removeChannel i =>
    if s.CanRemove i then do
      let (p, ch) ← s.poller.removeChannel (s.channel i)
      return ⟨p, Function.update s.channel i ch⟩
    else
      .ok s

/-- The state after an update. -/
def updated (s : EPollState ι) (i : ι) (e : Events) : EPollState ι where
  poller := s.poller.updated (s.channel i) e
  channel := Function.update s.channel i
    { s.channel i with events := e, index := Channel.nextIndex (s.channel i).index e }

/-- The state after a removal. -/
def removed (s : EPollState ι) (i : ι) : EPollState ι where
  poller := s.poller.removed (s.channel i)
  channel := Function.update s.channel i { s.channel i with index := .kNew }

section
variable {fd : ι ↪ Nat} {s : EPollState ι} {i : ι}

theorem Inv.step_updateChannel (h : s.Inv fd) (i : ι) (e : Events) :
    s.step (.updateChannel i e) = .ok (s.updated i e) := by
  simp only [step]
  rw [EPollPoller.updateChannel_eq (h.tracks i) e]
  rfl

theorem Inv.step_removeChannel (h : s.Inv fd) (hcan : s.CanRemove i) :
    s.step (.removeChannel i) = .ok (s.removed i) := by
  have hindex : (s.channel i).index ≠ .kNew := fun hi => hcan.1 ((h.index_eq_kNew_iff i).mp hi)
  simp only [step]
  rw [if_pos hcan, EPollPoller.removeChannel_eq (h.tracks i) hindex hcan.2]
  rfl

/-- An operation on the channel `i` gives it `ch` and changes the poller for
its descriptor only. -/
theorem Inv.set (h : s.Inv fd) {p : EPollPoller} {ch : Channel}
    (hfd : ch.fd = (s.channel i).fd) (htracks : p.Tracks ch) (hcalls : p.CallsValid)
    (hch : ∀ n, n ≠ (s.channel i).fd → p.channels n = s.poller.channels n)
    (hk : ∀ n, n ≠ (s.channel i).fd → p.kernel n = s.poller.kernel n) :
    Inv fd ⟨p, Function.update s.channel i ch⟩ := by
  refine ⟨?_, ?_, ?_, hcalls⟩
  · exact (Function.forall_update_iff _ fun j (c : Channel) => c.fd = fd j).mpr
      ⟨hfd.trans (h.fd_eq i), fun j _ => h.fd_eq j⟩
  · refine (Function.forall_update_iff _ fun _ (c : Channel) => p.Tracks c).mpr ⟨htracks, fun j hj => ?_⟩
    exact (h.tracks j).congr (hch _ (h.fd_ne hj)) (hk _ (h.fd_ne hj))
  · intro n hn
    by_cases hfd' : n = (s.channel i).fd
    · exact ⟨i, by rw [hfd', h.fd_eq]⟩
    · exact h.owner n (by rwa [← hk n hfd'])

theorem Inv.updated (h : s.Inv fd) (i : ι) (e : Events) : (s.updated i e).Inv fd :=
  h.set rfl (EPollPoller.tracks_updated _ _ e) (h.calls.updated (h.tracks i) e)
    (fun _ hn => Function.update_of_ne hn _ _) fun _ hn => Function.update_of_ne hn _ _

theorem Inv.removed (h : s.Inv fd) (i : ι) : (s.removed i).Inv fd :=
  h.set rfl ⟨Function.update_self .., Function.update_self ..⟩ (h.calls.removed (h.tracks i))
    (fun _ hn => Function.update_of_ne hn _ _) fun _ hn => Function.update_of_ne hn _ _

theorem Inv.registered_updated (h : s.Inv fd) (i j : ι) (e : Events) :
    (s.updated i e).Registered j ↔ j = i ∨ s.Registered j := by
  by_cases hj : j = i
  · subst hj
    simp [Registered, EPollState.updated, EPollPoller.updated]
  · simp [Registered, EPollState.updated, EPollPoller.updated, hj, h.fd_ne hj]

theorem Inv.registered_removed (h : s.Inv fd) (i j : ι) :
    (s.removed i).Registered j ↔ s.Registered j ∧ j ≠ i := by
  by_cases hj : j = i
  · subst hj
    simp [Registered, EPollState.removed, EPollPoller.removed]
  · simp [Registered, EPollState.removed, EPollPoller.removed, hj, h.fd_ne hj]

theorem Inv.step (h : s.Inv fd) (a : Label ι) : Outcome (Inv fd) (fun _ => False) (s.step a) := by
  cases a with
  | updateChannel i e =>
    rw [h.step_updateChannel i e]
    exact .ok (h.updated i e)
  | removeChannel i =>
    by_cases hcan : s.CanRemove i
    · rw [h.step_removeChannel hcan]
      exact .ok (h.removed i)
    · simp only [EPollState.step]
      rw [if_neg hcan]
      exact .ok h

end

/-- `index_`, `channels_` and the interest list of the kernel are in step. -/
structure InStep (s : EPollState ι) : Prop where
  new : ∀ i, (s.channel i).index = .kNew ↔ s.poller.channels (s.channel i).fd = none
  added : ∀ i, (s.channel i).index = .kAdded ↔
    s.poller.kernel (s.channel i).fd = some (s.channel i).events
  deleted : ∀ i, (s.channel i).index = .kDeleted ↔
    s.poller.channels (s.channel i).fd ≠ none ∧ s.poller.kernel (s.channel i).fd = none
  /-- The entry of a descriptor is its channel. -/
  entry : ∀ i, s.Registered i → s.poller.channels (s.channel i).fd = some (s.channel i).addr
  calls : s.poller.CallsValid

omit [DecidableEq ι] in
theorem Inv.inStep {fd : ι ↪ Nat} {s : EPollState ι} (h : s.Inv fd) : s.InStep := by
  refine ⟨h.index_eq_kNew_iff, fun i => ?_, fun i => ?_, fun i hreg => ?_, h.calls⟩
  · have ht := h.tracks i
    unfold EPollPoller.Tracks at ht
    cases hi : (s.channel i).index <;> simp only [hi] at ht <;> simp [ht]
  · have ht := h.tracks i
    unfold EPollPoller.Tracks at ht
    cases hi : (s.channel i).index <;> simp only [hi] at ht <;> simp [ht]
  · exact (h.tracks i).channels_eq fun hi => hreg ((h.index_eq_kNew_iff i).mp hi)

/-- **Every `epoll_ctl` is valid.**  For any number of channels with distinct
descriptors and any calls of `updateChannel` and `removeChannel`, no assertion
fails, `index_` tells where the descriptor of a channel is, and no
`epoll_ctl(2)` was made for a descriptor that was in the wrong place. -/
theorem epoll_ctl_valid (addr : ι → Nat) (fd : ι ↪ Nat) (as : List (Label ι)) :
    Outcome InStep (fun _ => False) (run step (create addr fd) as) := by
  have hrun := Outcome.run_all (fun s a h => Inv.step h a) (inv_create addr fd) as
  exact hrun.mono (fun s h => h.inStep) fun _ hf => hf

end EPollState

end Muduo
