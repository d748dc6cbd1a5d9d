import Muduo.AsyncLogging.Kept

/-!
# Muduo.AsyncLogging.Stop

What `stop()` leaves behind.

The back end tests `running_` at the top of its loop only, and leaves without
another look at the buffers.  So the lines that wait when `stop()` clears
`running_` are written if the back end is on its way to the critical section, and
lost otherwise.  `stop_flushes_iff` says that this is the whole condition.
-/

namespace Muduo.AsyncLogging

open Lib List

/-- The bytes that the back end has not taken. -/
def pending (s : AsyncLogging) : List UInt8 :=
  s.buffers.flatMap (·.data) ++ (s.currentBuffer.map (·.data)).getD []

/-- `stop()` finds the back end before its critical section, or nothing to
write. -/
def StopsInTime (s : AsyncLogging) : Label → Prop
  | .stop => s.Started ∧ s.stopping = false → s.BeforeSwap ∨ s.pending = []
  | _ => True

instance (s : AsyncLogging) : (a : Label) → Decidable (s.StopsInTime a)
  | .stop => inferInstanceAs (Decidable (_ → _))
  | .start | .append _ | .backEnd _ | .join => .isTrue trivial

/-- The lines that were there when `stop()` was called have been passed to
`LogFile::append`. -/
def Flushed (s : AsyncLogging) : Prop := s.due.flatMap (·.val) <+: s.output.flatten

instance (s : AsyncLogging) : Decidable s.Flushed := inferInstanceAs (Decidable (_ <+: _))

/-- What a call of `stop()` has to do with where the back end is. -/
structure Stopping (s : AsyncLogging) : Prop where
  running : s.stopping = true → s.running = false
  started : s.stopping = true → s.pc ≠ .notStarted
  joined : s.joined = true → s.stopping = true ∧ s.pc = .finished

/-- The lines will have been written when the back end leaves. -/
structure InTime (s : AsyncLogging) : Prop where
  due : s.stopping = true → s.due <+: s.appended
  taken : s.stopping = true → s.BeforeSwap ∨ s.due.flatMap (·.val) <+: s.taken.flatten

/-- The back end is on its way out, and some of the lines are not written. -/
structure TooLate (s : AsyncLogging) : Prop where
  stopping : s.stopping = true
  leaving : ¬ s.BeforeSwap
  lost : s.taken.flatten.length < (s.due.flatMap (·.val)).length

variable {a : Label}

section
variable {s s' : AsyncLogging}

theorem Kept.taken_append_pending (h : s.Kept) :
    s.taken.flatten ++ s.pending = s.appended.flatMap (·.val) := by
  obtain ⟨current, hcurrent, hchunked⟩ := h
  simpa [pending, chunks, hcurrent, flatMap_def] using hchunked.flatten

theorem InTime.moved (h : s.InTime) (hkept : s.Kept) (hfront : s'.front = s.front)
    (hmoved : s.Moved s') : s'.InTime := by
  have hstopping : s'.stopping = s.stopping := congrArg Front.stopping hfront
  have hdue : s'.due = s.due := congrArg Front.due hfront
  have happended : s'.appended = s.appended := congrArg Front.appended hfront
  refine ⟨?_, ?_⟩
  · rw [hstopping, hdue, happended]
    exact h.due
  · rw [hstopping, hdue]
    intro hs
    cases hmoved with
    | kept htaken _ _ hbefore _ =>
      rw [htaken]
      exact (h.taken hs).imp_left hbefore
    | swapped current _ hcurrent htaken _ _ =>
      obtain ⟨c, hc, hchunked⟩ := hkept
      obtain rfl : current = c := Option.some.inj (hcurrent.symm.trans hc)
      refine .inr ?_
      rw [htaken, flatten_append, flatten_singleton, hchunked.flatten]
      obtain ⟨later, hlater⟩ := h.due hs
      exact ⟨later.flatMap (·.val), by rw [← hlater, flatMap_append]⟩

theorem TooLate.moved (h : s.TooLate) (hrunning : s.running = false) (hfront : s'.front = s.front)
    (hmoved : s.Moved s') : s'.TooLate := by
  have hstopping : s'.stopping = s.stopping := congrArg Front.stopping hfront
  have hdue : s'.due = s.due := congrArg Front.due hfront
  cases hmoved with
  | kept htaken _ _ _ hbefore =>
    refine ⟨hstopping.trans h.stopping, fun hs => ?_, by rw [htaken, hdue]; exact h.lost⟩
    obtain hs | hs := hbefore hs
    · exact h.leaving hs
    · simp [hrunning] at hs
  | swapped _ hs _ _ _ _ => exact absurd hs h.leaving

theorem Stopping.congr (h : s.Stopping) (hrunning : s'.running = s.running)
    (hstopping : s'.stopping = s.stopping) (hjoined : s'.joined = s.joined)
    (hstarted : s.stopping = true → s'.pc ≠ .notStarted)
    (hfinished : s.pc = .finished → s'.pc = .finished) : s'.Stopping := by
  refine ⟨?_, ?_, ?_⟩
  · rw [hstopping, hrunning]
    exact h.running
  · rw [hstopping]
    exact hstarted
  · rw [hstopping, hjoined]
    exact fun hj => (h.joined hj).imp_right hfinished

theorem Stopping.step (h : s.Stopping) (hsteps : s.Steps a s') : s'.Stopping := by
  cases hsteps with
  | idle => exact h
  | start hpc =>
    have hnot : s.stopping ≠ true := fun hs => h.started hs hpc
    exact ⟨fun hs => absurd hs hnot, fun hs => absurd hs hnot,
      fun hj => absurd (h.joined hj).1 hnot⟩
  | append line s' hadded =>
    have hfront := hadded.front
    simp only [front, Front.mk.injEq] at hfront
    obtain ⟨hrunning, hstopping, hjoined, -, -⟩ := hfront
    exact h.congr hrunning hstopping hjoined (fun hs => hadded.pc ▸ h.started hs)
      hadded.pc.trans
  | backEnd now s' hpc hfront hmoved hstarted =>
    simp only [front, Front.mk.injEq] at hfront
    obtain ⟨hrunning, hstopping, hjoined, -, -⟩ := hfront
    exact h.congr hrunning hstopping hjoined (fun _ => hstarted) (absurd · hpc)
  | stop hstarted hstopping =>
    exact ⟨fun _ => rfl, fun _ => hstarted.1, fun hj => ⟨rfl, (h.joined hj).2⟩⟩
  | join hstopping hpc => exact ⟨h.running, h.started, fun _ => ⟨hstopping, hpc⟩⟩

theorem beforeSwap_congr (hpc : s'.pc = s.pc) : s'.BeforeSwap ↔ s.BeforeSwap := by
  rw [BeforeSwap, BeforeSwap, hpc]

theorem InTime.step (h : s.InTime) (hkept : s.Kept) (hstopping : s.Stopping)
    (htime : s.StopsInTime a) (hsteps : s.Steps a s') : s'.InTime := by
  cases hsteps with
  | idle => exact h
  | start hpc =>
    have hnot : s.stopping ≠ true := fun hs => hstopping.started hs hpc
    exact ⟨fun hs => absurd hs hnot, fun hs => absurd hs hnot⟩
  | append line s' hadded =>
    have hfront := hadded.front
    simp only [front, Front.mk.injEq] at hfront
    obtain ⟨-, hs, -, happended, hdue⟩ := hfront
    refine ⟨?_, ?_⟩
    · rw [hs, hdue, happended]
      exact fun hs => (h.due hs).trans (prefix_append _ _)
    · rw [hs, hdue, hadded.taken, beforeSwap_congr hadded.pc]
      exact h.taken
  | backEnd now s' _ hfront hmoved _ => exact h.moved hkept hfront hmoved
  | stop hstarted hnot =>
    refine ⟨fun _ => prefix_rfl, fun _ => (htime ⟨hstarted, hnot⟩).imp_right fun hnil => ?_⟩
    have hall := hkept.taken_append_pending
    rw [hnil] at hall
    exact ⟨[], by rw [append_nil, ← hall, append_nil]; rfl⟩
  | join => exact ⟨h.due, h.taken⟩

theorem TooLate.step (h : s.TooLate) (hstopping : s.Stopping)
    (hsteps : s.Steps a s') : s'.TooLate := by
  cases hsteps with
  | idle => exact h
  | start hpc => exact absurd hpc (hstopping.started h.stopping)
  | append line s' hadded =>
    have hfront := hadded.front
    simp only [front, Front.mk.injEq] at hfront
    obtain ⟨-, hs, -, -, hdue⟩ := hfront
    refine ⟨hs.trans h.stopping, fun hb => h.leaving ((beforeSwap_congr hadded.pc).mp hb), ?_⟩
    rw [hadded.taken, hdue]
    exact h.lost
  | backEnd now s' _ hfront hmoved _ => exact h.moved (hstopping.running h.stopping) hfront hmoved
  | stop _ hnot => simp [h.stopping] at hnot
  | join => exact ⟨h.stopping, h.leaving, h.lost⟩

theorem Kept.tooLate (h : s.Kept) (htime : ¬ s.StopsInTime a)
    (hstep : s.step a = .ok s') : s'.TooLate := by
  cases a with
  | stop =>
    simp only [StopsInTime, Classical.not_imp, not_or] at htime
    obtain ⟨hstop, hbefore, hpending⟩ := htime
    obtain rfl := Except.ok.inj ((if_pos hstop).symm.trans hstep)
    refine ⟨rfl, hbefore, ?_⟩
    have hlen := congrArg List.length h.taken_append_pending
    have hpos := length_pos_iff.mpr hpending
    rw [length_append] at hlen
    show s.taken.flatten.length < (s.appended.flatMap (·.val)).length
    omega
  | start | append _ | backEnd _ | join => exact absurd trivial htime

/-- When `stop()` has returned, the back end has nothing left to write. -/
theorem taken_of_joined (hinv : s.Inv) (h : s.Stopping) (hjoined : s.joined = true) :
    s.taken = s.output := by
  have hpc := (h.joined hjoined).2
  have hholds := hinv.holds
  simp only [Holds, hpc] at hholds
  simp [taken, unwritten, hpc, hholds]

end

/-- What holds in every state. -/
structure Sound (s : AsyncLogging) : Prop where
  inv : s.Inv
  kept : s.Kept
  stopping : s.Stopping

theorem sound_create : create.Sound := ⟨inv_create, kept_create, nofun, nofun, nofun⟩

theorem Sound.step {s : AsyncLogging} (h : s.Sound) (ha : s.Keeps a) :
    ∃ s', s.step a = .ok s' ∧ s'.Sound ∧ s.Steps a s' := by
  obtain ⟨s', hok, hinv, hsteps⟩ := h.inv.step ha
  exact ⟨s', hok, ⟨hinv, h.kept.step hsteps, h.stopping.step hsteps⟩, hsteps⟩

/-- **`stop()` flushes** the lines that were appended before it if and only if it
finds the back end before the critical section, or nothing to write; in every
interleaving in which no buffers are dropped. -/
theorem stop_flushes_iff (as : List Label) (h : Meets step Keeps create as) :
    ∃ s, run step create as = .ok s ∧
      (s.joined = true → (s.Flushed ↔ Meets step StopsInTime create as)) := by
  have hgood : ∀ (s : AsyncLogging) a, s.Sound ∧ s.InTime → s.Keeps a → s.StopsInTime a →
      ∃ s', s.step a = .ok s' ∧ s'.Sound ∧ s'.InTime := fun s a hs ha htime => by
    obtain ⟨s', hok, hsound, hsteps⟩ := hs.1.step ha
    exact ⟨s', hok, hsound, hs.2.step hs.1.kept hs.1.stopping htime hsteps⟩
  have hbad : ∀ (s : AsyncLogging) a, s.Sound ∧ s.InTime → s.Keeps a → ¬ s.StopsInTime a →
      ∃ s', s.step a = .ok s' ∧ s'.Sound ∧ s'.TooLate := fun s a hs ha htime => by
    obtain ⟨s', hok, hsound, -⟩ := hs.1.step ha
    exact ⟨s', hok, hsound, hs.1.kept.tooLate htime hok⟩
  have hlost : ∀ (s : AsyncLogging) a, s.Sound ∧ s.TooLate → s.Keeps a →
      ∃ s', s.step a = .ok s' ∧ s'.Sound ∧ s'.TooLate := fun s a hs ha => by
    obtain ⟨s', hok, hsound, hsteps⟩ := hs.1.step ha
    exact ⟨s', hok, hsound, hs.2.step hs.1.stopping hsteps⟩
  obtain ⟨s, hok, hend⟩ := run_decides hgood hbad hlost ⟨sound_create, nofun, nofun⟩ h
  refine ⟨s, hok, fun hjoined => ?_⟩
  obtain ⟨hmeets, hs, hin⟩ | ⟨hmeets, hs, hlate⟩ := hend
  · refine iff_of_true ?_ hmeets
    obtain ⟨hstopping, hpc⟩ := hs.stopping.joined hjoined
    have hflushed := (hin.taken hstopping).resolve_left (by simp [BeforeSwap, hpc])
    rwa [taken_of_joined hs.inv hs.stopping hjoined] at hflushed
  · refine iff_of_false (fun hflushed => ?_) hmeets
    have hlost := hlate.lost
    rw [taken_of_joined hs.inv hs.stopping hjoined] at hlost
    exact Nat.not_lt.mpr hflushed.length_le hlost

theorem stop_flushes_iff_waiting :
    ∃ s, run step create
        [.start, .backEnd [], .backEnd [], .backEnd [], .append ⟨[7, 10], by decide⟩, .stop,
          .backEnd [], .backEnd [], .backEnd [], .backEnd [], .backEnd [], .join] = .ok s ∧
      (s.joined = true → (s.Flushed ↔ Meets step StopsInTime create
        [.start, .backEnd [], .backEnd [], .backEnd [], .append ⟨[7, 10], by decide⟩, .stop,
          .backEnd [], .backEnd [], .backEnd [], .backEnd [], .backEnd [], .join])) :=
  stop_flushes_iff _ (by decide)

/-- A line that is appended while the back end writes, before `stop()` is called,
is never written. -/
theorem append_while_writing_lost :
    Meets step Keeps create
        [.start, .backEnd [], .backEnd [], .backEnd [], .backEnd [], .backEnd [],
          .append ⟨[7, 10], by decide⟩, .stop, .backEnd [], .backEnd [], .backEnd [], .join] ∧
      ∃ s, run step create
          [.start, .backEnd [], .backEnd [], .backEnd [], .backEnd [], .backEnd [],
            .append ⟨[7, 10], by decide⟩, .stop, .backEnd [], .backEnd [], .backEnd [], .join] =
            .ok s ∧
        s.joined = true ∧ s.due = [⟨[7, 10], by decide⟩] ∧ s.output = [[]] :=
  ⟨by decide, _, rfl, by decide⟩

end Muduo.AsyncLogging
