import Mathlib.Data.List.Induction
import Muduo.IdleConnection

/-!
# Muduo.IdleConnection.Wheel

When an idle connection is shut down.
-/

namespace Muduo.IdleConnection.EchoServer

open Lib List Function

/-! ## histories -/

/-- The ticks since the connection or its latest message, after one more label. -/
def sinceStep (c : Nat) (k : Option Nat) : Label → Option Nat
  | .connect c' | .message c' _ => if c' = c then some 0 else k
  | .timer => k.map (· + 1)
  | .disconnect _ | .destroyed _ => k

def since (c : Nat) (ls : List Label) : Option Nat := ls.foldl (sinceStep c) none

/-- There were `n` ticks without a message at some time. -/
def Kicked (n c : Nat) (ls : List Label) : Prop := ∃ p, p <+: ls ∧ since c p = some n

/-- The next tick is the `n`-th without a message, for the first time. -/
def Due (n c : Nat) (ls : List Label) : Prop :=
  ¬ Kicked n c ls ∧ since c (ls ++ [.timer]) = some n

/-- Such a tick came while the object of the connection existed. -/
def ShutDown (n c : Nat) (ls : List Label) : Prop :=
  ∃ p q, ls = p ++ .timer :: q ∧ Due n c p ∧ .destroyed c ∉ p

section
variable {n c : Nat} {ls : List Label} {l : Label}

theorem since_concat : since c (ls ++ [l]) = sinceStep c (since c ls) l := by
  rw [since, foldl_concat]
  rfl

theorem kicked_concat : Kicked n c (ls ++ [l]) ↔ Kicked n c ls ∨ since c (ls ++ [l]) = some n := by
  simp only [Kicked, prefix_concat_iff]
  constructor
  · rintro ⟨p, rfl | hp, hsince⟩
    · exact .inr hsince
    · exact .inl ⟨p, hp, hsince⟩
  · rintro (⟨p, hp, hsince⟩ | hsince)
    · exact ⟨p, .inr hp, hsince⟩
    · exact ⟨_, .inl rfl, hsince⟩

theorem shutDown_concat : ShutDown n c (ls ++ [l]) ↔
    ShutDown n c ls ∨ (l = .timer ∧ Due n c ls ∧ .destroyed c ∉ ls) := by
  constructor
  · rintro ⟨p, q, hls, hdue, hexists⟩
    cases q using List.reverseRecOn with
    | nil =>
      obtain ⟨rfl, hl⟩ := append_inj' hls rfl
      exact .inr ⟨by simpa using hl, hdue, hexists⟩
    | append_singleton q l' =>
      rw [← cons_append, ← append_assoc] at hls
      obtain ⟨rfl, -⟩ := append_inj' hls rfl
      exact .inl ⟨p, q, rfl, hdue, hexists⟩
  · rintro (⟨p, q, rfl, hdue, hexists⟩ | ⟨rfl, hdue, hexists⟩)
    · exact ⟨p, q ++ [l], by simp, hdue, hexists⟩
    · exact ⟨ls, [], rfl, hdue, hexists⟩

theorem Due.not_shutDown (hdue : Due n c ls) : ¬ ShutDown n c ls := by
  rintro ⟨p, q, rfl, hdue', -⟩
  exact hdue.1 ⟨p ++ [.timer], ⟨q, by simp⟩, hdue'.2⟩

theorem Kicked.since_ne_none (h : Kicked n c ls) : since c ls ≠ none := by
  induction ls using List.reverseRecOn with
  | nil =>
    obtain ⟨p, hp, hsince⟩ := h
    rw [prefix_nil.mp hp] at hsince
    cases hsince
  | append_singleton ls l ih =>
    obtain hkicked | hsince := kicked_concat.mp h
    · have hne := ih hkicked
      rw [since_concat]
      cases l <;> simp only [sinceStep]
      case connect | message => split <;> simp [hne]
      case disconnect | destroyed => exact hne
      case timer => simpa using hne
    · simp [hsince]

/-! ## the age of an entry -/

/-- The age of an entry in a wheel of `n` buckets, after one more label. -/
def ageStep (n c : Nat) (age : Option Nat) : Label → Option Nat
  | .connect c' => if c' = c then some 0 else age
  | .message c' _ => if c' = c then age.map fun _ => 0 else age
  | .timer => (age.map (· + 1)).filter (· < n)
  | .disconnect _ | .destroyed _ => age

/-- An entry that has not been destroyed is as old as its connection has been idle. -/
structure Tracks (n c : Nat) (ls : List Label) (age : Option Nat) : Prop where
  kicked : Kicked n c ls → age = none
  live : ¬ Kicked n c ls → age = since c ls
  lt : ∀ k, age = some k → k < n

section
variable {age : Option Nat}

theorem Tracks.since_ne (h : Tracks n c ls age) (hkicked : ¬ Kicked n c ls) :
    since c ls ≠ some n := fun hsince =>
  Nat.lt_irrefl n (h.lt n ((h.live hkicked).trans hsince))

theorem Tracks.other (h : Tracks n c ls age) (hsince : since c (ls ++ [l]) = since c ls) :
    Tracks n c (ls ++ [l]) age := by
  have hkicked : Kicked n c (ls ++ [l]) ↔ Kicked n c ls := by
    rw [kicked_concat, hsince]
    exact ⟨fun hor => by_contra fun hkicked => h.since_ne hkicked (hor.resolve_left hkicked), .inl⟩
  exact ⟨fun hk => h.kicked (hkicked.mp hk),
    fun hk => (h.live fun hk' => hk (hkicked.mpr hk')).trans hsince.symm, h.lt⟩

theorem tracks_zero (hn : 0 < n) (hkicked : ¬ Kicked n c ls)
    (hsince : since c (ls ++ [l]) = some 0) : Tracks n c (ls ++ [l]) (some 0) := by
  refine ⟨fun hk => ?_, fun _ => hsince.symm, fun k hk => ?_⟩
  · obtain hk | hk := kicked_concat.mp hk
    · exact absurd hk hkicked
    · rw [hsince] at hk
      cases hk
      omega
  · cases hk
    exact hn

theorem Tracks.timer (h : Tracks n c ls age) :
    Tracks n c (ls ++ [.timer]) ((age.map (· + 1)).filter (· < n)) := by
  have hsince : since c (ls ++ [.timer]) = (since c ls).map (· + 1) := since_concat
  by_cases hkicked : Kicked n c ls
  · rw [h.kicked hkicked]
    exact ⟨fun _ => rfl, fun hk => absurd (kicked_concat.mpr (.inl hkicked)) hk, nofun⟩
  · have hage := h.live hkicked
    cases age with
    | none => exact h.other (by rw [hsince, ← hage]; rfl)
    | some k =>
      have hlt := h.lt k rfl
      rw [← hage, Option.map_some] at hsince
      have hk : Kicked n c (ls ++ [.timer]) ↔ k + 1 = n := by
        rw [kicked_concat, or_iff_right hkicked, hsince, Option.some_inj]
      refine ⟨fun h => ?_, fun h => ?_, fun k' h => ?_⟩
      · simp [Option.filter, hk.mp h]
      · rw [hk] at h
        rw [hsince, Option.map_some, Option.filter_some, if_pos (by simp; omega)]
      · simpa using (Option.filter_eq_some_iff.mp h).2

theorem Tracks.step (h : Tracks n c ls age) (hn : 0 < n)
    (hconnect : l = .connect c → since c ls = none)
    (hmessage : ∀ msg, l = .message c msg → since c ls ≠ none) :
    Tracks n c (ls ++ [l]) (ageStep n c age l) := by
  cases l with
  | disconnect | destroyed => exact h.other since_concat
  | timer => exact h.timer
  | connect c' =>
    rw [ageStep]
    split
    next heq =>
      subst heq
      exact tracks_zero hn (fun hk => hk.since_ne_none (hconnect rfl))
        (by rw [since_concat, sinceStep, if_pos rfl])
    next hne => exact h.other (by rw [since_concat, sinceStep, if_neg hne])
  | message c' msg =>
    rw [ageStep]
    split
    next heq =>
      subst heq
      by_cases hkicked : Kicked n c' ls
      · rw [h.kicked hkicked]
        exact ⟨fun _ => rfl, fun hk => absurd (kicked_concat.mpr (.inl hkicked)) hk, nofun⟩
      · obtain ⟨k, hk⟩ := Option.ne_none_iff_exists'.mp (hmessage msg rfl)
        rw [h.live hkicked, hk]
        exact tracks_zero hn hkicked (by rw [since_concat, sinceStep, if_pos rfl])
    next hne => exact h.other (by rw [since_concat, sinceStep, if_neg hne])

end

theorem Tracks.due_iff {age : Option Nat} (h : Tracks n c ls age) (hn : 0 < n) :
    Due n c ls ↔ age = some (n - 1) := by
  rw [Due, since_concat, sinceStep]
  constructor
  · rintro ⟨hkicked, hsince⟩
    rw [h.live hkicked]
    obtain ⟨k, hk, rfl⟩ := Option.map_eq_some_iff.mp hsince
    rw [hk, Nat.add_sub_cancel]
  · intro hage
    have hkicked : ¬ Kicked n c ls := fun hkicked => by
      rw [h.kicked hkicked] at hage
      cases hage
    rw [← h.live hkicked, hage, Option.map_some, Nat.sub_add_cancel hn]
    exact ⟨hkicked, rfl⟩

end

/-! ## the wheel -/

def holds (c : Nat) (b : Bucket) : Bool := ⟨c⟩ ∈ b.entries

variable {n c : Nat} {s : EchoServer n}

/-- The age of the entry of a connection. -/
def ageOf (s : EchoServer n) (c : Nat) : Option Nat := age (holds c) s.connectionBuckets.data

theorem useCount_eq_zero : s.useCount ⟨c⟩ = 0 ↔ s.ageOf c = none := by
  rw [useCount, countP_eq_zero, ageOf, age_eq_none]
  simp [holds]

theorem lock_eq (s : EchoServer n) (c : Nat) : s.lock ⟨c⟩ = (s.ageOf c).map fun _ => ⟨c⟩ := by
  rw [lock]
  split
  next hpos =>
    obtain ⟨k, hk⟩ := Option.ne_none_iff_exists'.mp (mt useCount_eq_zero.mpr (Nat.ne_of_gt hpos))
    rw [hk, Option.map_some]
  next hzero =>
    rw [useCount_eq_zero.mp (by omega), Option.map_none]

theorem onMessage_eq (hcontext : s.context c = some ⟨c⟩) (msg : List UInt8) :
    s.onMessage c msg = let s' : EchoServer n := { s with calls := s.calls ++ [.send c msg] }
      match s.ageOf c with
      | some _ => s'.insertBack ⟨c⟩
      | none => .ok s' := by
  rw [onMessage]
  dsimp only
  rw [hcontext]
  dsimp only
  rw [lock_eq, ageOf, ageOf]
  cases age (holds c) s.connectionBuckets.data <;> rfl

theorem exists_insertBack (hfull : s.connectionBuckets.size = n) (hn : 0 < n) (c : Nat) :
    ∃ b, s.insertBack ⟨c⟩ = .ok { s with connectionBuckets := b } ∧ b.size = n ∧
      ∀ c', age (holds c') b.data = if c = c' then some 0 else s.ageOf c' := by
  have hpos : 0 < s.connectionBuckets.size := by omega
  refine ⟨_, by rw [insertBack, check_of hpos]; rfl, ?_, fun c' => ?_⟩
  · exact CircularBuffer.size_modifyBack.trans hfull
  · split
    next heq =>
      subst heq
      exact CircularBuffer.age_modifyBack_of_true hpos fun b => by simp [holds, Bucket.insert]
    next hne =>
      refine CircularBuffer.age_modifyBack_of_eq hpos fun b => ?_
      simp [holds, Bucket.insert, Ne.symm hne]

theorem ageOf_onTimer (hfull : s.connectionBuckets.size = n) (hn : 0 < n) (c : Nat) :
    s.onTimer.ageOf c = ((s.ageOf c).map (· + 1)).filter (· < n) :=
  CircularBuffer.age_pushBack hfull hn rfl

theorem count_destroy {es : List Entry} (hnodup : es.Nodup) (s : EchoServer n) (c : Nat) :
    (es.flatMap s.destroy).count (.shutdown c) = if ⟨c⟩ ∈ es ∧ s.phase c ≠ .gone then 1 else 0 := by
  induction es with
  | nil => simp
  | cons e es ih =>
    obtain ⟨hmem, hnodup⟩ := nodup_cons.mp hnodup
    rw [flatMap_cons, count_append, ih hnodup]
    by_cases he : e = ⟨c⟩
    · subst he
      by_cases hgone : s.phase c = .gone <;> simp [destroy, hgone, hmem]
    · have hne : e.weakConn ≠ c := fun heq => he (by rw [← heq])
      by_cases hgone : s.phase e.weakConn = .gone <;>
        simp [destroy, hgone, Ne.symm he, hne]

theorem count_onTimer (hfull : s.connectionBuckets.size = n) (hn : 0 < n) (c : Nat) :
    s.onTimer.calls.count (.shutdown c) = s.calls.count (.shutdown c) +
      if s.ageOf c = some (n - 1) ∧ s.phase c ≠ .gone then 1 else 0 := by
  obtain ⟨b, w, hdata⟩ : ∃ b w, s.connectionBuckets.data = b :: w :=
    exists_cons_of_length_pos (by rw [← hfull] at hn; exact hn)
  have hlen : w.length = n - 1 := by
    rw [← hfull, CircularBuffer.size, hdata]
    rfl
  have hover : s.overwritten = b.entries := by
    rw [overwritten, hfull, Nat.add_sub_cancel_left, hdata]
    simp
  have hdead : ∀ e : Entry, s.onTimer.useCount e = 0 ↔ age (holds e.weakConn) w = none := by
    intro e
    rw [show e = ⟨e.weakConn⟩ from rfl, useCount_eq_zero, ageOf, onTimer,
      CircularBuffer.data_pushBack_full hfull hn, hdata, tail_cons, age_concat,
      if_neg (by simp [holds, Bucket.empty]), Option.map_eq_none_iff]
  have hcalls : s.onTimer.calls = s.calls ++
      (b.entries.filter fun e => s.onTimer.useCount e = 0).flatMap s.destroy := by
    rw [← hover]
    rfl
  rw [hcalls, count_append, count_destroy (b.nodup.filter _)]
  simp only [mem_filter, decide_eq_true_eq, hdead, ageOf, hdata, ← hlen, age_cons_eq_last]
  simp [holds]

structure Inv (s : EchoServer n) (ls : List Label) : Prop where
  full : s.connectionBuckets.size = n
  tracks : ∀ c, Tracks n c ls (s.ageOf c)
  fresh : ∀ c, s.phase c = .fresh ↔ since c ls = none
  gone : ∀ c, s.phase c = .gone ↔ .destroyed c ∈ ls
  context : ∀ c, s.phase c ≠ .fresh → s.context c = some ⟨c⟩
  shutDown : ∀ c, ShutDown n c ls → s.calls.count (.shutdown c) = 1
  notShutDown : ∀ c, ¬ ShutDown n c ls → s.calls.count (.shutdown c) = 0

variable {ls : List Label} {l : Label}

theorem inv_create (n : Nat) : Inv (create n) [] := by
  have hage : ∀ c, (create n).ageOf c = none := fun c => by
    rw [ageOf, age_eq_none]
    intro b hb
    rw [eq_of_mem_replicate hb]
    rfl
  have hkicked : ∀ c, ¬ Kicked n c [] := fun c hk => hk.since_ne_none rfl
  refine ⟨length_replicate, fun c => ?_, fun c => ?_, fun c => ?_, ?_, fun c h => ?_, ?_⟩
  · rw [hage]
    exact ⟨fun _ => rfl, fun _ => rfl, nofun⟩
  · exact ⟨fun _ => rfl, fun _ => rfl⟩
  · exact ⟨nofun, nofun⟩
  · exact fun c hne => absurd rfl hne
  · obtain ⟨p, q, hls, -⟩ := h
    simp at hls
  · exact fun _ _ => rfl

def phaseAfter (phase : Nat → Phase) : Label → Nat → Phase
  | .connect c => update phase c .up
  | .disconnect c => update phase c .down
  | .destroyed c => update phase c .gone
  | .message _ _ | .timer => phase

theorem phaseAfter_eq_fresh (h : s.Allowed l) (c : Nat) :
    phaseAfter s.phase l c = .fresh ↔ s.phase c = .fresh ∧ l ≠ .connect c := by
  cases l with
  | message | timer => simp [phaseAfter]
  | connect c' =>
    by_cases heq : c' = c
    · simp [phaseAfter, heq]
    · simp [phaseAfter, heq, Ne.symm heq]
  | disconnect c' | destroyed c' =>
    have hphase := h
    rw [Allowed] at hphase
    by_cases heq : c = c' <;> simp [phaseAfter, heq, hphase]

theorem phaseAfter_eq_gone (h : s.Allowed l) (c : Nat) :
    phaseAfter s.phase l c = .gone ↔ s.phase c = .gone ∨ l = .destroyed c := by
  cases l with
  | message | timer => simp [phaseAfter]
  | destroyed c' =>
    by_cases heq : c' = c
    · simp [phaseAfter, heq]
    · simp [phaseAfter, heq, Ne.symm heq]
  | disconnect c' | connect c' =>
    have hphase := h
    rw [Allowed] at hphase
    by_cases heq : c = c' <;> simp [phaseAfter, heq, hphase]

theorem Inv.other (h : Inv s ls) (hn : 0 < n) (hl : l ≠ .timer) (hallowed : s.Allowed l)
    {s' : EchoServer n} (hfull : s'.connectionBuckets.size = n)
    (hage : ∀ c, s'.ageOf c = ageStep n c (s.ageOf c) l) (hphase : s'.phase = phaseAfter s.phase l)
    (hcontext : ∀ c, s'.context c = if l = .connect c then some ⟨c⟩ else s.context c)
    (hcalls : ∀ c, s'.calls.count (.shutdown c) = s.calls.count (.shutdown c)) :
    Inv s' (ls ++ [l]) := by
  have hshut : ∀ c, ShutDown n c (ls ++ [l]) ↔ ShutDown n c ls := fun c => by
    rw [shutDown_concat]
    exact or_iff_left fun h => hl h.1
  refine ⟨hfull, fun c => ?_, fun c => ?_, fun c => ?_, fun c hne => ?_, fun c => ?_, fun c => ?_⟩
  · rw [hage]
    refine (h.tracks c).step hn ?_ ?_
    · rintro rfl
      exact (h.fresh c).mp hallowed
    · rintro msg rfl hsince
      exact nomatch hallowed.symm.trans ((h.fresh c).mpr hsince)
  · rw [hphase, phaseAfter_eq_fresh hallowed, h.fresh, since_concat]
    cases l with
    | disconnect | destroyed | timer => simp [sinceStep]
    | connect c' => by_cases heq : c' = c <;> simp [sinceStep, heq]
    | message c' msg =>
      by_cases heq : c' = c
      · subst heq
        have hsince : since c' ls ≠ none := fun hsince =>
          nomatch hallowed.symm.trans ((h.fresh c').mpr hsince)
        simp [sinceStep, hsince]
      · simp [sinceStep, heq]
  · rw [hphase, phaseAfter_eq_gone hallowed, h.gone, mem_append, mem_singleton, eq_comm]
  · rw [hphase, ne_eq, phaseAfter_eq_fresh hallowed, not_and_not_right] at hne
    rw [hcontext]
    split
    next => rfl
    next hl => exact h.context c fun hfresh => hl (hne hfresh)
  · rw [hshut, hcalls]
    exact h.shutDown c
  · rw [hshut, hcalls]
    exact h.notShutDown c

theorem Inv.timer (h : Inv s ls) (hn : 0 < n) : Inv s.onTimer (ls ++ [.timer]) := by
  have hcount := count_onTimer h.full hn
  have hdue : ∀ c, (s.ageOf c = some (n - 1) ∧ s.phase c ≠ .gone) ↔
      (Due n c ls ∧ .destroyed c ∉ ls) := fun c => by
    rw [(h.tracks c).due_iff hn, ne_eq, h.gone]
  refine ⟨?_, fun c => ?_, fun c => ?_, fun c => ?_, h.context, fun c hshut => ?_,
    fun c hshut => ?_⟩
  · have hlen : s.connectionBuckets.data.length = n := h.full
    rw [CircularBuffer.size, onTimer, CircularBuffer.data_pushBack_full h.full hn]
    simp [hlen]
    omega
  · rw [ageOf_onTimer h.full hn]
    exact (h.tracks c).timer
  · rw [since_concat, sinceStep, Option.map_eq_none_iff]
    exact h.fresh c
  · rw [mem_append, mem_singleton, or_iff_left (by simp)]
    exact h.gone c
  · rw [hcount]
    by_cases hbefore : ShutDown n c ls
    · rw [h.shutDown c hbefore, if_neg fun hd => ((hdue c).mp hd).1.not_shutDown hbefore]
    · obtain ⟨-, hd⟩ := (shutDown_concat.mp hshut).resolve_left hbefore
      rw [h.notShutDown c hbefore, if_pos ((hdue c).mpr hd)]
  · rw [shutDown_concat, not_or] at hshut
    rw [hcount, h.notShutDown c hshut.1, if_neg fun hd => hshut.2 ⟨rfl, (hdue c).mp hd⟩]

theorem Inv.step (h : Inv s ls) (hn : 0 < n) (hl : s.Allowed l) :
    ∃ s', s.step l = .ok s' ∧ Inv s' (ls ++ [l]) := by
  cases l with
  | timer => exact ⟨_, rfl, h.timer hn⟩
  | destroyed c =>
    exact ⟨_, rfl, h.other hn (by simp) hl h.full (fun _ => rfl) rfl (fun c => by simp) fun _ => rfl⟩
  | disconnect c =>
    have hup : s.phase c = .up := hl
    have hcontext : s.context c ≠ none := by simp [h.context c (by simp [hup])]
    refine ⟨{ s with phase := update s.phase c .down }, ?_,
      h.other hn (by simp) hl h.full (fun _ => rfl) rfl (fun c => by simp) fun _ => rfl⟩
    rw [EchoServer.step, onConnection, if_neg (by simp), check_of hcontext]
    rfl
  | connect c =>
    obtain ⟨b, hinsert, hsize, hage⟩ := exists_insertBack
      (s := { s with phase := update s.phase c .up }) h.full hn c
    refine ⟨⟨b, update s.phase c .up, update s.context c (some ⟨c⟩), s.calls⟩, ?_,
      h.other hn (by simp) hl hsize hage rfl (fun c' => ?_) fun _ => rfl⟩
    · rw [EchoServer.step, onConnection, if_pos (by simp)]
      dsimp only
      rw [hinsert]
      rfl
    · by_cases heq : c = c'
      · simp [heq]
      · simp [heq, Ne.symm heq]
  | message c msg =>
    have hup : s.phase c = .up := hl
    have hcalls : ∀ c', (s.calls ++ [Call.send c msg]).count (.shutdown c') =
        s.calls.count (.shutdown c') := fun c' => by simp
    rw [EchoServer.step, onMessage_eq (h.context c (by simp [hup]))]
    cases hlock : s.ageOf c with
    | none =>
      -- the entry is gone, and the message does not bring it back
      refine ⟨_, rfl, h.other hn (by simp) hl h.full (fun c' => ?_) rfl (fun c' => by simp) hcalls⟩
      rw [ageStep]
      split
      next heq =>
        subst heq
        rw [hlock]
        exact hlock
      next => rfl
    | some k =>
      obtain ⟨b, hinsert, hsize, hage⟩ := exists_insertBack
        (s := { s with calls := s.calls ++ [.send c msg] }) h.full hn c
      refine ⟨_, hinsert, h.other hn (by simp) hl hsize (fun c' => ?_) rfl (fun c' => by simp) hcalls⟩
      rw [ageStep]
      refine (hage c').trans ?_
      split
      next heq =>
        subst heq
        rw [hlock, Option.map_some]
      next => rfl

/-- What has become of the connections. -/
structure Exact (s : EchoServer n) (ls : List Label) : Prop where
  once : ∀ c, ShutDown n c ls → s.calls.count (.shutdown c) = 1
  never : ∀ c, ¬ ShutDown n c ls → s.calls.count (.shutdown c) = 0
  alive : ∀ c, 0 < s.useCount ⟨c⟩ ↔ s.phase c ≠ .fresh ∧ ¬ Kicked n c ls

theorem Inv.exact (h : Inv s ls) : Exact s ls where
  once := h.shutDown
  never := h.notShutDown
  alive c := by
    rw [Nat.pos_iff_ne_zero, ne_eq, useCount_eq_zero, ne_eq, h.fresh]
    by_cases hkicked : Kicked n c ls
    · simp [(h.tracks c).kicked hkicked, hkicked]
    · simp [(h.tracks c).live hkicked, hkicked]

/-- **The timing wheel is exact.** -/
theorem wheel_exact (hn : 1 ≤ n) (hls : Meets step Allowed (create n) ls) :
    ∃ s, run step (create n) ls = .ok s ∧ Exact s ls := by
  obtain ⟨s, hrun, hs⟩ : ∃ s, run step (create n) ls = .ok s ∧ Inv s ([] ++ ls) :=
    exists_run_history (fun s h l hs hl => hs.step hn hl) (inv_create n) hls
  exact ⟨s, hrun, hs.exact⟩

/-- A message saves the connection from the second tick, another comes too late. -/
def idle : List Label :=
  [.connect 0, .timer, .message 0 [104, 105], .timer, .connect 1, .timer, .message 0 [33],
    .disconnect 1, .destroyed 1, .timer, .disconnect 0]

theorem wheel_exact_idle :
    (1 ≤ 2 ∧ Meets step Allowed (create 2) idle) ∧
      ∃ s, run step (create 2) idle = .ok s ∧ Exact s idle :=
  ⟨by decide +kernel, wheel_exact (by decide) (by decide +kernel)⟩

end Muduo.IdleConnection.EchoServer
