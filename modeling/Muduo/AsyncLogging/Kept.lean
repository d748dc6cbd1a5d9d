import Muduo.AsyncLogging
import Muduo.Lib.Chunks

/-!
# Muduo.AsyncLogging.Kept

The log keeps every line, once, in order and whole.
-/

namespace Muduo.AsyncLogging

open Lib List

/-! ## buffers change hands -/

/-- What the back end holds, by where it is. -/
def Holds (s : AsyncLogging) : Prop :=
  match s.pc with
  | .notStarted | .finished => s.buffersToWrite = []
  | .starting => s.running = true ∧ s.buffersToWrite = []
  | .head | .locking | .waiting =>
    s.newBuffer1 = some .create ∧ s.newBuffer2 = some .create ∧ s.buffersToWrite = []
  | .swapped | .writing _ => s.newBuffer1 = none ∧ s.buffersToWrite ≠ [] ∧
      (s.newBuffer2 = some .create ∨ s.newBuffer2 = none ∧ 2 ≤ s.buffersToWrite.length)

structure Inv (s : AsyncLogging) : Prop where
  current : s.currentBuffer ≠ none
  next : s.nextBuffer = none ∨ s.nextBuffer = some .create
  spare : s.nextBuffer = none → s.buffers ≠ []
  holds : s.Holds

/-- The members that the back end leaves alone. -/
structure Front where
  running : Bool
  stopping : Bool
  joined : Bool
  appended : List LogLine
  due : List LogLine

def front (s : AsyncLogging) : Front := ⟨s.running, s.stopping, s.joined, s.appended, s.due⟩

/-- The buffers that the back end has still to write. -/
def unwritten (s : AsyncLogging) : List Buffer :=
  match s.pc with
  | .writing i => s.buffersToWrite.drop i
  | _ => s.buffersToWrite

/-- What the back end has written or is going to write. -/
def taken (s : AsyncLogging) : List (List UInt8) := s.output ++ s.unwritten.map FixedBuffer.data

/-- The closed buffers, from the first one written. -/
def chunks (s : AsyncLogging) : List (List UInt8) := s.taken ++ s.buffers.map FixedBuffer.data

/-- The lock is about to be taken, or has been given up for the wait. -/
def BeforeSwap (s : AsyncLogging) : Prop := s.pc = .locking ∨ s.pc = .waiting

instance (s : AsyncLogging) : Decidable s.BeforeSwap := inferInstanceAs (Decidable (_ ∨ _))

/-- What a step of the back end does to the lines. -/
inductive Moved (s s' : AsyncLogging) : Prop
  /-- No line changes hands; a new iteration begins only while `running_` is set. -/
  | kept : s'.taken = s.taken → s'.buffers = s.buffers → s'.currentBuffer = s.currentBuffer →
      (s.BeforeSwap → s'.BeforeSwap) → (s'.BeforeSwap → s.BeforeSwap ∨ s.running = true) → Moved s s'
  /-- The critical section takes everything. -/
  | swapped (current : Buffer) : s.BeforeSwap → s.currentBuffer = some current →
      s'.taken = s.chunks ++ [current.data] → s'.buffers = [] →
      s'.currentBuffer = some .create → Moved s s'

/-- What `append` does to the lines: the new one goes behind the current ones, or
into a buffer of its own. -/
structure Added (s : AsyncLogging) (line : LogLine) (s' : AsyncLogging) : Prop where
  front : s'.front = { s.front with appended := s.appended ++ [line] }
  pc : s'.pc = s.pc
  taken : s'.taken = s.taken
  buffers : ∃ current b, s.currentBuffer = some current ∧ s'.currentBuffer = some b ∧
    (s'.buffers = s.buffers ∧ b.data = current.data ++ line ∨
      s'.buffers = s.buffers ++ [current] ∧ b.data = line)

/-- A step of the back end succeeds and keeps the invariant. -/
def Runs (s : AsyncLogging) (r : Except Fault AsyncLogging) : Prop :=
  ∃ s', r = .ok s' ∧ s'.Inv ∧ s'.front = s.front ∧ s.Moved s' ∧
    s'.pc ≠ .notStarted

section
variable {s : AsyncLogging}

theorem inv_create : create.Inv where
  current := by simp [create]
  next := .inr rfl
  spare := by simp [create]
  holds := rfl

/-- **Append.** A full current buffer is closed, and the line goes into an empty
one. -/
theorem Inv.append (h : s.Inv) (line : LogLine) :
    ∃ s', s.append line = .ok s' ∧ s'.Inv ∧ s.Added line s' := by
  obtain ⟨current, hcurrent⟩ := Option.ne_none_iff_exists'.mp h.current
  simp only [AsyncLogging.append, hcurrent, deref]
  by_cases hfits : line.val.length < current.avail
  · refine ⟨_, if_pos hfits, ⟨by simp, h.next, h.spare, h.holds⟩, rfl, rfl, rfl, ?_⟩
    exact ⟨current, _, hcurrent, rfl, .inl ⟨rfl, FixedBuffer.data_append hfits⟩⟩
  · have hnext : s.nextBuffer.getD .create = .create := by
      obtain hnone | hsome := h.next
      · rw [hnone]
        rfl
      · rw [hsome]
        rfl
    have hline : (FixedBuffer.append (.create : Buffer) line).data = line :=
      FixedBuffer.data_append line.property
    refine ⟨_, if_neg hfits, ⟨by simp, .inl rfl, by simp, h.holds⟩, rfl, rfl, rfl, ?_⟩
    refine ⟨current, _, hcurrent, rfl, .inr ⟨rfl, ?_⟩⟩
    rw [hnext, hline]

theorem Inv.begin (h : s.Inv) (hpc : s.pc = .starting) : s.Runs s.begin := by
  have hholds := h.holds
  simp only [Holds, hpc] at hholds
  rw [AsyncLogging.begin, check_of hholds.1]
  refine ⟨_, rfl, ⟨h.current, h.next, h.spare, rfl, rfl, hholds.2⟩, rfl,
    .kept ?_ rfl rfl (by simp [BeforeSwap, hpc]) (by simp [BeforeSwap]), nofun⟩
  simp only [taken, unwritten, hpc]

theorem Inv.iterate (h : s.Inv) (hpc : s.pc = .head) : s.Runs s.iterate := by
  have hholds := h.holds
  simp only [Holds, hpc] at hholds
  obtain ⟨h1, h2, hnil⟩ := hholds
  rw [AsyncLogging.iterate]
  split
  · rename_i hrunning
    rw [check_of (by simp [h1, IsEmptyBuffer, FixedBuffer.length]),
      check_of (by simp [h2, IsEmptyBuffer, FixedBuffer.length]), check_of hnil]
    refine ⟨_, rfl, ⟨h.current, h.next, h.spare, h1, h2, hnil⟩, rfl,
      .kept ?_ rfl rfl (by simp [BeforeSwap]) fun _ => .inr hrunning, nofun⟩
    simp only [taken, unwritten, hpc]
  · refine ⟨_, rfl, ⟨h.current, h.next, h.spare, hnil⟩, rfl,
      .kept ?_ rfl rfl (by simp [BeforeSwap, hpc]) (by simp [BeforeSwap]), nofun⟩
    simp only [taken, unwritten, hpc]

/-- **The critical section** takes all lines.  If it leaves the second spare
buffer behind, there was a full buffer besides the current one. -/
theorem Inv.swap (h : s.Inv) (hpc : s.BeforeSwap) : s.Runs s.swap := by
  have hholds : s.newBuffer1 = some .create ∧ s.newBuffer2 = some .create ∧
      s.buffersToWrite = [] := by
    have hholds := h.holds
    obtain hpc | hpc := hpc <;> simpa only [Holds, hpc] using hholds
  obtain ⟨h1, h2, hnil⟩ := hholds
  obtain ⟨current, hcurrent⟩ := Option.ne_none_iff_exists'.mp h.current
  have hunwritten : s.unwritten = [] := by
    obtain hpc | hpc := hpc <;> simp only [unwritten, hpc, hnil]
  have hmoved : s.output ++ (s.buffers ++ [current]).map FixedBuffer.data =
      s.chunks ++ [current.data] := by
    simp [chunks, taken, hunwritten]
  simp only [AsyncLogging.swap, hcurrent, deref]
  by_cases hnext : s.nextBuffer = none
  · have hlen : 2 ≤ (s.buffers ++ [current]).length := by
      have hpos := length_pos_iff.mpr (h.spare hnext)
      simp only [length_append, length_singleton]
      omega
    refine ⟨_, if_pos hnext, ⟨?_, .inr h2, ?_, rfl, by simp, .inr ⟨rfl, hlen⟩⟩, rfl,
      .swapped current hpc hcurrent hmoved hnil h1, nofun⟩
    · rw [h1]
      simp
    · rw [h2]
      simp
  · refine ⟨_, if_neg hnext, ⟨?_, h.next, fun hn => absurd hn hnext, rfl, by simp, .inl h2⟩, rfl,
      .swapped current hpc hcurrent hmoved hnil h1, nofun⟩
    rw [h1]
    simp

theorem Inv.lock (h : s.Inv) (hpc : s.pc = .locking) : s.Runs s.lock := by
  rw [AsyncLogging.lock]
  split
  · have hholds := h.holds
    simp only [Holds, hpc] at hholds
    refine ⟨_, rfl, ⟨h.current, h.next, h.spare, hholds⟩, rfl,
      .kept ?_ rfl rfl (by simp [BeforeSwap]) fun _ => .inl (.inl hpc), nofun⟩
    simp only [taken, unwritten, hpc]
  · exact h.swap (.inl hpc)

theorem Inv.limit (h : s.Inv) (hpc : s.pc = .swapped) (hlimit : s.buffersToWrite.length ≤ 25)
    (now : List Char) : s.Runs (s.limit now) := by
  have hholds := h.holds
  simp only [Holds, hpc] at hholds
  rw [AsyncLogging.limit, check_of hholds.2.1]
  refine ⟨_, if_neg (Nat.not_lt.mpr hlimit), ⟨h.current, h.next, h.spare, hholds⟩, rfl,
    .kept ?_ rfl rfl (by simp [BeforeSwap, hpc]) (by simp [BeforeSwap]), nofun⟩
  simp only [taken, unwritten, hpc, drop_zero]

theorem refill_none {bs : List Buffer} (site : Assert) (h : bs ≠ []) :
    refill site none bs = .ok (some .create, bs.dropLast) := by
  rw [refill, if_pos rfl, check_of h, List.getLast?_eq_some_getLast h]
  rfl

/-- **The spare buffers come back.** -/
theorem Inv.recycle (h : s.Inv) {i : Nat} (hpc : s.pc = .writing i)
    (hend : s.buffersToWrite.length ≤ i) : s.Runs s.recycle := by
  have hholds := h.holds
  simp only [Holds, hpc] at hholds
  obtain ⟨h1, hne, h2⟩ := hholds
  obtain ⟨bs, hbs⟩ : ∃ bs, bs = if 2 < s.buffersToWrite.length then s.buffersToWrite.take 2
      else s.buffersToWrite := ⟨_, rfl⟩
  have hlen : bs.length = min 2 s.buffersToWrite.length := by
    rw [hbs]
    split
    · rw [length_take]
    · omega
  have hpos := length_pos_iff.mpr hne
  have hbsne : bs ≠ [] := length_pos_iff.mp (by omega)
  have hsecond : ∃ rest, refill .spare2 s.newBuffer2 bs.dropLast = .ok (some .create, rest) := by
    obtain h2 | ⟨h2, htwo⟩ := h2
    · rw [h2]
      exact ⟨_, rfl⟩
    · rw [h2]
      refine ⟨_, refill_none .spare2 (length_pos_iff.mp ?_)⟩
      rw [length_dropLast]
      omega
  obtain ⟨rest, hsecond⟩ := hsecond
  have hok : s.recycle = .ok { s with
      newBuffer1 := some .create, newBuffer2 := some .create, buffersToWrite := [], pc := .head } := by
    simp only [AsyncLogging.recycle]
    rw [← hbs, h1, refill_none .spare1 hbsne]
    simp only [bind, Except.bind, hsecond]
    rfl
  refine ⟨_, hok, ⟨h.current, h.next, h.spare, rfl, rfl, rfl⟩, rfl,
    .kept ?_ rfl rfl (by simp [BeforeSwap, hpc]) (by simp [BeforeSwap]), nofun⟩
  simp only [taken, unwritten, hpc, drop_of_length_le hend]

theorem Inv.write (h : s.Inv) {i : Nat} (hpc : s.pc = .writing i) : s.Runs (s.write i) := by
  rw [AsyncLogging.write]
  split
  · rename_i buffer hget
    have hholds := h.holds
    simp only [Holds, hpc] at hholds
    refine ⟨_, rfl, ⟨h.current, h.next, h.spare, hholds⟩, rfl,
      .kept ?_ rfl rfl (by simp [BeforeSwap, hpc]) (by simp [BeforeSwap]), nofun⟩
    obtain ⟨hi, rfl⟩ := List.getElem?_eq_some_iff.mp hget
    have hdrop := drop_eq_getElem_cons hi
    simp only [taken, unwritten, hpc, hdrop, map_cons, append_assoc,
      singleton_append]
  · rename_i hget
    exact h.recycle hpc (List.getElem?_eq_none_iff.mp hget)

/-- **Every step of the back end**, unless it drops buffers. -/
theorem Inv.backEnd (h : s.Inv) (hlimit : s.pc = .swapped → s.buffersToWrite.length ≤ 25)
    (now : List Char) : s.backEnd now = .ok s ∨ s.pc ≠ .finished ∧ s.Runs (s.backEnd now) := by
  unfold AsyncLogging.backEnd
  cases hpc : s.pc with
  | notStarted | finished => exact .inl rfl
  | starting => exact .inr ⟨by decide, h.begin hpc⟩
  | head => exact .inr ⟨by decide, h.iterate hpc⟩
  | locking => exact .inr ⟨by decide, h.lock hpc⟩
  | waiting => exact .inr ⟨by decide, h.swap (.inr hpc)⟩
  | swapped => exact .inr ⟨by decide, h.limit hpc (hlimit hpc) now⟩
  | writing i => exact .inr ⟨by simp, h.write hpc⟩

end

/-- The back end drops no buffer. -/
def Keeps (s : AsyncLogging) : Label → Prop
  | .backEnd _ => s.pc = .swapped → s.buffersToWrite.length ≤ 25
  | _ => True

instance (s : AsyncLogging) : (a : Label) → Decidable (s.Keeps a)
  | .backEnd _ => inferInstanceAs (Decidable (_ → _))
  | .start | .append _ | .stop | .join => .isTrue trivial

/-- What a step can do. -/
inductive Steps (s : AsyncLogging) : Label → AsyncLogging → Prop
  | idle (a : Label) : Steps s a s
  | start : s.pc = .notStarted → Steps s .start { s with running := true, pc := .starting }
  | append (line : LogLine) (s' : AsyncLogging) : Added s line s' → Steps s (.append line) s'
  | backEnd (now : List Char) (s' : AsyncLogging) : s.pc ≠ .finished → s'.front = s.front →
      s.Moved s' → s'.pc ≠ .notStarted → Steps s (.backEnd now) s'
  | stop : s.Started → s.stopping = false →
      Steps s .stop { s with running := false, stopping := true, due := s.appended }
  | join : s.stopping = true → s.pc = .finished → Steps s .join { s with joined := true }

section
variable {s s' : AsyncLogging}

/-- **Every step** succeeds and keeps the invariant. -/
theorem Inv.step (h : s.Inv) {a : Label} (ha : s.Keeps a) :
    ∃ s', s.step a = .ok s' ∧ s'.Inv ∧ s.Steps a s' := by
  cases a with
  | append line =>
    obtain ⟨s', hok, hinv, hadded⟩ := h.append line
    exact ⟨s', hok, hinv, .append line s' hadded⟩
  | backEnd now =>
    obtain hidle | ⟨hpc, s', hok, hinv, hfront, hmoved, hstarted⟩ := h.backEnd ha now
    · exact ⟨s, hidle, h, .idle _⟩
    · exact ⟨s', hok, hinv, .backEnd now s' hpc hfront hmoved hstarted⟩
  | start =>
    by_cases hpc : s.pc = .notStarted
    · have hholds := h.holds
      simp only [Holds, hpc] at hholds
      exact ⟨_, if_pos hpc, ⟨h.current, h.next, h.spare, rfl, hholds⟩, .start hpc⟩
    · exact ⟨s, if_neg hpc, h, .idle _⟩
  | stop =>
    by_cases hstop : s.Started ∧ s.stopping = false
    · refine ⟨_, if_pos hstop, ⟨h.current, h.next, h.spare, ?_⟩, .stop hstop.1 hstop.2⟩
      have hholds := h.holds
      unfold Holds at hholds ⊢
      cases hpc : s.pc with
      | starting => exact absurd hpc hstop.1.2
      | _ => simpa only [hpc] using hholds
    · exact ⟨s, if_neg hstop, h, .idle _⟩
  | join =>
    by_cases hjoin : s.stopping = true ∧ s.pc = .finished
    · exact ⟨_, if_pos hjoin, ⟨h.current, h.next, h.spare, h.holds⟩, .join hjoin.1 hjoin.2⟩
    · exact ⟨s, if_neg hjoin, h, .idle _⟩

end

/-! ## lines -/

/-- The buffers hold the lines, whole and in order. -/
def Kept (s : AsyncLogging) : Prop :=
  ∃ current, s.currentBuffer = some current ∧
    Chunked Subtype.val s.appended s.chunks current.data

section
variable {s s' : AsyncLogging}

theorem kept_create : create.Kept := ⟨.create, rfl, Chunked.nil⟩

theorem Kept.moved (h : s.Kept) (hfront : s'.front = s.front) (hmoved : s.Moved s') : s'.Kept := by
  obtain ⟨current, hcurrent, hchunked⟩ := h
  have happended : s'.appended = s.appended := congrArg Front.appended hfront
  cases hmoved with
  | kept htaken hbuffers hsame _ _ =>
    refine ⟨current, hsame.trans hcurrent, ?_⟩
    rwa [chunks, htaken, hbuffers, happended]
  | swapped c _ hc htaken hbuffers hnew =>
    obtain rfl : c = current := Option.some.inj (hc.symm.trans hcurrent)
    refine ⟨.create, hnew, ?_⟩
    rw [chunks, htaken, hbuffers, happended, map_nil, append_nil]
    exact hchunked.close

theorem Kept.added (h : s.Kept) {line : LogLine} (hadded : s.Added line s') : s'.Kept := by
  obtain ⟨c, hc, hchunked⟩ := h
  have happended : s'.appended = s.appended ++ [line] := congrArg Front.appended hadded.front
  obtain ⟨current, b, hcurrent, hb, hcases⟩ := hadded.buffers
  obtain rfl : current = c := Option.some.inj (hcurrent.symm.trans hc)
  refine ⟨b, hb, ?_⟩
  obtain ⟨hbuffers, hdata⟩ | ⟨hbuffers, hdata⟩ := hcases
  · rw [happended, chunks, hadded.taken, hbuffers, hdata]
    exact hchunked.add line
  · have hclosed := hchunked.close.add line
    simpa only [chunks, happended, hadded.taken, hbuffers, hdata, map_append, map_cons,
      map_nil, append_assoc, nil_append] using hclosed

theorem Kept.step (h : s.Kept) {a : Label} (hsteps : s.Steps a s') : s'.Kept := by
  cases hsteps with
  | idle | stop | join => exact h
  | start hpc => simpa only [Kept, chunks, taken, unwritten, hpc] using h
  | append line s' hadded => exact h.added hadded
  | backEnd now s' _ hfront hmoved _ => exact h.moved hfront hmoved

end

/-- Nothing is lost, repeated, reordered or cut: what was passed to
`LogFile::append`, what is about to be, `buffers_` and `currentBuffer_` are the
appended lines, and each of these buffers holds whole lines. -/
structure LinesKept (s : AsyncLogging) : Prop where
  bytes : s.output.flatten ++ s.unwritten.flatMap (·.data) ++ s.buffers.flatMap (·.data) ++
    (s.currentBuffer.map (·.data)).getD [] = s.appended.flatMap (·.val)
  whole : s.Kept

theorem Kept.linesKept {s : AsyncLogging} (h : s.Kept) : s.LinesKept := by
  refine ⟨?_, h⟩
  obtain ⟨current, hcurrent, hchunked⟩ := h
  rw [hcurrent]
  simpa [chunks, taken, flatMap_def] using hchunked.flatten

end Muduo.AsyncLogging
