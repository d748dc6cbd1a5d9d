import Muduo.Buffer.Spec

/-!
# Muduo.Buffer.Deque

`Buffer` refines a byte deque: bytes are appended at the tail, prepended at
the head and dropped from either end.

A program owns any number of buffers, indexed by `ι`, and applies the
operations of `Buffer.h` to them, `swap` included.  `Store.step` runs one
command on the buffers as the code does, `DequeStore.step` on the deques;
the two agree on contents and results (`run_refines_deque`).

The sizes of the code are 64-bit numbers, and `ensureWritableBytes`, `shrink`
and the constructor add to a size that the caller chooses.  `NoWrap` says
that these sums stay below `2 ^ 64`.  It cannot be dropped: when one wraps,
the operation fails an assertion of its own or leaves `writerIndex_` behind
the end of the vector (`exec_of_wrap`).
-/

namespace Muduo

open Lib Function

namespace Buffer

/-! ## operations -/

abbrev SizeT := Fin (2 ^ 64)

/-- The operations of a `Buffer` with their arguments. -/
inductive Op
  | append (data : CharRange)
  | appendInt (t : IntType) (x : BitVec (8 * t.size))
  | prepend (data : CharRange)
  | prependInt (t : IntType) (x : BitVec (8 * t.size))
  | retrieve (len : SizeT)
  /-- `retrieveUntil(peek() + len)` -/
  | retrieveUntil (len : SizeT)
  | retrieveAll
  | retrieveAsString (len : SizeT)
  | retrieveAllAsString
  | readInt (t : IntType)
  | unwrite (len : SizeT)
  | ensureWritableBytes (len : SizeT)
  /-- the caller writes `data` at `beginWrite()`, then calls `hasWritten(len)` -/
  | hasWritten (data : CharRange) (len : SizeT)
  | shrink (reserve : SizeT)
  | readFd (r : ReadvResult)

/-- What an operation returns to its caller. -/
inductive Out
  | none
  | bytes (s : List UInt8)
  | int (t : IntType) (x : BitVec (8 * t.size))
  | count (n : Int)

/-- One operation on one buffer. -/
def exec (host : ByteOrder) (b : Buffer) : Op → Except Fault (Buffer × Out)
  | .append data => do return (← b.append data.data, .none)
  | .appendInt t x => do return (← b.appendInt host t x, .none)
  | .prepend data => do return (← b.prepend data.data, .none)
  | .prependInt t x => do return (← b.prependInt host t x, .none)
  | .retrieve len => do return (← b.retrieve len, .none)
  | .retrieveUntil len => do return (← b.retrieveUntil (b.peek + len), .none)
  | .retrieveAll => .ok (b.retrieveAll, .none)
  | .retrieveAsString len => do
    let r ← b.retrieveAsString len
    return (r.2, .bytes r.1)
  | .retrieveAllAsString => do
    let r ← b.retrieveAllAsString
    return (r.2, .bytes r.1)
  | .readInt t => do
    let r ← b.readInt host t
    return (r.2, .int t r.1)
  | .unwrite len => do return (← b.unwrite len, .none)
  | .ensureWritableBytes len => do return (← b.ensureWritableBytes len, .none)
  | .hasWritten data len => do
    return (← b.writeAtEnd data.data >>= fun b' => b'.hasWritten len, .none)
  | .shrink reserve => do return (← b.shrink reserve, .none)
  | .readFd r => do
    let r ← b.readFd r
    return (r.1, .count r.2)

/-- The operation is called within its own assertions: enough bytes to take
out, enough room for a `prepend` or for bytes written at `beginWrite()`, a
`readv(2)` that stays inside the space offered, and for `shrink` a length
that an `int` can hold. -/
def Respects (b : Buffer) : Op → Prop
  | .prepend data => data.data.length ≤ b.prependableBytes
  | .prependInt t _ => t.size ≤ b.prependableBytes
  | .retrieve len | .retrieveUntil len | .retrieveAsString len | .unwrite len =>
    len ≤ b.readableBytes
  | .readInt t => t.size ≤ b.readableBytes
  | .hasWritten data len => data.data.length ≤ b.writableBytes ∧ len ≤ data.data.length
  | .shrink _ => b.readableBytes < 2 ^ 31
  | .readFd (.received data) => data.length ≤ b.offered
  | _ => True

/-- The sums of sizes that depend on a number the caller chooses do not
wrap. -/
def NoWrap (b : Buffer) : Op → Prop
  | .ensureWritableBytes len =>
    len + kCheapPrepend < 2 ^ 64 ∧ b.writerIndex + len < 2 ^ 64
  | .shrink reserve => addSize b.readableBytes reserve + kCheapPrepend < 2 ^ 64
  | _ => True

instance (b : Buffer) : (o : Op) → Decidable (b.Respects o)
  | .prepend _ | .prependInt _ _ | .retrieve _ | .retrieveUntil _ | .retrieveAsString _
  | .unwrite _ | .readInt _ | .readFd (.received _) => Nat.decLe _ _
  | .shrink _ => Nat.decLt _ _
  | .hasWritten _ _ => instDecidableAnd
  | .append _ | .appendInt _ _ | .retrieveAll | .retrieveAllAsString | .ensureWritableBytes _
  | .readFd (.failed _) => .isTrue trivial

instance (b : Buffer) : (o : Op) → Decidable (b.NoWrap o)
  | .ensureWritableBytes _ => instDecidableAnd
  | .shrink _ => Nat.decLt _ _
  | .append _ | .appendInt _ _ | .prepend _ | .prependInt _ _ | .retrieve _ | .retrieveUntil _
  | .retrieveAll | .retrieveAsString _ | .retrieveAllAsString | .readInt _ | .unwrite _
  | .hasWritten _ _ | .readFd _ => .isTrue trivial

/-! ## the deque -/

/-- One operation on the abstract deque. -/
def execDeque (q : List UInt8) : Op → List UInt8 × Out
  | .append data => (q ++ data.data, .none)
  | .appendInt t x => (q ++ beBytes t.size x.toNat, .none)
  | .prepend data => (data.data ++ q, .none)
  | .prependInt t x => (beBytes t.size x.toNat ++ q, .none)
  | .retrieve len => (q.drop len, .none)
  | .retrieveUntil len => (q.drop len, .none)
  | .retrieveAll => ([], .none)
  | .retrieveAsString len => (q.drop len, .bytes (q.take len))
  | .retrieveAllAsString => ([], .bytes q)
  | .readInt t => (q.drop t.size, .int t (BitVec.ofNat _ (beValue (q.take t.size))))
  | .unwrite len => (q.take (q.length - len), .none)
  | .ensureWritableBytes _ => (q, .none)
  | .hasWritten data len => (q ++ data.data.take len, .none)
  | .shrink _ => (q, .none)
  | .readFd (.received data) => (q ++ data, .count data.length)
  | .readFd (.failed _) => (q, .count (-1))

/-- What one operation must do, seen on the deque. -/
def Agrees (b : Buffer) (o : Op) (r : Buffer × Out) : Prop :=
  r.1.WF ∧ (r.1.content, r.2) = execDeque b.content o

variable {b : Buffer}

/-- **One operation refines its deque operation**, and fails only with the
`std::length_error` of a vector beyond `max_size()`. -/
theorem exec_refines (host : ByteOrder) (h : b.WF) (o : Op) (ho : b.Respects o)
    (hw : b.NoWrap o) : Outcome (b.Agrees o) (· = .lengthError) (b.exec host o) := by
  cases o with
  | append data =>
    refine Outcome.bind (outcome_append h data.length_le |>.mono (fun _ hb => hb)
      (fun _ he => he.1)) ?_
    rintro b' ⟨hwf, hcontent, -⟩
    exact .ok ⟨hwf, by rw [hcontent]; rfl⟩
  | appendInt t x =>
    have hlen : (netBytes host t x).length ≤ maxSize := by
      rw [length_netBytes]
      cases t <;> decide
    refine Outcome.bind (outcome_append h hlen |>.mono (fun _ hb => hb) (fun _ he => he.1)) ?_
    rintro b' ⟨hwf, hcontent, -⟩
    exact .ok ⟨hwf, by rw [hcontent, netBytes_eq]; rfl⟩
  | prepend data =>
    refine Outcome.bind (outcome_prepend h ho) ?_
    rintro b' ⟨hwf, hcontent⟩
    exact .ok ⟨hwf, by rw [hcontent]; rfl⟩
  | prependInt t x =>
    have hlen : (netBytes host t x).length ≤ b.prependableBytes := by
      rw [length_netBytes]
      exact ho
    refine Outcome.bind (outcome_prepend h hlen) ?_
    rintro b' ⟨hwf, hcontent⟩
    exact .ok ⟨hwf, by rw [hcontent, netBytes_eq]; rfl⟩
  | retrieve len =>
    obtain ⟨b', hret, hwf, hcontent, -⟩ := retrieve_spec h (h.le_length ho)
    simp only [exec, hret]
    exact .ok ⟨hwf, by rw [hcontent]; rfl⟩
  | retrieveUntil len =>
    obtain ⟨b', hret, hwf, hcontent, -⟩ := retrieveUntil_spec h (h.le_length ho)
    simp only [exec, hret]
    exact .ok ⟨hwf, by rw [hcontent]; rfl⟩
  | retrieveAll =>
    obtain ⟨hwf, hnil⟩ := h.retrieveAll
    exact .ok ⟨hwf, by rw [hnil]; rfl⟩
  | retrieveAsString len =>
    obtain ⟨b', hret, hwf, hcontent, -⟩ := retrieveAsString_spec h (h.le_length ho)
    simp only [exec, hret]
    exact .ok ⟨hwf, by rw [hcontent]; rfl⟩
  | retrieveAllAsString =>
    obtain ⟨b', hret, hwf, hcontent, -⟩ := retrieveAsString_spec h (Nat.le_refl _)
    simp only [exec, retrieveAllAsString, h.readableBytes_eq_length, hret]
    exact .ok ⟨hwf, by rw [hcontent, List.drop_length, List.take_length]; rfl⟩
  | readInt t =>
    have hlen : t.size ≤ b.content.length := h.le_length ho
    obtain ⟨b', hret, hwf, hcontent, -⟩ := readInt_spec h host t hlen
    have htake : (b.content.take t.size).length = t.size := by
      rw [List.length_take]
      omega
    simp only [exec, hret]
    exact .ok ⟨hwf, by rw [hcontent, netValue_eq host t htake]; rfl⟩
  | unwrite len =>
    obtain ⟨b', hret, hwf, hcontent, -⟩ := unwrite_spec h (h.le_length ho)
    simp only [exec, hret]
    exact .ok ⟨hwf, by rw [hcontent]; rfl⟩
  | ensureWritableBytes len =>
    refine Outcome.bind (outcome_ensureWritableBytes h hw.1 hw.2 |>.mono (fun _ hb => hb)
      (fun _ he => he.1)) ?_
    intro b' hroom
    exact .ok ⟨hroom.wf, by rw [hroom.content_eq]; rfl⟩
  | hasWritten data len =>
    refine Outcome.bind (outcome_write_hasWritten h ho.1 ho.2) ?_
    rintro b' ⟨hwf, hcontent⟩
    exact .ok ⟨hwf, by rw [hcontent]; rfl⟩
  | shrink reserve =>
    refine Outcome.bind (outcome_shrink h (h.readableBytes_eq_length ▸ ho) hw) ?_
    rintro b' ⟨hwf, hcontent⟩
    exact .ok ⟨hwf, by rw [hcontent]; rfl⟩
  | readFd r =>
    cases r with
    | received data =>
      refine Outcome.bind (outcome_readFd h ho) ?_
      rintro ⟨b', n⟩ ⟨hwf, hcontent, hn⟩
      exact .ok ⟨hwf, by rw [hcontent, hn]; rfl⟩
    | failed errno => exact .ok ⟨h, rfl⟩

/-! ## the condition is exact -/

/-- The failures of an operation whose sums wrapped. -/
def WrapFault (e : Fault) : Prop :=
  e = .assertion .makeSpace ∨ e = .assertion .ensureWritableBytes

/-- A sum that wraps in `ensureWritableBytes` fails one of the two assertions
or leaves `writerIndex_` outside the vector. -/
theorem ensureWritableBytes_of_wrap (h : b.WF) {len : Nat} (hlen : len < 2 ^ 64)
    (hwrap : ¬ (len + kCheapPrepend < 2 ^ 64 ∧ b.writerIndex + len < 2 ^ 64)) :
    Outcome (fun b' => ¬ b'.InBounds) WrapFault (b.ensureWritableBytes len) := by
  have hr := h.reader_le
  have hw := h.writer_le
  have hp := h.prepend_le
  have hs := h.size_le
  unfold maxSize at hs
  unfold kCheapPrepend at hp hwrap
  have hbig : b.writableBytes < len := by
    rw [h.writableBytes_eq]
    omega
  unfold ensureWritableBytes
  rw [if_pos hbig]
  unfold makeSpace
  rw [h.free_eq]
  by_cases hgrow : b.buffer.length - b.writerIndex + b.readerIndex < addSize len kCheapPrepend
  · -- the vector is "grown" to a wrapped, smaller size
    have hcut : addSize b.writerIndex len < b.writerIndex := by
      unfold addSize kCheapPrepend at hgrow
      unfold addSize
      omega
    rw [if_pos hgrow, resize_of_le (by omega) h.size_le]
    refine Outcome.bind (P := fun b' => ¬ b'.InBounds) ?_ ?_
    · refine .ok fun hin => ?_
      have := hin.2
      simp only [List.length_take] at this
      omega
    · intro b' hb'
      by_cases hc : len ≤ b'.writableBytes
      · exact Outcome.check_bind hc (.ok hb')
      · rw [check_of_not hc]
        exact .error (.inr rfl)
  · rw [if_neg hgrow]
    by_cases h8 : kCheapPrepend < b.readerIndex
    · -- the readable bytes move down, but no vector has room for `len` bytes
      refine Outcome.bind (outcome_moveToFront h h8) ?_
      rintro b' ⟨hwf, -, hlenb, -⟩
      have hc : ¬ len ≤ b'.writableBytes := by
        have hneed : addSize len kCheapPrepend < 2 ^ 63 + 8 := by
          unfold kCheapPrepend at h8
          omega
        unfold addSize kCheapPrepend at hneed
        rw [hwf.writableBytes_eq]
        omega
      rw [check_of_not hc]
      exact .error (.inr rfl)
    · unfold moveToFront
      rw [check_of_not h8]
      exact .error (.inl rfl)

/-- `shrink` calls `ensureWritableBytes` on a fresh buffer: nothing can be
moved to the front there. -/
theorem shrink_of_wrap {reserve : Nat}
    (hwrap : ¬ addSize b.readableBytes reserve + kCheapPrepend < 2 ^ 64) :
    Outcome (fun _ => False) WrapFault (b.shrink reserve) := by
  have hlt : addSize b.readableBytes reserve < 2 ^ 64 := Nat.mod_lt _ (by decide)
  unfold shrink
  refine Outcome.bind (Outcome.mono (outcome_create (by decide)) (fun _ hb => hb) ?_) ?_
  · rintro e ⟨-, he⟩
    exact absurd he (by decide)
  rintro other ⟨hwf, -, hreader, hwriter, hlen⟩
  have hfault : other.ensureWritableBytes (addSize b.readableBytes reserve) =
      .error (.assertion .makeSpace) := by
    unfold kCheapPrepend at hwrap hreader hwriter hlen
    unfold kInitialSize at hlen
    have hbig : other.writableBytes < addSize b.readableBytes reserve := by
      rw [hwf.writableBytes_eq]
      omega
    have hroom : ¬ addSize other.writableBytes other.prependableBytes <
        addSize (addSize b.readableBytes reserve) kCheapPrepend := by
      rw [hwf.writableBytes_eq, prependableBytes, hlen, hreader, hwriter]
      generalize addSize b.readableBytes reserve = L at hwrap hlt
      unfold addSize kCheapPrepend
      omega
    have h8 : ¬ kCheapPrepend < other.readerIndex := by
      unfold kCheapPrepend
      omega
    unfold ensureWritableBytes
    rw [if_pos hbig]
    unfold makeSpace
    rw [if_neg hroom]
    unfold moveToFront
    rw [check_of_not h8]
    rfl
  rw [hfault]
  exact .error (.inl rfl)

/-- **An operation whose sums wrap breaks the buffer**: it fails one of its
assertions or leaves the indices out of bounds. -/
theorem exec_of_wrap (host : ByteOrder) (h : b.WF) (o : Op) (hw : ¬ b.NoWrap o) :
    Outcome (fun r => ¬ r.1.InBounds) WrapFault (b.exec host o) := by
  cases o with
  | ensureWritableBytes len =>
    exact Outcome.bind (ensureWritableBytes_of_wrap h len.isLt hw) fun b' hb' => .ok hb'
  | shrink reserve => exact Outcome.bind (shrink_of_wrap hw) fun _ hb' => hb'.elim
  | _ => exact absurd trivial hw

/-- A constructor argument that wraps passes the constructor's assertions
and yields a vector shorter than `writerIndex_`. -/
theorem create_of_wrap (n : SizeT) (hw : ¬ n.val + kCheapPrepend < 2 ^ 64) :
    Outcome (fun b => ¬ b.InBounds) (fun _ => False) (create n) := by
  have hn := n.isLt
  have hsum : addSize kCheapPrepend n = kCheapPrepend + n - 2 ^ 64 :=
    addSize_of_ge (by decide) hn (by omega)
  unfold kCheapPrepend at hsum hw
  unfold create
  refine Outcome.bind (Outcome.mono (outcome_vector _) (fun _ hv => hv) ?_) ?_
  · rintro e ⟨-, he⟩
    unfold kCheapPrepend maxSize at he
    omega
  rintro v ⟨hlen, -⟩
  have hreadable : (⟨v, kCheapPrepend, kCheapPrepend⟩ : Buffer).readableBytes = 0 :=
    subSize_of_le (show kCheapPrepend < 2 ^ 64 by decide) (Nat.le_refl _)
  have hwritable : (⟨v, kCheapPrepend, kCheapPrepend⟩ : Buffer).writableBytes = n := by
    unfold writableBytes subSize kCheapPrepend at *
    simp only
    omega
  have hprependable : (⟨v, kCheapPrepend, kCheapPrepend⟩ : Buffer).prependableBytes =
      kCheapPrepend := rfl
  dsimp only
  rw [check_of hreadable, check_of hwritable, check_of hprependable]
  refine .ok fun hin => ?_
  have := hin.2
  unfold kCheapPrepend at *
  simp only at this
  omega

/-! ## programs over many buffers -/

def swap (a b : Buffer) : Buffer × Buffer :=
  (⟨b.buffer, b.readerIndex, b.writerIndex⟩, ⟨a.buffer, a.readerIndex, a.writerIndex⟩)

end Buffer

open Buffer

variable {ι : Type} [DecidableEq ι]

/-- One command of a program that owns the buffers `ι`. -/
inductive BufferCmd (ι : Type)
  | op (i : ι) (o : Op)
  | swap (i j : ι)

/-- The buffers of a program and the results returned so far. -/
structure BufferStore (ι : Type) where
  buffers : ι → Buffer
  outs : List Out

/-- The deques of the abstract program and the results returned so far. -/
structure DequeStore (ι : Type) where
  deques : ι → List UInt8
  outs : List Out

def BufferStore.step (host : ByteOrder) (s : BufferStore ι) :
    BufferCmd ι → Except Fault (BufferStore ι)
  | .op i o => do
    let r ← (s.buffers i).exec host o
    return ⟨update s.buffers i r.1, s.outs ++ [r.2]⟩
  | .swap i j =>
    let r := (s.buffers i).swap (s.buffers j)
    .ok ⟨update (update s.buffers i r.1) j r.2, s.outs⟩

def DequeStore.step (s : DequeStore ι) : BufferCmd ι → DequeStore ι
  | .op i o =>
    let r := execDeque (s.deques i) o
    ⟨update s.deques i r.1, s.outs ++ [r.2]⟩
  | .swap i j =>
    ⟨update (update s.deques i (s.deques j)) j (s.deques i), s.outs⟩

/-- The command is called within the assertions of its operation. -/
def BufferStore.Respects (s : BufferStore ι) : BufferCmd ι → Prop
  | .op i o => (s.buffers i).Respects o
  | .swap _ _ => True

/-- No sum of sizes wraps in the command. -/
def BufferStore.NoWrap (s : BufferStore ι) : BufferCmd ι → Prop
  | .op i o => (s.buffers i).NoWrap o
  | .swap _ _ => True

instance (s : BufferStore ι) : (c : BufferCmd ι) → Decidable (s.Respects c ∧ s.NoWrap c)
  | .op i o => inferInstanceAs (Decidable ((s.buffers i).Respects o ∧ (s.buffers i).NoWrap o))
  | .swap _ _ => .isTrue ⟨trivial, trivial⟩

/-- Every buffer is in order and holds the bytes of its deque; the same
results were returned. -/
structure BufferStore.Refines (s : BufferStore ι) (t : DequeStore ι) : Prop where
  wf : ∀ i, (s.buffers i).WF
  content : ∀ i, (s.buffers i).content = t.deques i
  outs : s.outs = t.outs

theorem BufferStore.step_refines (host : ByteOrder) {s : BufferStore ι} {t : DequeStore ι}
    (h : s.Refines t) (c : BufferCmd ι) (hc : s.Respects c ∧ s.NoWrap c) :
    Outcome (fun s' => s'.Refines (t.step c)) (· = .lengthError) (s.step host c) := by
  cases c with
  | op i o =>
    refine Outcome.bind (exec_refines host (h.wf i) o hc.1 hc.2) ?_
    rintro ⟨b, out⟩ ⟨hwf, heq⟩
    rw [h.content i] at heq
    have hcontent : b.content = (execDeque (t.deques i) o).1 := congrArg Prod.fst heq
    have hout : out = (execDeque (t.deques i) o).2 := congrArg Prod.snd heq
    refine .ok ⟨fun k => ?_, fun k => ?_, ?_⟩
    · by_cases hk : k = i
      · subst hk
        simpa using hwf
      · simpa [hk] using h.wf k
    · by_cases hk : k = i
      · subst hk
        simpa [DequeStore.step] using hcontent
      · simpa [hk, DequeStore.step] using h.content k
    · simp only [DequeStore.step, h.outs, hout]
  | swap i j =>
    refine .ok ⟨fun k => ?_, fun k => ?_, h.outs⟩
    · by_cases hj : k = j
      · subst hj
        simpa [Buffer.swap] using h.wf i
      · by_cases hi : k = i
        · subst hi
          simpa [Buffer.swap, hj] using h.wf j
        · simpa [hi, hj] using h.wf k
    · by_cases hj : k = j
      · subst hj
        simpa [Buffer.swap, DequeStore.step] using h.content i
      · by_cases hi : k = i
        · subst hi
          simpa [Buffer.swap, hj, DequeStore.step] using h.content j
        · simpa [hi, hj, DequeStore.step] using h.content k

/-- **`Buffer` refines a byte deque.**  Started from constructed buffers, every
program whose calls respect the assertions of the operations and let no sum
of sizes wrap keeps all indices in bounds, holds the bytes of the deques and
returns the same results; it can only fail with the `std::length_error` of a
vector beyond `max_size()`.  A call, or a constructor argument, that lets a
sum wrap breaks this: it fails one of the assertions in `makeSpace` and
`ensureWritableBytes`, or leaves the indices out of bounds. -/
theorem buffer_refines_deque (host : ByteOrder) (sizes : ι → SizeT) (init : ι → Buffer)
    (hinit : ∀ i, create (sizes i) = .ok (init i))
    (hsizes : ∀ i, (sizes i).val + kCheapPrepend < 2 ^ 64) (cmds : List (BufferCmd ι))
    (hcmds : Meets (BufferStore.step host) (fun s c => s.Respects c ∧ s.NoWrap c)
      ⟨init, []⟩ cmds) :
    Outcome (fun s : BufferStore ι => (∀ i, (s.buffers i).InBounds) ∧
        (⟨fun i => (s.buffers i).content, s.outs⟩ : DequeStore ι) =
          cmds.foldl DequeStore.step ⟨fun _ => [], []⟩)
      (· = .lengthError) (run (BufferStore.step host) ⟨init, []⟩ cmds) ∧
    (∀ b o, WF b → ¬ b.NoWrap o →
      Outcome (fun r => ¬ r.1.InBounds) WrapFault (b.exec host o)) ∧
    (∀ n : SizeT, ¬ n.val + kCheapPrepend < 2 ^ 64 →
      Outcome (fun b => ¬ b.InBounds) (fun _ => False) (create n)) := by
  have hstart : BufferStore.Refines ⟨init, []⟩ (⟨fun _ => [], []⟩ : DequeStore ι) := by
    refine ⟨fun i => ?_, fun i => ?_, rfl⟩
    · exact ((outcome_create (hsizes i)).of_ok (hinit i)).1
    · exact ((outcome_create (hsizes i)).of_ok (hinit i)).2.1
  refine ⟨?_, fun b o hb hw => exec_of_wrap host hb o hw, create_of_wrap⟩
  refine Outcome.mono (Outcome.run_sim (R := BufferStore.Refines) DequeStore.step
    (fun s t c hst hc => BufferStore.step_refines host hst c hc) hstart hcmds) ?_ (fun _ he => he)
  intro s hs
  have hcontent : (fun i => (s.buffers i).content) =
      (cmds.foldl DequeStore.step ⟨fun _ => [], []⟩).deques := funext hs.content
  exact ⟨fun i => (hs.wf i).inBounds, by rw [hcontent, hs.outs]⟩

/-- A program that uses both ends of a buffer of no initial room. -/
def bothEnds : List (BufferCmd Unit) :=
  [.op () (.append ⟨[104, 105], by decide⟩), .op () (.prependInt .int16 2),
    .op () (.readInt .int16), .op () (.retrieve 1), .op () (.ensureWritableBytes 3)]

theorem buffer_refines_deque_bothEnds :
    Outcome (fun s : BufferStore Unit => (s.buffers ()).InBounds ∧ (s.buffers ()).content = [105])
      (· = .lengthError)
      (run (BufferStore.step .little) ⟨fun _ => ⟨List.replicate 8 0, 8, 8⟩, []⟩ bothEnds) := by
  have hcreate : create 0 = .ok ⟨List.replicate 8 0, 8, 8⟩ := rfl
  have hsize : 0 + kCheapPrepend < 2 ^ 64 := by decide
  have hall := (buffer_refines_deque .little (fun _ : Unit => ⟨0, by decide⟩) _
    (fun _ => hcreate) (fun _ => hsize) bothEnds (by decide)).1
  refine hall.mono ?_ (fun _ he => he)
  rintro s ⟨hin, hcontent⟩
  exact ⟨hin (), congrFun (congrArg DequeStore.deques hcontent) ()⟩

/-- `Buffer(0)` followed by `ensureWritableBytes(SIZE_MAX)`: the request plus
`kCheapPrepend` wraps to 7, which tail room and head room seem to cover, and
the assertion in `makeSpace` fails. -/
theorem ensureWritableBytes_sizeMax_fails :
    ∃ b, create 0 = .ok b ∧ b.Respects (.ensureWritableBytes ⟨2 ^ 64 - 1, by decide⟩) ∧
      run (BufferStore.step .little) (⟨fun _ : Unit => b, []⟩ : BufferStore Unit)
        [.op () (.ensureWritableBytes ⟨2 ^ 64 - 1, by decide⟩)] =
          .error (.assertion .makeSpace) :=
  ⟨_, rfl, trivial, rfl⟩

end Muduo
