import Muduo.Buffer

/-!
# Muduo.Buffer.Spec

One specification for each operation of `Buffer`, in terms of its readable
bytes (`content`) and of the invariant `WF` that the picture in `Buffer.h`
draws.

The sizes are 64-bit numbers, so each specification of an operation that
computes a new size says which sums must not wrap.  Under that condition the
only failure is the `std::length_error` of a vector that would have to
exceed `max_size()`.
-/

namespace Muduo.Buffer

open Lib List

/-- The invariant of a buffer: its indices are in order, and its vector is one
that `std::vector` can hold and has room for the cheap prepend, because an
emptied buffer puts both indices at `kCheapPrepend`. -/
structure WF (b : Buffer) : Prop where
  reader_le : b.readerIndex ≤ b.writerIndex
  writer_le : b.writerIndex ≤ b.buffer.length
  prepend_le : kCheapPrepend ≤ b.buffer.length
  size_le : b.buffer.length ≤ maxSize

/-- The picture in `Buffer.h`: `0 ≤ readerIndex_ ≤ writerIndex_ ≤ buffer_.size()`. -/
def InBounds (b : Buffer) : Prop :=
  b.readerIndex ≤ b.writerIndex ∧ b.writerIndex ≤ b.buffer.length

/-- The readable bytes. -/
def content (b : Buffer) : List UInt8 := slice b.buffer b.readerIndex b.writerIndex

/-- The failure of an operation that needs a vector of `n` bytes. -/
def TooLong (n : Nat) (e : Fault) : Prop := e = .lengthError ∧ maxSize < n

/-! ## sizes -/

variable {len : Nat} {n : Nat} {v : List UInt8} {i : Nat} {bs : List UInt8} {E : Fault → Prop}
  {data : List UInt8}

section sizes

variable {b : Buffer}

theorem WF.inBounds (h : b.WF) : b.InBounds := ⟨h.reader_le, h.writer_le⟩

theorem WF.readableBytes_eq (h : b.WF) : b.readableBytes = b.writerIndex - b.readerIndex := by
  have hr := h.reader_le
  have hw := h.writer_le
  have hs := h.size_le
  unfold maxSize at hs
  exact subSize_of_le (by omega) hr

theorem WF.writableBytes_eq (h : b.WF) : b.writableBytes = b.buffer.length - b.writerIndex := by
  have hw := h.writer_le
  have hs := h.size_le
  unfold maxSize at hs
  exact subSize_of_le (by omega) hw

theorem WF.length_content (h : b.WF) : b.content.length = b.writerIndex - b.readerIndex :=
  length_slice h.writer_le

theorem WF.readableBytes_eq_length (h : b.WF) : b.readableBytes = b.content.length := by
  rw [h.readableBytes_eq, h.length_content]

theorem WF.le_length (h : b.WF) (hlen : len ≤ b.readableBytes) : len ≤ b.content.length := by
  rw [← h.readableBytes_eq_length]
  exact hlen

theorem WF.length_content_le (h : b.WF) : b.content.length ≤ maxSize := by
  have hw := h.writer_le
  have hs := h.size_le
  rw [h.length_content]
  omega

end sizes

/-! ## the vector -/

theorem outcome_vector (n : Nat) :
    Outcome (fun v : List UInt8 => v.length = n ∧ n ≤ maxSize) (TooLong n) (vector n) := by
  unfold vector
  by_cases h : n ≤ maxSize
  · rw [if_pos h]
    exact .ok ⟨length_replicate, h⟩
  · rw [if_neg h]
    exact .error ⟨rfl, by omega⟩

theorem resize_of_le (h : n ≤ v.length) (hv : v.length ≤ maxSize) : resize v n = .ok (v.take n) := by
  unfold resize
  rw [if_pos (Nat.le_trans h hv), if_pos h]

theorem outcome_resize (h : v.length ≤ n) :
    Outcome (fun w => w.length = n ∧ n ≤ maxSize ∧ ∃ zs, w = v ++ zs) (TooLong n) (resize v n) := by
  unfold resize
  by_cases hn : n ≤ maxSize
  · rw [if_pos hn, outcome_ok]
    by_cases hle : n ≤ v.length
    · have heq : n = v.length := by omega
      rw [if_pos hle]
      exact ⟨by simp [heq], hn, [], by simp [heq]⟩
    · rw [if_neg hle]
      refine ⟨?_, hn, _, rfl⟩
      rw [length_append, length_replicate]
      omega
  · rw [if_neg hn]
    exact .error ⟨rfl, by omega⟩

theorem copyIn_of_le {v data : List UInt8} (h : i + data.length ≤ v.length) :
    copyIn v i data = .ok (overwrite v i data) := if_pos h

theorem chars_of_le {i len : Nat} (h : i + len ≤ v.length) :
    chars v i len = .ok (slice v i (i + len)) := if_pos h

theorem WF.chars_readable {b : Buffer} (h : b.WF) :
    chars b.buffer b.peek b.readableBytes = .ok b.content := by
  have hr := h.reader_le
  have hw := h.writer_le
  rw [h.readableBytes_eq, peek, chars_of_le (by omega), content]
  congr 2
  omega

theorem WF.chars_take {b : Buffer} (h : b.WF) (hlen : len ≤ b.content.length) :
    chars b.buffer b.peek len = .ok (b.content.take len) := by
  have hr := h.reader_le
  have hw := h.writer_le
  have hclen := h.length_content
  rw [chars_of_le (by simp only [peek]; omega), peek, slice_take (j := b.writerIndex) _ (by omega)]
  rfl

theorem WF.chars_drop {b : Buffer} (h : b.WF) {i len : Nat} (hlen : i + len ≤ b.content.length) :
    chars b.buffer (b.peek + i) len = .ok ((b.content.drop i).take len) := by
  have hr := h.reader_le
  have hw := h.writer_le
  have hclen := h.length_content
  rw [chars_of_le (by simp only [peek]; omega), peek, slice_take (j := b.writerIndex) _ (by omega),
    slice_drop]
  rfl

/-! ## searching -/

theorem searchCRLF_le (h : searchCRLF bs = some i) : i + 2 ≤ bs.length := by
  induction bs generalizing i with
  | nil => cases h
  | cons b bs ih =>
    rw [searchCRLF] at h
    split at h
    · rename_i hcrlf
      obtain ⟨_, hhead⟩ := List.head?_eq_some_iff.mp hcrlf.2
      obtain rfl := Option.some.inj h
      simp [hhead]
    · obtain ⟨j, hj, rfl⟩ := Option.map_eq_some_iff.mp h
      have hle := ih hj
      simp only [length_cons]
      omega

/-- What is behind the first CR LF does not matter. -/
theorem searchCRLF_append (h : searchCRLF bs = some i)
    (more : List UInt8) : searchCRLF (bs ++ more) = some i := by
  induction bs generalizing i with
  | nil => cases h
  | cons b bs ih =>
    rw [searchCRLF] at h
    rw [cons_append, searchCRLF]
    split at h
    · rename_i hcrlf
      rw [if_pos ⟨hcrlf.1, by simp [List.head?_append, hcrlf.2]⟩]
      exact h
    · rename_i hcrlf
      obtain ⟨j, hj, rfl⟩ := Option.map_eq_some_iff.mp h
      have hne : bs ≠ [] := by
        rintro rfl
        cases hj
      rw [if_neg (by rwa [List.head?_append_of_ne_nil _ hne]), ih hj, Option.map_some]

/-- A CR LF that lies in the first part is found there. -/
theorem searchCRLF_of_append {bs more : List UInt8} (h : searchCRLF (bs ++ more) = some i)
    (hi : i + 2 ≤ bs.length) : searchCRLF bs = some i := by
  induction bs generalizing i with
  | nil => simp at hi
  | cons b bs ih =>
    rw [cons_append, searchCRLF] at h
    rw [length_cons] at hi
    rw [searchCRLF]
    have hne : bs ≠ [] := ne_nil_of_length_pos (by omega)
    rw [List.head?_append_of_ne_nil _ hne] at h
    split at h
    · rename_i hcrlf
      rw [if_pos hcrlf, h]
    · rename_i hcrlf
      obtain ⟨j, hj, rfl⟩ := Option.map_eq_some_iff.mp h
      rw [if_neg hcrlf, ih hj (by omega), Option.map_some]

theorem WF.findCRLF_eq {b : Buffer} (h : b.WF) :
    b.findCRLF = .ok ((searchCRLF b.content).map (b.peek + ·)) := by
  rw [findCRLF, h.chars_readable]
  rfl

/-! ## construction -/

theorem outcome_create (h : n + kCheapPrepend < 2 ^ 64) :
    Outcome (fun b => b.WF ∧ b.content = [] ∧ b.readerIndex = kCheapPrepend ∧
        b.writerIndex = kCheapPrepend ∧ b.buffer.length = kCheapPrepend + n)
      (TooLong (kCheapPrepend + n)) (create n) := by
  have hsum : addSize kCheapPrepend n = kCheapPrepend + n := addSize_of_lt (by omega)
  unfold create
  rw [hsum]
  refine Outcome.bind (outcome_vector _) ?_
  rintro v ⟨hlen, hmax⟩
  have hwf : (⟨v, kCheapPrepend, kCheapPrepend⟩ : Buffer).WF := by
    refine ⟨Nat.le_refl _, ?_, ?_, ?_⟩ <;> simp only [hlen] <;> omega
  have hreadable : (⟨v, kCheapPrepend, kCheapPrepend⟩ : Buffer).readableBytes = 0 := by
    rw [hwf.readableBytes_eq, Nat.sub_self]
  have hwritable : (⟨v, kCheapPrepend, kCheapPrepend⟩ : Buffer).writableBytes = n := by
    rw [hwf.writableBytes_eq]
    simp only [hlen]
    omega
  have hprependable : (⟨v, kCheapPrepend, kCheapPrepend⟩ : Buffer).prependableBytes =
      kCheapPrepend := rfl
  dsimp only
  rw [check_of hreadable, check_of hwritable, check_of hprependable]
  exact .ok ⟨hwf, slice_self _ _, rfl, rfl, hlen⟩

/-- The size of the vector of a default-constructed buffer. -/
def kNewVector : Nat := kCheapPrepend + kInitialSize

/-- A default-constructed buffer. -/
def newBuffer : Buffer := ⟨List.replicate kNewVector 0, kCheapPrepend, kCheapPrepend⟩

theorem create_default : create kInitialSize = .ok newBuffer := by decide +kernel

theorem wf_newBuffer : newBuffer.WF where
  reader_le := Nat.le_refl _
  writer_le := by simp [newBuffer, kNewVector]
  prepend_le := by simp [newBuffer, kNewVector]
  size_le := by
    rw [newBuffer, length_replicate]
    decide

@[simp] theorem content_newBuffer : newBuffer.content = [] := slice_self _ _

@[simp] theorem length_newBuffer : newBuffer.buffer.length = kNewVector := length_replicate

/-! ## taking bytes out -/

theorem WF.retrieveAll {b : Buffer} (h : b.WF) : b.retrieveAll.WF ∧ b.retrieveAll.content = [] :=
  ⟨⟨Nat.le_refl _, h.prepend_le, h.prepend_le, h.size_le⟩, slice_self _ _⟩

theorem retrieve_spec {b : Buffer} (h : b.WF) (hlen : len ≤ b.content.length) :
    ∃ b', b.retrieve len = .ok b' ∧ b'.WF ∧ b'.content = b.content.drop len ∧
      b'.buffer = b.buffer := by
  have hr := h.reader_le
  have hw := h.writer_le
  have hs := h.size_le
  have hcontent := h.length_content
  unfold maxSize at hs
  unfold retrieve
  rw [h.readableBytes_eq_length, check_of hlen]
  by_cases hlt : len < b.content.length
  · have hadd : addSize b.readerIndex len = b.readerIndex + len := addSize_of_lt (by omega)
    refine ⟨{ b with readerIndex := b.readerIndex + len }, ?_, ⟨?_, hw, h.prepend_le, h.size_le⟩,
      slice_drop _ _ _ _, rfl⟩
    · simp [hlt, hadd, bind, Except.bind, pure, Except.pure]
    · simp only
      omega
  · obtain ⟨hwf, hnil⟩ := h.retrieveAll
    refine ⟨b.retrieveAll, ?_, hwf, ?_, rfl⟩
    · simp [hlt, bind, Except.bind, pure, Except.pure]
    · rw [hnil, drop_of_length_le (by omega)]

theorem retrieveUntil_spec {b : Buffer} (h : b.WF) (hlen : len ≤ b.content.length) :
    ∃ b', b.retrieveUntil (b.peek + len) = .ok b' ∧ b'.WF ∧ b'.content = b.content.drop len ∧
      b'.buffer = b.buffer := by
  have hr := h.reader_le
  have hw := h.writer_le
  have hs := h.size_le
  have hcontent := h.length_content
  unfold maxSize at hs
  have hsub : subSize (b.peek + len) b.peek = len := by
    rw [subSize_of_le (by simp only [peek]; omega) (by omega), Nat.add_sub_cancel_left]
  unfold retrieveUntil
  rw [check_of (by omega), check_of (by simp only [peek, beginWrite]; omega), hsub]
  exact retrieve_spec h hlen

theorem retrieveAsString_spec {b : Buffer} (h : b.WF) (hlen : len ≤ b.content.length) :
    ∃ b', b.retrieveAsString len = .ok (b.content.take len, b') ∧ b'.WF ∧
      b'.content = b.content.drop len ∧ b'.buffer = b.buffer := by
  obtain ⟨b', hret, hwf, hcontent, hbuf⟩ := retrieve_spec h hlen
  refine ⟨b', ?_, hwf, hcontent, hbuf⟩
  unfold retrieveAsString
  rw [h.readableBytes_eq_length, check_of hlen, hret, h.chars_take hlen]
  rfl

theorem unwrite_spec {b : Buffer} (h : b.WF) (hlen : len ≤ b.content.length) :
    ∃ b', b.unwrite len = .ok b' ∧ b'.WF ∧
      b'.content = b.content.take (b.content.length - len) ∧ b'.buffer = b.buffer := by
  have hr := h.reader_le
  have hw := h.writer_le
  have hs := h.size_le
  have hclen := h.length_content
  unfold maxSize at hs
  have hsub : subSize b.writerIndex len = b.writerIndex - len := subSize_of_le (by omega) (by omega)
  have hend : b.writerIndex - len = b.readerIndex + (b.content.length - len) := by omega
  refine ⟨{ b with writerIndex := b.writerIndex - len }, ?_, ⟨?_, ?_, h.prepend_le, h.size_le⟩,
    ?_, rfl⟩
  · unfold unwrite
    rw [h.readableBytes_eq_length, check_of hlen, hsub]
    rfl
  · simp only
    omega
  · simp only
    omega
  · simp only [content] at hclen hend ⊢
    rw [hend, slice_take (j := b.writerIndex) _ (by omega)]

/-! ## making room -/

/-- What making room for `len` bytes must establish: the same readable
bytes, `len` writable ones, and a vector that has grown by at most `len`. -/
structure Room (b : Buffer) (len : Nat) (b' : Buffer) : Prop where
  wf : b'.WF
  content_eq : b'.content = b.content
  room : b'.writerIndex + len ≤ b'.buffer.length
  growth : b'.buffer.length ≤ b.buffer.length + len

/-- Moving the readable bytes down keeps them, whole and in order, although
source and destination overlap. -/
theorem outcome_moveToFront {b : Buffer} (h : b.WF) (h8 : kCheapPrepend < b.readerIndex)
    :
    Outcome (fun b' => b'.WF ∧ b'.content = b.content ∧ b'.buffer.length = b.buffer.length ∧
      b'.writerIndex = kCheapPrepend + b.content.length) E b.moveToFront := by
  have hr := h.reader_le
  have hw := h.writer_le
  have hs := h.size_le
  have hclen := h.length_content
  unfold maxSize at hs
  have hcopy : copyForward b.buffer b.readerIndex kCheapPrepend
      (b.writerIndex - b.readerIndex) = overwrite b.buffer kCheapPrepend b.content := by
    rw [copyForward_eq_overwrite _ _ _ _ (by omega) (by omega), content]
    congr 2
    omega
  have hsum : addSize kCheapPrepend b.readableBytes = kCheapPrepend + b.content.length := by
    rw [h.readableBytes_eq_length]
    exact addSize_of_lt (by omega)
  have hlenv : (overwrite b.buffer kCheapPrepend b.content).length = b.buffer.length :=
    length_overwrite (by omega)
  have hwf' : (⟨overwrite b.buffer kCheapPrepend b.content, kCheapPrepend,
      kCheapPrepend + b.content.length⟩ : Buffer).WF := by
    refine ⟨?_, ?_, ?_, ?_⟩ <;> simp only [hlenv]
    · omega
    · omega
    · exact h.prepend_le
    · exact h.size_le
  have hreadable : b.readableBytes = (⟨overwrite b.buffer kCheapPrepend b.content,
      kCheapPrepend, kCheapPrepend + b.content.length⟩ : Buffer).readableBytes := by
    rw [hwf'.readableBytes_eq, h.readableBytes_eq_length, Nat.add_sub_cancel_left]
  unfold moveToFront
  refine Outcome.check_bind h8 ?_
  dsimp only
  rw [hcopy, hsum]
  exact Outcome.check_bind hreadable
    (.ok ⟨hwf', slice_overwrite_self h.prepend_le, hlenv, rfl⟩)

theorem WF.free_eq {b : Buffer} (h : b.WF) : addSize b.writableBytes b.prependableBytes =
    b.buffer.length - b.writerIndex + b.readerIndex := by
  have hr := h.reader_le
  have hw := h.writer_le
  have hs := h.size_le
  unfold maxSize at hs
  rw [h.writableBytes_eq, prependableBytes]
  exact addSize_of_lt (by omega)

/-- Both branches of `makeSpace` make room.  The vector grows only when tail
room and head room together do not suffice; otherwise the readable bytes move
down, and `kCheapPrepend < readerIndex_` because the tail room alone was too
small. -/
theorem outcome_makeSpace {b : Buffer} (h : b.WF) (hlt : b.writableBytes < len)
    (h8 : len + kCheapPrepend < 2 ^ 64) (hlen : b.writerIndex + len < 2 ^ 64) :
    Outcome (Room b len) (TooLong (b.writerIndex + len)) (b.makeSpace len) := by
  have hr := h.reader_le
  have hw := h.writer_le
  have hp := h.prepend_le
  have hs := h.size_le
  have hclen := h.length_content
  unfold maxSize at hs
  have hadd : addSize b.writerIndex len = b.writerIndex + len := addSize_of_lt hlen
  have hneed : addSize len kCheapPrepend = len + kCheapPrepend := addSize_of_lt h8
  rw [h.writableBytes_eq] at hlt
  unfold makeSpace
  rw [hadd, hneed, h.free_eq]
  by_cases hgrow : b.buffer.length - b.writerIndex + b.readerIndex < len + kCheapPrepend
  · rw [if_pos hgrow]
    refine Outcome.bind (outcome_resize (by omega)) ?_
    rintro v ⟨hvlen, hvmax, zs, rfl⟩
    refine .ok ⟨⟨hr, ?_, ?_, ?_⟩, slice_append_right _ _ hw, ?_, ?_⟩ <;> simp only [hvlen] <;> omega
  · rw [if_neg hgrow]
    refine Outcome.mono (outcome_moveToFront h (by omega)) ?_ (fun _ he => he)
    rintro b' ⟨hwf, hcontent, hlenb, hwriter⟩
    exact ⟨hwf, hcontent, by omega, by omega⟩

theorem outcome_ensureWritableBytes {b : Buffer} (h : b.WF) (h8 : len + kCheapPrepend < 2 ^ 64)
    (hlen : b.writerIndex + len < 2 ^ 64) :
    Outcome (Room b len) (TooLong (b.writerIndex + len)) (b.ensureWritableBytes len) := by
  have hw := h.writer_le
  unfold ensureWritableBytes
  have hroom : Outcome (Room b len) (TooLong (b.writerIndex + len))
      (if b.writableBytes < len then b.makeSpace len else .ok b) := by
    by_cases hlt : b.writableBytes < len
    · rw [if_pos hlt]
      exact outcome_makeSpace h hlt h8 hlen
    · rw [if_neg hlt]
      rw [h.writableBytes_eq] at hlt
      exact .ok ⟨h, rfl, by omega, by omega⟩
  refine Outcome.bind hroom ?_
  intro b' hb'
  have hge : len ≤ b'.writableBytes := by
    have := hb'.room
    rw [hb'.wf.writableBytes_eq]
    omega
  exact Outcome.check_bind hge (.ok hb')

/-! ## putting bytes in -/

theorem WF.commit {b : Buffer} (h : b.WF) (hlen : b.writerIndex + data.length ≤ b.buffer.length)
    (hn : n ≤ data.length) :
    (⟨overwrite b.buffer b.writerIndex data, b.readerIndex, b.writerIndex + n⟩ : Buffer).WF ∧
      (⟨overwrite b.buffer b.writerIndex data, b.readerIndex, b.writerIndex + n⟩ :
        Buffer).content = b.content ++ data.take n := by
  have hr := h.reader_le
  have hlenv : (overwrite b.buffer b.writerIndex data).length = b.buffer.length :=
    length_overwrite hlen
  refine ⟨⟨?_, ?_, ?_, ?_⟩, ?_⟩
  · simp only
    omega
  · simp only [hlenv]
    omega
  · simp only [hlenv]
    exact h.prepend_le
  · simp only [hlenv]
    exact h.size_le
  · simp only [content]
    rw [← slice_append_slice _ hr (Nat.le_add_right _ _),
      slice_overwrite_left (Nat.le_refl _) h.writer_le,
      slice_take (j := b.writerIndex + data.length) _ (by omega),
      slice_overwrite_self h.writer_le]

theorem WF.write_hasWritten {b : Buffer} (h : b.WF)
    (hfit : b.writerIndex + data.length ≤ b.buffer.length) (hlen : len ≤ data.length) :
    ∃ v b', copyIn b.buffer b.beginWrite data = .ok v ∧
      ({ b with buffer := v } : Buffer).hasWritten len = .ok b' ∧ b'.WF ∧
      b'.content = b.content ++ data.take len ∧ b'.buffer.length = b.buffer.length ∧
      b'.readerIndex = b.readerIndex := by
  have hs := h.size_le
  unfold maxSize at hs
  have hlenv := length_overwrite hfit
  obtain ⟨hwf, hcontent⟩ := h.commit hfit hlen
  have hadd : addSize b.writerIndex len = b.writerIndex + len := addSize_of_lt (by omega)
  have hle : len ≤ writableBytes { b with buffer := overwrite b.buffer b.writerIndex data } := by
    rw [writableBytes, hlenv, subSize_of_le (by omega) h.writer_le]
    omega
  refine ⟨_, _, copyIn_of_le hfit, ?_, hwf, hcontent, hlenv, rfl⟩
  rw [hasWritten, beginWrite, check_of hle, hadd]
  rfl

/-- **`append`** adds bytes at the tail.  It fails only when the vector would
exceed `max_size()`. -/
theorem outcome_append {b : Buffer} (h : b.WF) (hdata : data.length ≤ maxSize) :
    Outcome (fun b' => b'.WF ∧ b'.content = b.content ++ data ∧
        b'.buffer.length ≤ b.buffer.length + data.length)
      (TooLong (b.writerIndex + data.length)) (b.append data) := by
  have hw := h.writer_le
  have hs := h.size_le
  unfold maxSize at hs hdata
  unfold append
  refine Outcome.bind (outcome_ensureWritableBytes h (by unfold kCheapPrepend; omega)
    (by omega)) ?_
  intro b₁ hb₁
  obtain ⟨v, b', hcopy, hwritten, hwf, hcontent, hlen, -⟩ :=
    hb₁.wf.write_hasWritten hb₁.room (Nat.le_refl _)
  rw [take_length, hb₁.content_eq] at hcontent
  rw [hcopy]
  simp only [bind, Except.bind]
  rw [hwritten]
  exact .ok ⟨hwf, hcontent, hlen ▸ hb₁.growth⟩

/-- `append` to the buffer of a component that passes the failure on. -/
theorem outcome_append_mapError {ε : Type} {b : Buffer} (h : b.WF) (hdata : data.length ≤ maxSize)
    {f : Fault → ε} {E : ε → Prop}
    (hE : maxSize < b.buffer.length + data.length → E (f .lengthError)) :
    Outcome (fun b' => b'.WF ∧ b'.content = b.content ++ data ∧
        b'.buffer.length ≤ b.buffer.length + data.length) E ((b.append data).mapError f) := by
  refine (outcome_append h hdata).mapError fun e he => ?_
  obtain ⟨rfl, hlt⟩ := he
  have hw := h.writer_le
  exact hE (by omega)

theorem outcome_prepend {b : Buffer} (h : b.WF) (hlen : data.length ≤ b.prependableBytes) :
    Outcome (fun b' => b'.WF ∧ b'.content = data ++ b.content) E (b.prepend data) := by
  have hr := h.reader_le
  have hw := h.writer_le
  have hs := h.size_le
  unfold maxSize at hs
  unfold prependableBytes at hlen
  have hsub : subSize b.readerIndex data.length = b.readerIndex - data.length :=
    subSize_of_le (by omega) hlen
  have hfit : b.readerIndex - data.length + data.length ≤ b.buffer.length := by omega
  have hback : b.readerIndex - data.length + data.length = b.readerIndex := by omega
  have hlenv := length_overwrite hfit
  unfold prepend
  dsimp only
  rw [hsub, copyIn_of_le hfit]
  refine Outcome.check_bind hlen (.ok ⟨⟨?_, ?_, ?_, ?_⟩, ?_⟩)
  · simp only
    omega
  · simp only [hlenv]
    exact hw
  · simp only [hlenv]
    exact h.prepend_le
  · simp only [hlenv]
    exact h.size_le
  · simp only [content]
    rw [slice_overwrite_prepend (by omega) hw, hback]

theorem outcome_write_hasWritten {b : Buffer} (h : b.WF) (hdata : data.length ≤ b.writableBytes)
    (hlen : len ≤ data.length) :
    Outcome (fun b' => b'.WF ∧ b'.content = b.content ++ data.take len) E
      (b.writeAtEnd data >>= fun b' => b'.hasWritten len) := by
  have hw := h.writer_le
  rw [h.writableBytes_eq] at hdata
  obtain ⟨v, b', hcopy, hwritten, hwf, hcontent, -⟩ := h.write_hasWritten (by omega) hlen
  rw [writeAtEnd, hcopy]
  simp only [bind, Except.bind, pure, Except.pure]
  rw [hwritten]
  exact .ok ⟨hwf, hcontent⟩

/-- `shrink` moves the readable bytes into a fresh vector.  The length goes
through an `int`, hence the bound. -/
theorem outcome_shrink {b : Buffer} (h : b.WF) {reserve : Nat} (h31 : b.content.length < 2 ^ 31)
    (hsum : addSize b.readableBytes reserve + kCheapPrepend < 2 ^ 64) :
    Outcome (fun b' => b'.WF ∧ b'.content = b.content) (· = .lengthError) (b.shrink reserve) := by
  have hr := h.reader_le
  have hw := h.writer_le
  have hclen := h.length_content
  have hdata : chars b.buffer b.peek (sizeOfInt (intOfSize b.readableBytes)) =
      .ok b.content := by
    rw [h.readableBytes_eq_length, sizeOfInt_intOfSize h31, peek,
      chars_of_le (by omega), hclen]
    congr 2
    omega
  unfold shrink
  refine Outcome.bind (Outcome.mono (outcome_create (by decide)) (fun _ hb => hb)
    (fun _ he => he.1)) ?_
  rintro other ⟨hwf, hnil, -, hwriter, -⟩
  refine Outcome.bind (Outcome.mono (outcome_ensureWritableBytes hwf hsum
    (by rw [hwriter]; omega)) (fun _ hb => hb) (fun _ he => he.1)) ?_
  intro other' hroom
  rw [hdata]
  refine Outcome.mono (outcome_append hroom.wf h.length_content_le) ?_ (fun _ he => he.1)
  rintro b' ⟨hwf', hcontent, -⟩
  exact ⟨hwf', by rw [hcontent, hroom.content_eq, hnil, nil_append]⟩

/-- The prependable bytes are not used up by making room. -/
theorem outcome_ensureWritableBytes_prependable {b : Buffer} (h : kCheapPrepend ≤ b.readerIndex)
    (len : Nat) :
    Outcome (fun b' => kCheapPrepend ≤ b'.readerIndex) (fun _ => True)
      (b.ensureWritableBytes len) := by
  refine Outcome.bind (P := fun b' => kCheapPrepend ≤ b'.readerIndex) ?_ fun b' hb' =>
    Outcome.bind (outcome_check fun _ => trivial) fun _ _ => .ok hb'
  split
  · unfold makeSpace
    split
    · refine Outcome.bind (P := fun _ => True) ?_ fun v _ => .ok h
      cases resize b.buffer (addSize b.writerIndex len) with
      | ok v => exact .ok trivial
      | error e => exact .error trivial
    · exact Outcome.bind (outcome_check fun _ => trivial) fun _ _ =>
        Outcome.bind (outcome_check fun _ => trivial) fun _ _ => .ok (Nat.le_refl _)
  · exact .ok h

theorem outcome_append_prependable {b : Buffer} (h : kCheapPrepend ≤ b.readerIndex)
    (data : List UInt8) :
    Outcome (fun b' => kCheapPrepend ≤ b'.readerIndex) (fun _ => True) (b.append data) := by
  refine Outcome.bind (outcome_ensureWritableBytes_prependable h data.length) fun b' hb' => ?_
  refine Outcome.bind (P := fun _ => True) ?_ fun v _ =>
    Outcome.bind (outcome_check fun _ => trivial) fun _ _ => .ok hb'
  cases copyIn b'.buffer b'.beginWrite data with
  | ok v => exact .ok trivial
  | error e => exact .error trivial

/-! ## integers -/

/-- On either kind of machine the bytes that go into the buffer are those
of the value in network order. -/
theorem netBytes_eq (host : ByteOrder) (t : IntType) (x : BitVec (8 * t.size)) :
    netBytes host t x = beBytes t.size x.toNat := by
  cases t with
  | int8 => cases host <;> simp [netBytes, objectBytes, IntType.size, leBytes, beBytes]
  | int16 => exact objectBytes_hostToNetwork host 2 _
  | int32 => exact objectBytes_hostToNetwork host 4 _
  | int64 => exact objectBytes_hostToNetwork host 8 _

theorem netValue_eq (host : ByteOrder) (t : IntType)
    (h : bs.length = t.size) : netValue host t bs = BitVec.ofNat _ (beValue bs) := by
  have hconv := networkToHost_objectValue host bs
  rw [h] at hconv
  cases t with
  | int8 =>
    match bs, h with
    | [x], _ => cases host <;> rfl
  | int16 => exact congrArg (BitVec.ofNat _) hconv
  | int32 => exact congrArg (BitVec.ofNat _) hconv
  | int64 => exact congrArg (BitVec.ofNat _) hconv

theorem length_netBytes (host : ByteOrder) (t : IntType) (x : BitVec (8 * t.size)) :
    (netBytes host t x).length = t.size := by
  rw [netBytes_eq, length_beBytes]

theorem netValue_netBytes (host : ByteOrder) (t : IntType) (x : BitVec (8 * t.size)) :
    netValue host t (netBytes host t x) = x := by
  have hlt : x.toNat < 256 ^ t.size := by
    have := x.isLt
    rwa [Nat.pow_mul] at this
  rw [netValue_eq host t (length_netBytes host t x), netBytes_eq, beValue_beBytes hlt,
    BitVec.ofNat_toNat, BitVec.setWidth_eq]

theorem outcome_appendInt32 {b : Buffer} (h : b.WF) (host : ByteOrder) (x : BitVec 32) :
    Outcome (fun b' => b'.WF ∧ b'.content = b.content ++ beBytes 4 x.toNat ∧
        b'.buffer.length ≤ b.buffer.length + 4)
      (TooLong (b.writerIndex + 4)) (b.appendInt32 host x) := by
  have hbytes : b.appendInt32 host x = b.append (beBytes 4 x.toNat) :=
    congrArg b.append (netBytes_eq host .int32 x)
  have hle : (beBytes 4 x.toNat).length ≤ maxSize := by rw [length_beBytes]; decide
  have happend := outcome_append h hle
  rw [length_beBytes] at happend
  rwa [hbytes]

theorem outcome_prependInt32 {b : Buffer} (h : b.WF) (host : ByteOrder) (x : BitVec 32)
    (hlen : 4 ≤ b.prependableBytes) :
    Outcome (fun b' => b'.WF ∧ b'.content = beBytes 4 x.toNat ++ b.content) E
      (b.prependInt32 host x) := by
  have hbytes : b.prependInt32 host x = b.prepend (beBytes 4 x.toNat) :=
    congrArg b.prepend (netBytes_eq host .int32 x)
  rw [hbytes]
  exact outcome_prepend h (by rwa [length_beBytes])

theorem WF.peekInt_eq {b : Buffer} (h : b.WF) (host : ByteOrder) (t : IntType)
    (hlen : t.size ≤ b.content.length) :
    b.peekInt host t = .ok (netValue host t (b.content.take t.size)) := by
  unfold peekInt
  rw [h.readableBytes_eq_length, check_of hlen, h.chars_take hlen]
  rfl

theorem readInt_spec {b : Buffer} (h : b.WF) (host : ByteOrder) (t : IntType)
    (hlen : t.size ≤ b.content.length) :
    ∃ b', b.readInt host t = .ok (netValue host t (b.content.take t.size), b') ∧ b'.WF ∧
      b'.content = b.content.drop t.size ∧ b'.buffer = b.buffer := by
  obtain ⟨b', hret, hwf, hcontent, hbuf⟩ := retrieve_spec h hlen
  refine ⟨b', ?_, hwf, hcontent, hbuf⟩
  unfold readInt
  rw [h.peekInt_eq host t hlen, hret]
  rfl

/-! ## reading from a file descriptor -/

/-- **`readFd`** appends exactly the bytes received, those in the stack area
included. -/
theorem outcome_readFd {b : Buffer} (h : b.WF) (hdata : data.length ≤ b.offered) :
    Outcome (fun r => r.1.WF ∧ r.1.content = b.content ++ data ∧ r.2 = (data.length : Int))
      (· = .lengthError) (b.readFd (.received data)) := by
  have hw := h.writer_le
  have hs := h.size_le
  have hwr := h.writableBytes_eq
  unfold maxSize at hs
  have htake : (data.take b.writableBytes).length ≤ b.writableBytes := by
    rw [length_take]
    omega
  have hfit : b.writerIndex + (data.take b.writableBytes).length ≤ b.buffer.length := by omega
  unfold readFd
  dsimp only
  rw [copyIn_of_le hfit]
  by_cases hle : data.length ≤ b.writableBytes
  · have hall : data.take b.writableBytes = data := take_of_length_le hle
    rw [hall] at hfit ⊢
    have hcommit := h.commit hfit (Nat.le_refl _)
    rw [take_length] at hcommit
    have hadd : addSize b.writerIndex data.length = b.writerIndex + data.length :=
      addSize_of_lt (by omega)
    refine Outcome.bind (.ok (P := (· = overwrite b.buffer b.writerIndex data)) rfl) ?_
    rintro v rfl
    rw [if_pos hle, hadd]
    exact .ok ⟨hcommit.1, hcommit.2, rfl⟩
  · have hlen : (data.take b.writableBytes).length = b.writableBytes := by
      rw [length_take]
      omega
    have hcommit := h.commit hfit (Nat.le_refl _)
    rw [take_length] at hcommit
    have hend : b.writerIndex + (data.take b.writableBytes).length =
        (overwrite b.buffer b.writerIndex (data.take b.writableBytes)).length := by
      rw [length_overwrite hfit]
      omega
    rw [hend] at hcommit
    have hrest : (data.drop b.writableBytes).length ≤ maxSize := by
      unfold offered kExtraBuf at hdata
      rw [length_drop]
      unfold maxSize
      split at hdata <;> omega
    refine Outcome.bind (.ok (P := (· = overwrite b.buffer b.writerIndex
      (data.take b.writableBytes))) rfl) ?_
    rintro v rfl
    rw [if_neg hle]
    refine Outcome.bind (Outcome.mono (outcome_append hcommit.1 hrest) (fun _ hb => hb)
      (fun _ he => he.1)) ?_
    rintro b' ⟨hwf', hcontent, -⟩
    refine .ok ⟨hwf', ?_, rfl⟩
    rw [hcontent, hcommit.2, append_assoc, take_append_drop]

end Muduo.Buffer
