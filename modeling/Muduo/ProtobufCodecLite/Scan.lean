import Muduo.Lib.Scanner
import Muduo.ProtobufCodecLite

/-!
# Muduo.ProtobufCodecLite.Scan

`onMessage` as a scanner of frames.

The tag is short enough for `kMinMessageLen + kHeaderLen` to be an `int`.  When it does not
leave room for any message, every length is refused.
-/

namespace Muduo.ProtobufCodecLite

open Lib List

variable {Message : Type} (codec : ProtobufCodecLite Message)

/-! ## frames -/

/-- The length that the header gives. -/
def lenOf (bs : List UInt8) : Nat := beValue (bs.take kHeaderLen)

/-- What is made of a frame: nothing, a message, or an error. -/
def accept (frame : List UInt8) : Except ErrorCode (Option Message) :=
  if codec.filtered frame then .ok none
  else (codec.parse (frame.drop kHeaderLen)).map some

/-- One round of the loop on the bytes `bs`. -/
def scan (_ : Unit) (bs : List UInt8) : Scan Unit UInt8 Message ErrorCode :=
  if bs.length < kHeaderLen + (codec.tag.length + kChecksumLen) then .wait
  else if kMaxMessageLen < lenOf bs ∨ lenOf bs < codec.tag.length + kChecksumLen then
    .stop .kInvalidLength () bs
  else if bs.length < kHeaderLen + lenOf bs then .wait
  else match codec.accept (bs.take (kHeaderLen + lenOf bs)) with
    | .ok message => .next message.toList () (bs.drop (kHeaderLen + lenOf bs))
    | .error errorCode => .stop errorCode () bs

/-- The bytes begin with a frame of a length that is allowed. -/
structure BeginsFrame (bs : List UInt8) : Prop where
  le_max : lenOf bs ≤ kMaxMessageLen
  min_le : codec.tag.length + kChecksumLen ≤ lenOf bs
  complete : kHeaderLen + lenOf bs ≤ bs.length

section
variable {codec} {bs rest : List UInt8}

theorem lenOf_append (h : kHeaderLen ≤ bs.length) (more : List UInt8) :
    lenOf (bs ++ more) = lenOf bs := by
  rw [lenOf, take_append_of_le_length h, lenOf]

theorem BeginsFrame.append (h : codec.BeginsFrame bs) (more : List UInt8) :
    codec.BeginsFrame (bs ++ more) := by
  have hcomplete := h.complete
  have hheader : kHeaderLen ≤ bs.length := by omega
  have hlen := lenOf_append hheader more
  refine ⟨?_, ?_, ?_⟩
  · rw [hlen]; exact h.le_max
  · rw [hlen]; exact h.min_le
  · rw [hlen, length_append]; omega

theorem BeginsFrame.scan_eq (h : codec.BeginsFrame bs) :
    codec.scan () bs = match codec.accept (bs.take (kHeaderLen + lenOf bs)) with
      | .ok message => .next message.toList () (bs.drop (kHeaderLen + lenOf bs))
      | .error errorCode => .stop errorCode () bs := by
  have hmax := h.le_max
  have hmin := h.min_le
  have hcomplete := h.complete
  rw [scan, if_neg (by omega), if_neg (by omega), if_neg (by omega)]

theorem BeginsFrame.scan_append (h : codec.BeginsFrame bs) (more : List UInt8) :
    codec.scan () (bs ++ more) = match codec.accept (bs.take (kHeaderLen + lenOf bs)) with
      | .ok message => .next message.toList () (bs.drop (kHeaderLen + lenOf bs) ++ more)
      | .error errorCode => .stop errorCode () (bs ++ more) := by
  have hcomplete := h.complete
  rw [(h.append more).scan_eq, lenOf_append (by omega), take_append_of_le_length hcomplete,
    drop_append_of_le_length hcomplete]

theorem scan_next {out : List Message} (h : codec.scan () bs = .next out () rest) :
    codec.BeginsFrame bs ∧ ∃ message, codec.accept (bs.take (kHeaderLen + lenOf bs)) = .ok message ∧
      out = message.toList ∧ rest = bs.drop (kHeaderLen + lenOf bs) := by
  unfold scan at h
  split_ifs at h with hshort hlen hframe
  have hbegins : codec.BeginsFrame bs := ⟨by omega, by omega, by omega⟩
  refine ⟨hbegins, ?_⟩
  cases hacc : codec.accept (bs.take (kHeaderLen + lenOf bs)) with
  | ok message =>
    simp only [hacc, Scan.next.injEq] at h
    exact ⟨message, rfl, h.1.symm, h.2.2.symm⟩
  | error e => simp [hacc] at h

theorem scan_stop {e : ErrorCode} (h : codec.scan () bs = .stop e () rest) :
    rest = bs ∧ ∀ more, codec.scan () (bs ++ more) = .stop e () (bs ++ more) := by
  have hs := h
  unfold scan at h
  split_ifs at h with hshort hlen hframe
  · simp only [Scan.stop.injEq] at h
    refine ⟨h.2.2.symm, fun more => ?_⟩
    have hheader : kHeaderLen ≤ bs.length := by omega
    rw [scan, length_append, if_neg (by omega), lenOf_append hheader, if_pos hlen, h.1]
  · have hbegins : codec.BeginsFrame bs := ⟨by omega, by omega, by omega⟩
    cases hacc : codec.accept (bs.take (kHeaderLen + lenOf bs)) with
    | ok message => simp [hacc] at h
    | error e' =>
      simp only [hacc, Scan.stop.injEq] at h
      refine ⟨h.2.2.symm, fun more => ?_⟩
      rw [hbegins.scan_append more, hacc, h.1]

/-- **Complete frames are final.** -/
theorem stable_scan : Stable codec.scan (fun _ => True) where
  next := by
    intro _ bs out _ rest _ h
    obtain ⟨hbegins, message, hacc, rfl, rfl⟩ := scan_next h
    have hcomplete := hbegins.complete
    refine ⟨trivial, ?_, fun more => ?_⟩
    · rw [length_drop]
      unfold kHeaderLen at hcomplete ⊢
      omega
    · rw [hbegins.scan_append more, hacc]
  stop := by
    intro _ bs e _ rest _ h more
    obtain ⟨rfl, hmore⟩ := scan_stop h
    exact hmore more

end

/-! ## `onMessage` -/

section
variable {codec} {buf : Buffer}

/-- The tag leaves room for a message. -/
def HasRoom (codec : ProtobufCodecLite Message) : Prop :=
  codec.tag.length + kChecksumLen ≤ kMaxMessageLen

/-- The sums with the length of the tag are not too large for an `int`. -/
def SmallTag (codec : ProtobufCodecLite Message) : Prop :=
  codec.tag.length + kChecksumLen + kHeaderLen < 2 ^ 31

theorem HasRoom.smallTag (hroom : codec.HasRoom) : codec.SmallTag := by
  have hmax : kMaxMessageLen + kHeaderLen < 2 ^ 31 := by decide
  unfold HasRoom at hroom
  unfold SmallTag
  omega

theorem SmallTag.kMinMessageLen_eq (htag : codec.SmallTag) :
    codec.kMinMessageLen = codec.tag.length + kChecksumLen := by
  unfold SmallTag at htag
  rw [kMinMessageLen, intOfSize_of_lt (by omega), Int.natCast_add]

theorem lenOf_lt (bs : List UInt8) : lenOf bs < 2 ^ 32 := by
  have hlt := leValue_lt (bs.take kHeaderLen).reverse
  have hle : (bs.take kHeaderLen).length ≤ kHeaderLen := length_take_le _ _
  calc lenOf bs < 256 ^ (bs.take kHeaderLen).reverse.length := hlt
    _ ≤ 256 ^ kHeaderLen := Nat.pow_le_pow_right (by decide) (by rwa [length_reverse])
    _ = 2 ^ 32 := by decide

/-- The length as the code reads it: a number above `INT_MAX` is negative. -/
theorem peekInt32_eq (h : buf.WF) (host : ByteOrder) (hlen : kHeaderLen ≤ buf.content.length) :
    ∃ x : BitVec (8 * Buffer.IntType.int32.size), buf.peekInt host .int32 = .ok x ∧
      x.toInt = Int.bmod (lenOf buf.content) (2 ^ 32) := by
  refine ⟨_, h.peekInt_eq host .int32 hlen, ?_⟩
  have htake : (buf.content.take Buffer.IntType.int32.size).length = Buffer.IntType.int32.size :=
    length_take_of_le hlen
  rw [Buffer.netValue_eq host .int32 htake, BitVec.toInt_eq_toNat_bmod, BitVec.toNat_ofNat,
    Nat.mod_eq_of_lt]
  · rfl
  · exact lenOf_lt buf.content

/-- The two readings of a length that is allowed agree, and no other is. -/
theorem allowed_iff (htag : codec.SmallTag) (n : Nat) (hn : n < 2 ^ 32) :
    (kMaxMessageLen < Int.bmod n (2 ^ 32) ∨ Int.bmod n (2 ^ 32) < codec.kMinMessageLen) ↔
      (kMaxMessageLen < n ∨ n < codec.tag.length + kChecksumLen) := by
  rw [htag.kMinMessageLen_eq]
  have hmax : kMaxMessageLen < 2 ^ 31 := by decide
  unfold SmallTag at htag
  by_cases hsmall : n < 2 ^ 31
  · rw [Int.bmod_eq_of_le (by omega) (by omega)]
    omega
  · have hneg : Int.bmod n (2 ^ 32) = n - 2 ^ 32 := by
      rw [Int.bmod_def]
      omega
    rw [hneg]
    omega

/-- The bytes `[peek() + kHeaderLen, peek() + kHeaderLen + len)` -/
theorem chars_behind_header (h : buf.WF) {len : Nat} (hlen : kHeaderLen + len ≤ buf.content.length) :
    Buffer.chars buf.buffer (buf.peek + kHeaderLen) len =
      .ok ((buf.content.take (kHeaderLen + len)).drop kHeaderLen) := by
  rw [h.chars_drop hlen, drop_take, Nat.add_sub_cancel_left]

theorem sizeOfInt_frame {len : Nat} (hlen : len ≤ kMaxMessageLen) :
    sizeOfInt (Int.bmod (kHeaderLen + len) (2 ^ 32)) = kHeaderLen + len := by
  have hmax : kHeaderLen + kMaxMessageLen < 2 ^ 31 := by decide
  rw [← Int.natCast_add]
  exact sizeOfInt_intOfSize (by omega)

/-- The tests at the head of the loop, on natural numbers. -/
theorem round_eq (htag : codec.SmallTag) (h : buf.WF) :
    codec.round buf =
      if buf.content.length < kHeaderLen + (codec.tag.length + kChecksumLen) then .ok (.done none)
      else if kMaxMessageLen < lenOf buf.content ∨
          lenOf buf.content < codec.tag.length + kChecksumLen then
        .ok (.done (some .kInvalidLength))
      else if buf.content.length < kHeaderLen + lenOf buf.content then .ok (.done none)
      else codec.onFrame buf (lenOf buf.content) := by
  have hguard : ((codec.kMinMessageLen + kHeaderLen) % 2 ^ 32).toNat =
      kHeaderLen + (codec.tag.length + kChecksumLen) := by
    rw [htag.kMinMessageLen_eq]
    unfold SmallTag at htag
    omega
  rw [round, hguard, h.readableBytes_eq_length]
  by_cases hshort : buf.content.length < kHeaderLen + (codec.tag.length + kChecksumLen)
  · rw [if_pos hshort, if_neg (by omega)]
  rw [if_neg hshort, if_pos (by omega)]
  obtain ⟨x, hpeek, hx⟩ := peekInt32_eq h codec.host (by omega)
  have hallowed := allowed_iff htag (lenOf buf.content) (lenOf_lt _)
  rw [← hx] at hallowed
  rw [hpeek]
  simp only [Except.mapError, bind, Except.bind]
  by_cases hlen : kMaxMessageLen < lenOf buf.content ∨
      lenOf buf.content < codec.tag.length + kChecksumLen
  · rw [if_pos hlen, if_pos (hallowed.mpr hlen)]
    rfl
  have hxlen : x.toInt = lenOf buf.content := by
    have hmax : kMaxMessageLen < 2 ^ 31 := by decide
    rw [hx, Int.bmod_eq_of_le (by omega) (by omega)]
  rw [if_neg hlen, if_neg (hallowed.not.mpr hlen), hxlen, sizeOfInt_frame (by omega)]
  by_cases hcomplete : buf.content.length < kHeaderLen + lenOf buf.content
  · rw [if_pos hcomplete, if_neg (by omega)]
    rfl
  · rw [if_neg hcomplete, if_pos (by omega)]

/-- **A round of the loop** does what the scanner does. -/
theorem round_spec (htag : codec.SmallTag) (h : buf.WF) :
    match codec.scan () buf.content with
    | .wait => codec.round buf = .ok (.done none)
    | .next out _ rest => ∃ message buf', codec.round buf = .ok (.more buf' message) ∧
        out = message.toList ∧ buf'.WF ∧ buf'.content = rest ∧ buf'.buffer = buf.buffer
    | .stop e _ rest => codec.round buf = .ok (.done (some e)) ∧ rest = buf.content := by
  rw [round_eq htag h, scan]
  split_ifs with hshort hlen hcomplete
  · rfl
  · exact ⟨rfl, rfl⟩
  · rfl
  have hframe : kHeaderLen + lenOf buf.content ≤ buf.content.length := by omega
  have hraw := h.chars_take hframe
  have hdata := chars_behind_header h hframe
  obtain ⟨buf', hret, hwf, hcontent, hbuffer⟩ := Buffer.retrieve_spec h hframe
  have hsize : sizeOfInt (lenOf buf.content) = lenOf buf.content :=
    sizeOfInt_natCast (Nat.lt_trans (lenOf_lt buf.content) (by decide))
  rw [onFrame, sizeOfInt_frame (by omega), hraw, hsize, hdata, hret, accept]
  simp only [Except.mapError, bind, Except.bind]
  by_cases hfiltered : codec.filtered (buf.content.take (kHeaderLen + lenOf buf.content)) = true
  · simp only [if_pos hfiltered]
    exact ⟨none, buf', rfl, rfl, hwf, hcontent, hbuffer⟩
  · simp only [if_neg hfiltered]
    cases codec.parse ((buf.content.take (kHeaderLen + lenOf buf.content)).drop kHeaderLen) with
    | ok message => exact ⟨some message, buf', rfl, rfl, hwf, hcontent, hbuffer⟩
    | error e => exact ⟨rfl, rfl⟩

/-- The calls of the callbacks for what was drained. -/
def callsOf (d : Drained Unit UInt8 Message ErrorCode) : List (Call Message) :=
  d.out.map .message ++ d.result.toList.map .error

theorem messageLoop_spec (htag : codec.SmallTag) {fuel : Nat} {s : Receiver Message}
    (h : s.inputBuffer.WF) (hfuel : s.inputBuffer.content.length < fuel) :
    ∃ s', codec.messageLoop fuel s = .ok s' ∧ s'.inputBuffer.WF ∧
      s'.inputBuffer.content = (drain codec.scan fuel () s.inputBuffer.content).rest ∧
      s'.inputBuffer.buffer = s.inputBuffer.buffer ∧
      s'.calls = s.calls ++ callsOf (drain codec.scan fuel () s.inputBuffer.content) := by
  induction fuel generalizing s with
  | zero => omega
  | succ fuel ih =>
    have hround := round_spec htag h
    rw [messageLoop, drain]
    cases hscan : codec.scan () s.inputBuffer.content with
    | wait =>
      simp only [hscan] at hround
      rw [hround]
      exact ⟨_, rfl, h, rfl, rfl, rfl⟩
    | stop e _ rest =>
      simp only [hscan] at hround
      obtain ⟨hround, rfl⟩ := hround
      rw [hround]
      exact ⟨_, rfl, h, rfl, rfl, rfl⟩
    | next out _ rest =>
      simp only [hscan] at hround
      obtain ⟨message, buf', hround, rfl, hwf, hcontent, hbuffer⟩ := hround
      obtain ⟨-, hlt, -⟩ := stable_scan.next trivial hscan
      have hrest := ih (s := ⟨buf', s.calls ++ message.toList.map .message⟩) hwf
        (by rw [hcontent]; omega)
      obtain ⟨s', hloop, hwf', hcontent', hbuffer', hcalls⟩ := hrest
      rw [hround]
      rw [hcontent] at hcontent' hcalls
      refine ⟨s', hloop, hwf', hcontent', hbuffer'.trans hbuffer, ?_⟩
      rw [hcalls, callsOf, callsOf, map_append]
      simp only [append_assoc]

/-- The failure of a buffer that would have to hold more than a vector can. -/
def TooLong (n : Nat) (f : Fault) : Prop := f = .buffer .lengthError ∧ Buffer.maxSize < n

theorem TooLong.mono {m n : Nat} {f : Fault} (hmn : m ≤ n) (h : TooLong m f) : TooLong n f :=
  ⟨h.1, Nat.lt_of_lt_of_le h.2 hmn⟩

/-- **A read** drains the bytes at hand, and the loop ends. -/
theorem receive_spec (htag : codec.SmallTag) {s : Receiver Message} (h : s.inputBuffer.WF)
    (chunk : Buffer.CharRange) :
    Outcome (fun s' => s'.inputBuffer.WF ∧
        s'.inputBuffer.buffer.length ≤ s.inputBuffer.buffer.length + chunk.data.length ∧
        ∃ d, Drains codec.scan () (s.inputBuffer.content ++ chunk.data) d ∧
          s'.inputBuffer.content = d.rest ∧ s'.calls = s.calls ++ callsOf d)
      (TooLong (s.inputBuffer.buffer.length + chunk.data.length)) (codec.receive s chunk) := by
  unfold receive
  refine Outcome.bind (Buffer.outcome_append_mapError h chunk.length_le
    fun hlong => ⟨rfl, hlong⟩) ?_
  intro buf ⟨hwf, hcontent, hlen⟩
  obtain ⟨s', hloop, hwf', hcontent', hbuffer, hcalls⟩ :=
    messageLoop_spec htag (s := { s with inputBuffer := buf }) hwf (Nat.lt_succ_self _)
  rw [onMessage, hwf.readableBytes_eq_length, hloop]
  refine .ok ⟨hwf', by rwa [hbuffer], _, ?_, hcontent', hcalls⟩
  rw [← hcontent]
  exact stable_scan.drains trivial (Nat.lt_succ_self _)

end

end Muduo.ProtobufCodecLite
