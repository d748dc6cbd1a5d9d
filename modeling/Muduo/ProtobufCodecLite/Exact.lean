import Muduo.Lib.Checked
import Muduo.ProtobufCodecLite.RoundTrip

/-!
# Muduo.ProtobufCodecLite.Exact

`onMessage` on arbitrary bytes.
-/

namespace Muduo.ProtobufCodecLite

open Lib List

variable {Message : Type} (codec : ProtobufCodecLite Message)

/-! ## the loop with its reads -/

inductive ReadFault
  /-- a read that is not inside of the readable bytes -/
  | outside
  | overflow
  | diverges
deriving DecidableEq, Repr

/-- An expression of type `int`. -/
def intValue (x : Int) : Except ReadFault Int := do
  check .overflow (Lib.Fits 32 x)
  return x

/-- The `n` bytes at `peek() + off`. -/
def readAt (readable : List UInt8) (off n : Int) : Except ReadFault (List UInt8) := do
  check .outside (0 ≤ off ∧ 0 ≤ n ∧ off + n ≤ readable.length)
  return (readable.drop off.toNat).take n.toNat

/-- `parse(buf, len)`, with `buf` counted from `peek()`. -/
def parseChecked (readable : List UInt8) (buf len : Int) :
    Except ReadFault (Except ErrorCode Message) := do
  let expectedCheckSum ← readAt readable (buf + len - kChecksumLen) kChecksumLen
  let data ← readAt readable buf (← intValue (len - kChecksumLen))
  if codec.checksum data = codec.asInt32 expectedCheckSum then
    let tag ← readAt readable buf codec.tag.length
    if tag = codec.tag then
      let dataLen ← intValue (len - kChecksumLen - codec.tag.length)
      let payload ← readAt readable (buf + codec.tag.length) dataLen
      match codec.parseFromArray payload with
      | some message => return .ok message
      | none => return .error .kParseError
    else return .error .kUnknownMessageType
  else return .error .kCheckSumError

/-- One round of the loop. -/
def roundChecked (readable : List UInt8) : Except ReadFault (Scan Unit UInt8 Message ErrorCode) := do
  let kMinMessageLen ← intValue (codec.tag.length + kChecksumLen)
  let least ← intValue (kMinMessageLen + kHeaderLen)
  if least ≤ readable.length then
    let len := (codec.asInt32 (← readAt readable 0 kHeaderLen)).toInt
    if kMaxMessageLen < len ∨ len < kMinMessageLen then return .stop .kInvalidLength () readable
    else
      let frameLen ← intValue (kHeaderLen + len)
      if frameLen ≤ readable.length then
        let raw ← readAt readable 0 frameLen
        if codec.filtered raw then return .next [] () (readable.drop frameLen.toNat)
        else match ← codec.parseChecked readable kHeaderLen len with
          | .ok message => return .next [message] () (readable.drop frameLen.toNat)
          | .error errorCode => return .stop errorCode () readable
      else return .wait
  else return .wait

def loopChecked : Nat → List UInt8 → Except ReadFault (Drained Unit UInt8 Message ErrorCode)
  | 0, _ => .error .diverges
  | fuel + 1, readable => do
    match ← codec.roundChecked readable with
    | .wait => return ⟨[], none, (), readable⟩
    | .stop errorCode _ rest => return ⟨[], some errorCode, (), rest⟩
    | .next out _ rest =>
      let d ← loopChecked fuel rest
      return { d with out := out ++ d.out }

/-- The calls of the callbacks, and the bytes that are left. -/
def onMessageChecked (readable : List UInt8) : Except ReadFault (List (Call Message) × List UInt8) := do
  let d ← codec.loopChecked (readable.length + 1) readable
  return (callsOf d, d.rest)

/-! ## no read is outside -/

section
variable {codec} {bs : List UInt8}

theorem intValue_eq {x : Int} (h₁ : -2147483648 ≤ x) (h₂ : x ≤ 2147483647) : intValue x = .ok x := by
  rw [intValue, check_of (fits_32.2 ⟨h₁, h₂⟩), ok_bind]
  rfl

theorem readAt_eq {off n : Nat} (h : off + n ≤ bs.length) :
    readAt bs off n = .ok ((bs.drop off).take n) := by
  rw [readAt, check_of (by omega), ok_bind]
  rfl

theorem readAt_zero {n : Nat} (h : n ≤ bs.length) : readAt bs 0 n = .ok (bs.take n) := by
  rw [readAt, check_of (by omega), ok_bind]
  rfl

theorem readAt_data {len off n : Nat} (hlen : kHeaderLen + len ≤ bs.length) (h : off + n ≤ len) :
    readAt bs ((kHeaderLen + off : Nat) : Int) n =
      .ok ((((bs.take (kHeaderLen + len)).drop kHeaderLen).drop off).take n) := by
  rw [readAt_eq (by omega), drop_drop, drop_take, take_take]
  congr 2
  omega

theorem asInt32_take (data : List UInt8) : codec.asInt32 (data.take kChecksumLen) = codec.asInt32 data := by
  rw [asInt32, asInt32, take_take]
  rfl

theorem parseChecked_eq {len : Nat} (hlen : kHeaderLen + len ≤ bs.length)
    (hmin : codec.tag.length + kChecksumLen ≤ len) (hmax : len ≤ kMaxMessageLen) :
    codec.parseChecked bs kHeaderLen len =
      .ok (codec.parse ((bs.take (kHeaderLen + len)).drop kHeaderLen)) := by
  have hint : kMaxMessageLen < 2147483647 := by decide
  set data := (bs.take (kHeaderLen + len)).drop kHeaderLen with hdata
  have hlength : data.length = len := by
    rw [hdata, length_drop, length_take_of_le hlen, Nat.add_sub_cancel_left]
  have hread : ∀ {k n : Nat}, k + n ≤ len →
      readAt bs ((kHeaderLen + k : Nat) : Int) n = .ok ((data.drop k).take n) :=
    fun h => readAt_data hlen h
  have hsum : readAt bs (kHeaderLen + len - kChecksumLen) kChecksumLen =
      .ok ((data.drop (len - kChecksumLen)).take kChecksumLen) := by
    rw [← hread (by omega)]
    congr 1
    omega
  have hbody : readAt bs kHeaderLen ((len - kChecksumLen : Nat) : Int) =
      .ok (data.take (len - kChecksumLen)) := hread (k := 0) (by omega)
  have htag : readAt bs kHeaderLen codec.tag.length = .ok (data.take codec.tag.length) :=
    hread (k := 0) (by omega)
  have hpayload : readAt bs (kHeaderLen + codec.tag.length)
      ((len - kChecksumLen - codec.tag.length : Nat) : Int) =
      .ok ((data.drop codec.tag.length).take (len - kChecksumLen - codec.tag.length)) :=
    hread (by omega)
  have hcast : (len : Int) - kChecksumLen = ((len - kChecksumLen : Nat) : Int) := by omega
  have hcast' : ((len - kChecksumLen : Nat) : Int) - codec.tag.length =
      ((len - kChecksumLen - codec.tag.length : Nat) : Int) := by omega
  rw [parseChecked, hsum, ok_bind, hcast, intValue_eq (by omega) (by omega), ok_bind, hbody, ok_bind,
    asInt32_take, parse, validateChecksum, hlength]
  by_cases hvalid : codec.checksum (data.take (len - kChecksumLen)) =
      codec.asInt32 (data.drop (len - kChecksumLen))
  · rw [if_pos hvalid, if_pos (decide_eq_true hvalid), htag, ok_bind]
    by_cases htageq : data.take codec.tag.length = codec.tag
    · rw [if_pos htageq, if_pos htageq, hcast', intValue_eq (by omega) (by omega), ok_bind, hpayload,
        ok_bind]
      dsimp only
      cases codec.parseFromArray ((data.drop codec.tag.length).take
        (len - kChecksumLen - codec.tag.length)) with
      | none => rfl
      | some message => rfl
    · rw [if_neg htageq, if_neg htageq]
      rfl
  · rw [if_neg hvalid, if_neg (by simpa using hvalid)]
    rfl

theorem asInt32_eq {data : List UInt8} (h : data.length = kHeaderLen) :
    codec.asInt32 data = BitVec.ofNat 32 (lenOf data) := by
  have hfour : data.take 4 = data := take_of_length_le (Nat.le_of_eq h)
  rw [lenOf, take_of_length_le (Nat.le_of_eq h)]
  exact (congrArg _ hfour).trans (Buffer.netValue_eq codec.host .int32 h)

theorem asInt32_header (h : kHeaderLen ≤ bs.length) :
    (codec.asInt32 (bs.take kHeaderLen)).toInt = Int.bmod (lenOf bs) (2 ^ 32) := by
  rw [asInt32_eq (length_take_of_le h), BitVec.toInt_eq_toNat_bmod, BitVec.toNat_ofNat,
    Nat.mod_eq_of_lt (lenOf_lt _), lenOf, take_take, Nat.min_self, lenOf]

/-- **A round** reads inside of the readable bytes, and does what the scanner does. -/
theorem roundChecked_eq (htag : codec.SmallTag) (bs : List UInt8) :
    codec.roundChecked bs = .ok (codec.scan () bs) := by
  have hallowed := allowed_iff htag (lenOf bs) (lenOf_lt bs)
  rw [htag.kMinMessageLen_eq] at hallowed
  have hmax : kHeaderLen + kMaxMessageLen < 2147483647 := by decide
  unfold SmallTag at htag
  rw [roundChecked, intValue_eq (by omega) (by omega), ok_bind, intValue_eq (by omega) (by omega),
    ok_bind, scan]
  by_cases hshort : bs.length < kHeaderLen + (codec.tag.length + kChecksumLen)
  · rw [if_neg (by omega), if_pos hshort]
    rfl
  rw [if_pos (by omega), if_neg hshort]
  rw [readAt_zero (show kHeaderLen ≤ bs.length by omega), ok_bind]
  dsimp only
  rw [asInt32_header (by omega)]
  by_cases hlen : kMaxMessageLen < lenOf bs ∨ lenOf bs < codec.tag.length + kChecksumLen
  · rw [if_pos (hallowed.2 hlen), if_pos hlen]
    rfl
  rw [if_neg (hallowed.not.2 hlen), if_neg hlen, Int.bmod_eq_of_le (by omega) (by omega),
    intValue_eq (by omega) (by omega), ok_bind]
  by_cases hcomplete : bs.length < kHeaderLen + lenOf bs
  · rw [if_neg (by omega), if_pos hcomplete]
    rfl
  have hraw : readAt bs 0 (kHeaderLen + lenOf bs) = .ok (bs.take (kHeaderLen + lenOf bs)) :=
    readAt_zero (Nat.le_of_not_lt hcomplete)
  have hdrop : ((kHeaderLen : Int) + lenOf bs).toNat = kHeaderLen + lenOf bs := by omega
  rw [if_pos (by omega), if_neg hcomplete, hraw, ok_bind, accept, hdrop]
  by_cases hfiltered : codec.filtered (bs.take (kHeaderLen + lenOf bs)) = true
  · rw [if_pos hfiltered, if_pos hfiltered]
    rfl
  · rw [if_neg hfiltered, if_neg hfiltered, parseChecked_eq (by omega) (by omega) (by omega), ok_bind]
    cases codec.parse ((bs.take (kHeaderLen + lenOf bs)).drop kHeaderLen) with
    | ok message => rfl
    | error errorCode => rfl

theorem loopChecked_eq (htag : codec.SmallTag) {fuel : Nat} (hfuel : bs.length < fuel) :
    codec.loopChecked fuel bs = .ok (drain codec.scan fuel () bs) := by
  induction fuel generalizing bs with
  | zero => omega
  | succ fuel ih =>
    rw [loopChecked, roundChecked_eq htag, ok_bind, drain]
    cases hscan : codec.scan () bs with
    | wait => rfl
    | stop e _ rest => rfl
    | next out _ rest =>
      obtain ⟨-, hlt, -⟩ := stable_scan.next trivial hscan
      dsimp only
      rw [ih (by omega), ok_bind]
      rfl

end

/-! ## frames -/

/-- The bytes begin with a complete frame of a length that is allowed. -/
structure HasFrame (bs body sum more : List UInt8) : Prop where
  bytes : bs = beBytes kHeaderLen (body.length + kChecksumLen) ++ (body ++ sum) ++ more
  sum_length : sum.length = kChecksumLen
  tag_le : codec.tag.length ≤ body.length
  le_max : body.length + kChecksumLen ≤ kMaxMessageLen

/-- The message of a frame, or the code of the first check that it fails. -/
inductive Verdict (body sum : List UInt8) : Except ErrorCode Message → Prop
  | checksum : beValue sum ≠ (codec.checksum body).toNat → Verdict body sum (.error .kCheckSumError)
  | tag : beValue sum = (codec.checksum body).toNat → ¬ codec.tag <+: body →
      Verdict body sum (.error .kUnknownMessageType)
  | payload {payload : List UInt8} : beValue sum = (codec.checksum body).toNat →
      body = codec.tag ++ payload → codec.parseFromArray payload = none →
      Verdict body sum (.error .kParseError)
  | message {payload : List UInt8} {m : Message} : beValue sum = (codec.checksum body).toNat →
      body = codec.tag ++ payload → codec.parseFromArray payload = some m → Verdict body sum (.ok m)

/-- A frame that is in order, and its message; there is none when the raw callback wants the frame
to be left out. -/
inductive InOrder (frame : List UInt8) : Option Message → Prop
  | filtered {body sum : List UInt8} : codec.HasFrame frame body sum [] → codec.filtered frame = true →
      InOrder frame none
  | message {body sum : List UInt8} {m : Message} : codec.HasFrame frame body sum [] →
      codec.filtered frame = false → codec.Verdict body sum (.ok m) → InOrder frame (some m)

/-- The bytes begin with a frame that is not in order, and the code of the first check that it
fails.  The length is looked at as soon as the shortest frame would be complete. -/
inductive IllFormed (bs : List UInt8) : ErrorCode → Prop
  | length : kHeaderLen + (codec.tag.length + kChecksumLen) ≤ bs.length →
      (kMaxMessageLen < intOfSize (beValue (bs.take kHeaderLen)) ∨
        intOfSize (beValue (bs.take kHeaderLen)) < codec.tag.length + kChecksumLen) →
      IllFormed bs .kInvalidLength
  | frame {body sum more : List UInt8} {e : ErrorCode} : codec.HasFrame bs body sum more →
      codec.filtered (beBytes kHeaderLen (body.length + kChecksumLen) ++ (body ++ sum)) = false →
      codec.Verdict body sum (.error e) → IllFormed bs e

section
variable {codec} {bs body sum more : List UInt8}

theorem eq_asInt32_iff (hsum : sum.length = kChecksumLen) (x : BitVec 32) :
    x = codec.asInt32 sum ↔ beValue sum = x.toNat := by
  have hvalue : lenOf sum = beValue sum :=
    congrArg beValue (take_of_length_le (Nat.le_of_eq hsum))
  have hlt := lenOf_lt sum
  rw [asInt32_eq hsum, hvalue]
  rw [hvalue] at hlt
  constructor
  · rintro rfl
    rw [BitVec.toNat_ofNat, Nat.mod_eq_of_lt hlt]
  · intro h
    rw [h, BitVec.ofNat_toNat, BitVec.setWidth_eq]

theorem parse_append (hsum : sum.length = kChecksumLen) (htag : codec.tag.length ≤ body.length) :
    codec.parse (body ++ sum) =
      if beValue sum = (codec.checksum body).toNat then
        if codec.tag <+: body then match codec.parseFromArray (body.drop codec.tag.length) with
          | some m => .ok m
          | none => .error .kParseError
        else .error .kUnknownMessageType
      else .error .kCheckSumError := by
  have hlen : (body ++ sum).length - kChecksumLen = body.length := by
    rw [length_append, hsum, Nat.add_sub_cancel]
  have hvalid : codec.validateChecksum (body ++ sum) = true ↔
      beValue sum = (codec.checksum body).toNat := by
    rw [validateChecksum, hlen, take_left, drop_left, decide_eq_true_iff, eq_asInt32_iff hsum]
  have hprefix : (body ++ sum).take codec.tag.length = codec.tag ↔ codec.tag <+: body := by
    rw [take_append_of_le_length htag, prefix_iff_eq_take, eq_comm]
  have hpayload : ((body ++ sum).drop codec.tag.length).take (body.length - codec.tag.length) =
      body.drop codec.tag.length := by
    rw [drop_append_of_le_length htag, ← length_drop, take_left]
  rw [parse, hlen, hpayload]
  exact if_congr hvalid (if_congr hprefix rfl rfl) rfl

/-- **`parse`** gives the verdict. -/
theorem verdict_iff (hsum : sum.length = kChecksumLen) (htag : codec.tag.length ≤ body.length)
    {v : Except ErrorCode Message} : codec.Verdict body sum v ↔ codec.parse (body ++ sum) = v := by
  rw [parse_append hsum htag]
  constructor
  · intro h
    cases h with
    | checksum hne => rw [if_neg hne]
    | tag heq hnot => rw [if_pos heq, if_neg hnot]
    | payload heq hbody hparse =>
      subst hbody
      rw [if_pos heq, if_pos (prefix_append _ _), drop_left, hparse]
    | message heq hbody hparse =>
      subst hbody
      rw [if_pos heq, if_pos (prefix_append _ _), drop_left, hparse]
  · rintro rfl
    by_cases heq : beValue sum = (codec.checksum body).toNat
    · rw [if_pos heq]
      by_cases hprefix : codec.tag <+: body
      · obtain ⟨payload, rfl⟩ := hprefix
        rw [if_pos (prefix_append _ _), drop_left]
        cases hparse : codec.parseFromArray payload with
        | none => exact .payload heq rfl hparse
        | some m => exact .message heq rfl hparse
      · rw [if_neg hprefix]
        exact .tag heq hprefix
    · rw [if_neg heq]
      exact .checksum heq

/-! ## the scanner finds the frames -/

theorem HasFrame.lenOf_eq (h : codec.HasFrame bs body sum more) :
    lenOf bs = body.length + kChecksumLen := by
  have hmax : kMaxMessageLen < 256 ^ kHeaderLen := by decide
  rw [lenOf, h.bytes, append_assoc, take_left' (length_beBytes _ _),
    beValue_beBytes (Nat.lt_of_le_of_lt h.le_max hmax)]

theorem HasFrame.length_frame (h : codec.HasFrame bs body sum more) :
    (beBytes kHeaderLen (body.length + kChecksumLen) ++ (body ++ sum)).length =
      kHeaderLen + lenOf bs := by
  rw [h.lenOf_eq, length_append, length_append, length_beBytes, h.sum_length]

theorem HasFrame.beginsFrame (h : codec.HasFrame bs body sum more) : codec.BeginsFrame bs := by
  have htag := h.tag_le
  refine ⟨by rw [h.lenOf_eq]; exact h.le_max, by rw [h.lenOf_eq]; omega, ?_⟩
  have hlen := congrArg List.length h.bytes
  rw [length_append, h.length_frame] at hlen
  omega

theorem HasFrame.scan_eq (h : codec.HasFrame bs body sum more) :
    codec.scan () bs =
      if codec.filtered (beBytes kHeaderLen (body.length + kChecksumLen) ++ (body ++ sum)) then
        .next [] () more
      else match codec.parse (body ++ sum) with
        | .ok m => .next [m] () more
        | .error e => .stop e () bs := by
  have htake : bs.take (kHeaderLen + lenOf bs) =
      beBytes kHeaderLen (body.length + kChecksumLen) ++ (body ++ sum) := by
    rw [← h.length_frame]
    exact (congrArg _ h.bytes).trans take_left
  have hdrop : bs.drop (kHeaderLen + lenOf bs) = more := by
    rw [← h.length_frame]
    exact (congrArg _ h.bytes).trans drop_left
  rw [h.beginsFrame.scan_eq, htake, hdrop, accept, drop_left' (length_beBytes _ _)]
  split_ifs with hfiltered
  · rfl
  · cases codec.parse (body ++ sum) with
    | ok m => rfl
    | error e => rfl

theorem BeginsFrame.hasFrame (h : codec.BeginsFrame bs) :
    ∃ body sum more, codec.HasFrame bs body sum more := by
  have hmax := h.le_max
  have hmin := h.min_le
  have hcomplete := h.complete
  have hlen : ((bs.drop kHeaderLen).take (lenOf bs)).length = lenOf bs := by
    rw [length_take_of_le (by rw [length_drop]; omega)]
  have hbody : (((bs.drop kHeaderLen).take (lenOf bs)).take (lenOf bs - kChecksumLen)).length =
      lenOf bs - kChecksumLen := length_take_of_le (by omega)
  have hheader : beBytes kHeaderLen (lenOf bs) = bs.take kHeaderLen := by
    have hfour : (bs.take kHeaderLen).length = kHeaderLen := length_take_of_le (by omega)
    have hbytes := beBytes_beValue (bs.take kHeaderLen)
    rwa [hfour] at hbytes
  refine ⟨((bs.drop kHeaderLen).take (lenOf bs)).take (lenOf bs - kChecksumLen),
    ((bs.drop kHeaderLen).take (lenOf bs)).drop (lenOf bs - kChecksumLen),
    (bs.drop kHeaderLen).drop (lenOf bs), ?_, ?_, ?_, ?_⟩
  · rw [hbody, Nat.sub_add_cancel (by omega), hheader, take_append_drop, append_assoc,
      take_append_drop, take_append_drop]
  · rw [length_drop, hlen]
    omega
  · rw [hbody]
    omega
  · rw [hbody]
    omega

theorem HasFrame.append (h : codec.HasFrame bs body sum []) (more : List UInt8) :
    codec.HasFrame (bs ++ more) body sum more :=
  ⟨by rw [h.bytes, append_nil], h.sum_length, h.tag_le, h.le_max⟩

theorem InOrder.scan_append {frame : List UInt8} {m : Option Message} (h : codec.InOrder frame m)
    (more : List UInt8) : codec.scan () (frame ++ more) = .next m.toList () more := by
  cases h with
  | filtered hframe hfiltered =>
    have hbytes := hframe.bytes
    rw [append_nil] at hbytes
    rw [(hframe.append more).scan_eq, ← hbytes, if_pos hfiltered]
    rfl
  | message hframe hfiltered hverdict =>
    have hbytes := hframe.bytes
    rw [append_nil] at hbytes
    rw [(hframe.append more).scan_eq, ← hbytes, hfiltered, if_neg Bool.false_ne_true,
      (verdict_iff hframe.sum_length hframe.tag_le).1 hverdict]
    rfl

theorem inOrder_of_scan_next {out : List Message} {rest : List UInt8}
    (h : codec.scan () bs = .next out () rest) :
    ∃ frame m, bs = frame ++ rest ∧ codec.InOrder frame m ∧ out = m.toList := by
  obtain ⟨body, sum, more, hframe⟩ := (scan_next h).1.hasFrame
  have hwhole : codec.HasFrame (beBytes kHeaderLen (body.length + kChecksumLen) ++ (body ++ sum))
      body sum [] := ⟨(append_nil _).symm, hframe.sum_length, hframe.tag_le, hframe.le_max⟩
  rw [hframe.scan_eq] at h
  split_ifs at h with hfiltered
  · cases h
    exact ⟨_, none, hframe.bytes, .filtered hwhole hfiltered, rfl⟩
  · cases hparse : codec.parse (body ++ sum) with
    | error e => rw [hparse] at h; cases h
    | ok m =>
      rw [hparse] at h
      cases h
      exact ⟨_, some m, hframe.bytes, .message hwhole (Bool.eq_false_iff.2 hfiltered)
        ((verdict_iff hframe.sum_length hframe.tag_le).2 hparse), rfl⟩

theorem scan_eq_stop_iff (htag : codec.SmallTag) {e : ErrorCode} :
    codec.scan () bs = .stop e () bs ↔ codec.IllFormed bs e := by
  have hallowed := allowed_iff htag (lenOf bs) (lenOf_lt bs)
  rw [htag.kMinMessageLen_eq] at hallowed
  constructor
  · intro h
    by_cases hbegins : codec.BeginsFrame bs
    · obtain ⟨body, sum, more, hframe⟩ := hbegins.hasFrame
      rw [hframe.scan_eq] at h
      split_ifs at h with hfiltered
      cases hparse : codec.parse (body ++ sum) with
      | ok m => rw [hparse] at h; cases h
      | error e' =>
        rw [hparse] at h
        cases h
        exact .frame hframe (Bool.eq_false_iff.2 hfiltered)
          ((verdict_iff hframe.sum_length hframe.tag_le).2 hparse)
    · unfold scan at h
      split_ifs at h with hshort hlen hcomplete
      · cases h
        exact .length (by omega) (hallowed.2 hlen)
      · exact absurd ⟨by omega, by omega, by omega⟩ hbegins
  · intro h
    cases h with
    | length hlong hlen => rw [scan, if_neg (by omega), if_pos (hallowed.1 hlen)]
    | frame hframe hfiltered hverdict =>
      rw [hframe.scan_eq, hfiltered, if_neg Bool.false_ne_true,
        (verdict_iff hframe.sum_length hframe.tag_le).1 hverdict]

end

/-! ## exactness -/

/-- The bytes are frames that are in order, with the messages `ms`, and then `rest`. -/
inductive Frames : List UInt8 → List Message → List UInt8 → Prop
  | nil (bs : List UInt8) : Frames bs [] bs
  | cons {frame bs rest : List UInt8} {m : Option Message} {ms : List Message} :
      codec.InOrder frame m → Frames bs ms rest → Frames (frame ++ bs) (m.toList ++ ms) rest

/-- The calls for the bytes `bs`, of which `rest` is left. -/
structure Exact (bs : List UInt8) (calls : List (Call Message)) (rest : List UInt8) : Prop where
  messages : ∃ ms, codec.Frames bs ms rest ∧
    ((calls = ms.map .message ∧ ∀ e, ¬ codec.IllFormed rest e) ∨
      ∃ e, calls = ms.map .message ++ [.error e] ∧ codec.IllFormed rest e)
  longest : ∀ frame m more, codec.InOrder frame m → rest ≠ frame ++ more

section
variable {codec} {bs : List UInt8} {d : Drained Unit UInt8 Message ErrorCode}

theorem frames_of_drains {u : Unit} (hd : Drains codec.scan u bs d) : codec.Frames bs d.out d.rest := by
  induction hd with
  | wait => exact .nil _
  | stop hscan =>
    obtain ⟨rfl, -⟩ := scan_stop hscan
    exact .nil _
  | next hscan _ ih =>
    obtain ⟨frame, m, rfl, hm, rfl⟩ := inOrder_of_scan_next hscan
    exact .cons hm ih

/-- Where the loop ends. -/
theorem scan_rest_of_drains {u : Unit} (hd : Drains codec.scan u bs d) :
    codec.scan () d.rest = match d.result with | none => .wait | some e => .stop e () d.rest := by
  induction hd with
  | wait hscan => exact hscan
  | stop hscan =>
    obtain ⟨rfl, -⟩ := scan_stop hscan
    exact hscan
  | next _ _ ih => exact ih

theorem exact_of_drains (htag : codec.SmallTag) (hd : Drains codec.scan () bs d) :
    codec.Exact bs (callsOf d) d.rest := by
  have hrest := scan_rest_of_drains hd
  refine ⟨⟨d.out, frames_of_drains hd, ?_⟩, fun frame m more hm heq => ?_⟩
  · cases hresult : d.result with
    | none =>
      rw [hresult] at hrest
      refine .inl ⟨by simp [callsOf, hresult], fun e he => ?_⟩
      have := (scan_eq_stop_iff htag).2 he
      rw [hrest] at this
      cases this
    | some e =>
      rw [hresult] at hrest
      exact .inr ⟨e, by simp [callsOf, hresult], (scan_eq_stop_iff htag).1 hrest⟩
  · rw [heq, hm.scan_append] at hrest
    cases hresult : d.result with
    | none | some => rw [hresult] at hrest; cases hrest

end

/-- **`onMessage` on arbitrary bytes** reads only readable bytes and returns: it delivers the
messages of the longest run of frames that are in order, leaves the rest, and reports the frame
behind them if it is not in order. -/
theorem onMessage_exact (htag : codec.SmallTag) (s : Receiver Message) (h : s.inputBuffer.WF) :
    ∃ s' calls, codec.onMessage s = .ok s' ∧ s'.inputBuffer.WF ∧ s'.calls = s.calls ++ calls ∧
      codec.onMessageChecked s.inputBuffer.content = .ok (calls, s'.inputBuffer.content) ∧
      codec.Exact s.inputBuffer.content calls s'.inputBuffer.content := by
  have hfuel := Nat.lt_succ_self s.inputBuffer.content.length
  obtain ⟨s', hloop, hwf, hcontent, -, hcalls⟩ := messageLoop_spec htag h hfuel
  refine ⟨s', _, ?_, hwf, hcalls, ?_, ?_⟩
  · rw [onMessage, h.readableBytes_eq_length, hloop]
  · rw [onMessageChecked, loopChecked_eq htag hfuel, ok_bind, hcontent]
    rfl
  · rw [hcontent]
    exact exact_of_drains htag (stable_scan.drains trivial hfuel)

/-- A frame, and a second one with a wrong checksum. -/
def testBroken : List UInt8 := testWire ++ testWire.dropLast ++ [0x33]

def testReceiver : Receiver (List UInt8) :=
  ⟨⟨List.replicate 8 0 ++ testBroken, 8, 54⟩, []⟩

theorem onMessage_exact_testReceiver : ∃ s', rpcBytes.onMessage testReceiver = .ok s' ∧
    s'.calls = [.message testMessage, .error .kCheckSumError] ∧
    rpcBytes.Exact testBroken s'.calls s'.inputBuffer.content := by
  have htag : rpcBytes.SmallTag := by
    unfold SmallTag
    decide
  have htest : (rpcBytes.onMessage testReceiver).map (·.calls) =
      .ok [.message testMessage, .error .kCheckSumError] := by decide +kernel
  obtain ⟨s', calls, hs', -, rfl, -, hexact⟩ := onMessage_exact rpcBytes htag testReceiver
    ⟨by decide, by decide, by decide, by decide⟩
  rw [hs'] at htest
  exact ⟨s', hs', Except.ok.inj htest, hexact⟩

/-- A frame of length 0 is complete with its header, and its length is not allowed; but fewer bytes
than the shortest frame has are not looked at. -/
theorem short_frame_waits :
    kHeaderLen + lenOf [0, 0, 0, 0] ≤ 4 ∧ lenOf [0, 0, 0, 0] < rpcBytes.tag.length + kChecksumLen ∧
      rpcBytes.onMessage ⟨⟨List.replicate 8 0 ++ [0, 0, 0, 0], 8, 12⟩, []⟩ =
        .ok ⟨⟨List.replicate 8 0 ++ [0, 0, 0, 0], 8, 12⟩, []⟩ := by
  decide +kernel

end Muduo.ProtobufCodecLite
