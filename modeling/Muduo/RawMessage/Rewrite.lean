import Muduo.ProtobufCodecLite.RoundTrip
import Muduo.RawMessage

/-!
# Muduo.RawMessage.Rewrite

When the id in a frame can be replaced.

`parse` asks for `tag.size() + 3 + 8` bytes, and forgets the checksum behind the id.
-/

namespace Muduo.RawMessage

open Lib List

open ProtobufCodecLite

/-- After `set_id(x)` and `updateId()` an accepted frame is one with the id `x`, and the other
bytes are as they were. -/
structure Rewritten {Message : Type} (codec : ProtobufCodecLite Message) (frame : List UInt8)
    (x : Nat) (message : List UInt8) : Prop where
  length : message.length = frame.length
  checksum : codec.validateChecksum (message.drop kHeaderLen) = true
  id : ∃ raw, parse codec (create message) = (true, raw) ∧ raw.id = x
  other : ∀ i, (i < kHeaderLen + codec.tag.length + 3 ∨ kHeaderLen + codec.tag.length + 3 + 8 ≤ i) →
    i + kChecksumLen < frame.length → message[i]? = frame[i]?

variable {Message : Type} {codec : ProtobufCodecLite Message}

/-! ## layout -/

/-- The bytes that the checksum is taken of. -/
def content (codec : ProtobufCodecLite Message) (ty : UInt8) (id rest : List UInt8) : List UInt8 :=
  codec.tag ++ ([0x08, ty, 0x11] ++ (id ++ rest))

def layout (codec : ProtobufCodecLite Message) (header : List UInt8) (ty : UInt8)
    (id rest sum : List UInt8) : List UInt8 :=
  header ++ (content codec ty id rest ++ sum)

section
variable {header id rest sum : List UInt8} {ty : UInt8} {x : Nat}

theorem validateChecksum_append_eq (data : List UInt8) (hsum : sum.length = kChecksumLen) :
    codec.validateChecksum (data ++ sum) = decide (codec.checksum data = codec.asInt32 sum) := by
  have hlen : (data ++ sum).length - kChecksumLen = data.length := by
    rw [length_append]
    omega
  rw [validateChecksum, hlen, take_left, drop_left]

theorem layout_eq (id sum : List UInt8) : layout codec header ty id rest sum =
    (header ++ (codec.tag ++ [0x08, ty, 0x11])) ++ (id ++ (rest ++ sum)) := by
  simp [layout, content]

theorem length_front (hheader : header.length = kHeaderLen) :
    (header ++ (codec.tag ++ [0x08, ty, 0x11])).length = kHeaderLen + codec.tag.length + 3 := by
  simp only [length_append, length_cons, length_nil, hheader]
  omega

theorem length_content (hid : id.length = 8) :
    (content codec ty id rest).length = codec.tag.length + 3 + 8 + rest.length := by
  simp only [content, length_append, length_cons, length_nil, hid]
  omega

theorem parse_layout (hheader : header.length = kHeaderLen) (hty : ty = 0x01 ∨ ty = 0x02)
    (hid : id.length = 8) (hsum : sum.length = kChecksumLen)
    (hvalid : codec.checksum (content codec ty id rest) = codec.asInt32 sum) :
    parse codec (create (layout codec header ty id rest sum)) =
      (true, ⟨layout codec header ty id rest sum, leValue id,
        some (kHeaderLen + codec.tag.length + 3)⟩) := by
  have hbody : (layout codec header ty id rest sum).drop kHeaderLen =
      content codec ty id rest ++ sum := drop_left' hheader
  have hcheck : codec.validateChecksum (content codec ty id rest ++ sum) = true := by
    rw [validateChecksum_append_eq _ hsum, hvalid, decide_eq_true rfl]
  have hlen : codec.tag.length + 3 + 8 ≤ (content codec ty id rest ++ sum).length := by
    rw [length_append, length_content hid]
    omega
  have htag : (content codec ty id rest ++ sum).take codec.tag.length = codec.tag := by
    rw [content, append_assoc, take_left]
  have hp : (content codec ty id rest ++ sum).drop codec.tag.length =
      0x08 :: ty :: 0x11 :: (id ++ (rest ++ sum)) := by
    rw [content, append_assoc, drop_left]
    simp
  rw [parse]
  simp only [create, hbody, hcheck, htag, hlen, hp, and_self, if_true]
  have htake : (id ++ (rest ++ sum)).take 8 = id := take_left' hid
  simp [hty, htake]

/-- The checksum of a frame with the given bytes. -/
def sumOf (codec : ProtobufCodecLite Message) (data : List UInt8) : List UInt8 :=
  beBytes kChecksumLen (codec.checksum data).toNat

theorem checksum_sumOf (data : List UInt8) :
    codec.checksum data = codec.asInt32 (sumOf codec data) := (asInt32_beBytes _).symm

theorem overwrite_sum (m : List UInt8) (h : kHeaderLen + kChecksumLen ≤ m.length) :
    overwrite m (kHeaderLen + ((m.drop kHeaderLen).length - kChecksumLen))
        (Buffer.netBytes codec.host .int32
          (codec.checksum ((m.drop kHeaderLen).take ((m.drop kHeaderLen).length - kChecksumLen)))) =
      m.take (m.length - kChecksumLen) ++
        sumOf codec ((m.take (m.length - kChecksumLen)).drop kHeaderLen) := by
  have hpos : kHeaderLen + ((m.drop kHeaderLen).length - kChecksumLen) = m.length - kChecksumLen := by
    rw [length_drop]
    omega
  have hdata : (m.drop kHeaderLen).take ((m.drop kHeaderLen).length - kChecksumLen) =
      (m.take (m.length - kChecksumLen)).drop kHeaderLen := by
    rw [drop_take, length_drop, Nat.sub_right_comm]
  have hbytes : ∀ data, Buffer.netBytes codec.host .int32 (codec.checksum data) = sumOf codec data :=
    fun _ => Buffer.netBytes_eq _ _ _
  generalize (m.take (m.length - kChecksumLen)).drop kHeaderLen = data at *
  have hend : m.drop (m.length - kChecksumLen + (sumOf codec data).length) = [] := by
    refine drop_of_length_le ?_
    rw [sumOf, length_beBytes]
    omega
  rw [hpos, hdata, hbytes, overwrite, hend, append_nil]

theorem updateId_layout (hheader : header.length = kHeaderLen) (hid : id.length = 8)
    (hsum : sum.length = kChecksumLen) (x : Nat) :
    updateId codec ⟨layout codec header ty id rest sum, x,
        some (kHeaderLen + codec.tag.length + 3)⟩ =
      .ok ⟨layout codec header ty (leBytes 8 x) rest
        (sumOf codec (content codec ty (leBytes 8 x) rest)), x,
        some (kHeaderLen + codec.tag.length + 3)⟩ := by
  have hwrite : overwrite (layout codec header ty id rest sum)
      (kHeaderLen + codec.tag.length + 3) (leBytes 8 x) =
      layout codec header ty (leBytes 8 x) rest sum := by
    rw [layout_eq, layout_eq]
    exact overwrite_append (length_front hheader) (by rw [length_leBytes, hid])
  have hlen : (layout codec header ty (leBytes 8 x) rest sum).length - kChecksumLen =
      (header ++ content codec ty (leBytes 8 x) rest).length := by
    simp only [layout, length_append, hsum]
    omega
  have htake : (layout codec header ty (leBytes 8 x) rest sum).take
      ((layout codec header ty (leBytes 8 x) rest sum).length - kChecksumLen) =
      header ++ content codec ty (leBytes 8 x) rest := by
    rw [hlen, layout, ← append_assoc, take_left]
  rw [updateId]
  dsimp only
  rw [hwrite, overwrite_sum _ (by simp [layout, hheader, hsum]), htake, drop_left' hheader,
    append_assoc]
  rfl

variable {frame : List UInt8} {raw : RawMessage}

theorem parse_eq_true (h : parse codec (create frame) = (true, raw)) :
    ∃ header ty q, frame = header ++ (codec.tag ++ ([0x08, ty, 0x11] ++ q)) ∧
      header.length = kHeaderLen ∧ (ty = 0x01 ∨ ty = 0x02) ∧ 8 ≤ q.length ∧
      codec.validateChecksum (codec.tag ++ ([0x08, ty, 0x11] ++ q)) = true ∧
      raw = ⟨frame, leValue (q.take 8), some (kHeaderLen + codec.tag.length + 3)⟩ := by
  unfold parse at h
  extract_lets body taglen p at h
  split at h
  case isFalse => cases h
  next hbody =>
    split at h
    case isFalse => cases h
    next hp =>
      obtain ⟨hvalid, htag, hlen⟩ := hbody
      have hframe : frame.take kHeaderLen ++ body = frame := take_append_drop ..
      have hheader : (frame.take kHeaderLen).length = kHeaderLen := by
        rw [length_drop] at hlen
        rw [length_take]
        change _ ≤ frame.length - _ at hlen
        omega
      have hsplit : codec.tag ++ p = body := by
        conv_lhs => rw [← htag]
        exact take_append_drop ..
      have hplen : p.length = body.length - taglen := length_drop
      have hraw := (Prod.ext_iff.mp h).2
      clear_value p
      match p, hp with
      | a :: ty :: c :: q, ⟨ha, hty, hc⟩ =>
        simp only [List.getElem?_cons_zero, List.getElem?_cons_succ, Option.some_inj] at ha hty hc
        subst ha hc
        rw [length_cons, length_cons, length_cons] at hplen
        refine ⟨frame.take kHeaderLen, ty, q, ?_, hheader, hty, by omega, ?_, hraw.symm⟩
        · conv_lhs => rw [← hframe, ← hsplit]
          rfl
        · rw [← hsplit] at hvalid
          exact hvalid

theorem exists_layout (h : parse codec (create frame) = (true, raw))
    (hlong : codec.tag.length + 3 + 8 + kChecksumLen ≤ frame.length - kHeaderLen) :
    ∃ header ty id rest sum, frame = layout codec header ty id rest sum ∧
      header.length = kHeaderLen ∧ (ty = 0x01 ∨ ty = 0x02) ∧ id.length = 8 ∧
      sum.length = kChecksumLen ∧
      codec.checksum (content codec ty id rest) = codec.asInt32 sum ∧
      raw = ⟨frame, leValue id, some (kHeaderLen + codec.tag.length + 3)⟩ := by
  obtain ⟨header, ty, q, hframe, hheader, hty, hq, hvalid, rfl⟩ := parse_eq_true h
  have hqlen : 8 + kChecksumLen ≤ q.length := by
    rw [hframe] at hlong
    simp only [length_append, length_cons, length_nil, hheader] at hlong
    omega
  have hsplit : q = q.take 8 ++ ((q.drop 8).take (q.length - 8 - kChecksumLen) ++
      q.drop (q.length - kChecksumLen)) := by
    have hdrop : q.drop (q.length - kChecksumLen) =
        (q.drop 8).drop (q.length - 8 - kChecksumLen) := by
      rw [drop_drop]
      congr 1
      omega
    rw [hdrop, take_append_drop, take_append_drop]
  have hsum : (q.drop (q.length - kChecksumLen)).length = kChecksumLen := by
    rw [length_drop]
    omega
  refine ⟨header, ty, q.take 8, (q.drop 8).take (q.length - 8 - kChecksumLen),
    q.drop (q.length - kChecksumLen), ?_, hheader, hty, length_take_of_le hq, hsum, ?_, rfl⟩
  · rw [hframe, layout, content]
    conv_lhs => rw [hsplit]
    simp only [append_assoc]
  · rw [hsplit] at hvalid
    simp only [← append_assoc] at hvalid
    rw [validateChecksum_append_eq _ hsum, decide_eq_true_eq] at hvalid
    rw [content]
    simpa only [append_assoc] using hvalid

/-! ## rewriting -/

theorem rewritten_layout (hheader : header.length = kHeaderLen) (hty : ty = 0x01 ∨ ty = 0x02)
    (hid : id.length = 8) (hsum : sum.length = kChecksumLen) (hx : x < 2 ^ 64) :
    Rewritten codec (layout codec header ty id rest sum) x
      (layout codec header ty (leBytes 8 x) rest
        (sumOf codec (content codec ty (leBytes 8 x) rest))) where
  length := by simp [layout, content, sumOf, hid, hsum]
  checksum := by
    rw [layout, drop_left' hheader]
    exact validateChecksum_append _
  id := by
    refine ⟨_, parse_layout hheader hty (length_leBytes 8 x) (length_beBytes _ _)
      (checksum_sumOf _), ?_⟩
    rw [leValue_leBytes]
    exact Nat.mod_eq_of_lt hx
  other i hi hend := by
    have hfront : (header ++ (codec.tag ++ [0x08, ty, 0x11])).length = _ := length_front hheader
    rw [layout_eq, length_append, hfront, length_append, length_append, hid,
      hsum] at hend
    rw [layout_eq, layout_eq]
    refine getElem?_replaced ?_ ?_ ?_ <;> rw [length_leBytes]
    · exact hid.symm
    · rwa [hfront]
    · omega

/-- In a short frame the last byte of the id is one of the checksum. -/
theorem updateId_short {i : Nat} (hlen : kHeaderLen + codec.tag.length + 3 + 8 ≤ frame.length)
    (hshort : frame.length < kHeaderLen + (codec.tag.length + 3 + 8 + kChecksumLen))
    {raw raw' : RawMessage} (hraw : updateId codec ⟨frame, 0, some i⟩ = .ok raw)
    (hraw' : updateId codec ⟨frame, 2 ^ 56, some i⟩ = .ok raw')
    (hi : i = kHeaderLen + codec.tag.length + 3) : raw.message = raw'.message := by
  have hbytes : (leBytes 8 0).take 7 = (leBytes 8 (2 ^ 56)).take 7 := by decide
  have hfits : ∀ x, i + (leBytes 8 x).length ≤ frame.length := fun x => by
    rw [length_leBytes]
    omega
  have htake : ∀ x, (overwrite frame i (leBytes 8 x)).take (frame.length - kChecksumLen) =
      frame.take i ++ ((leBytes 8 x).take 7).take (frame.length - kChecksumLen - i) := by
    intro x
    have hfront : (frame.take i).length = i := length_take_of_le (by omega)
    have hlast : i + 3 < frame.length ∧ frame.length - kChecksumLen - i ≤ 7 := by
      unfold kChecksumLen at *
      omega
    rw [overwrite, append_assoc, take_append, hfront, take_take,
      take_append_of_le_length (by rw [length_leBytes]; omega), take_take,
      Nat.min_eq_left hlast.2, Nat.min_eq_right]
    unfold kChecksumLen at *
    omega
  have hupdate : ∀ x, ∃ raw, updateId codec ⟨frame, x, some i⟩ = .ok raw ∧
      raw.message = (overwrite frame i (leBytes 8 x)).take (frame.length - kChecksumLen) ++
        sumOf codec (((overwrite frame i (leBytes 8 x)).take (frame.length - kChecksumLen)).drop
          kHeaderLen) := by
    intro x
    refine ⟨_, rfl, ?_⟩
    dsimp only
    rw [overwrite_sum _ (by rw [length_overwrite (hfits x)]; unfold kHeaderLen kChecksumLen at *; omega),
      length_overwrite (hfits x)]
  obtain ⟨raw₁, hupdate₁, hmessage₁⟩ := hupdate 0
  obtain ⟨raw₂, hupdate₂, hmessage₂⟩ := hupdate (2 ^ 56)
  obtain rfl := Except.ok.inj (hupdate₁.symm.trans hraw)
  obtain rfl := Except.ok.inj (hupdate₂.symm.trans hraw')
  rw [hmessage₁, hmessage₂, htake, htake, hbytes]

/-- Every id can be put into the frame. -/
def Rewritable (codec : ProtobufCodecLite Message) (frame : List UInt8) (raw : RawMessage) : Prop :=
  ∀ x : UInt64, ∃ raw', (raw.setId x.toNat).updateId codec = .ok raw' ∧
    Rewritten codec frame x.toNat raw'.message

theorem rewritable_iff (h : parse codec (create frame) = (true, raw)) : Rewritable codec frame raw ↔
      codec.tag.length + 3 + 8 + kChecksumLen ≤ frame.length - kHeaderLen := by
  constructor
  · intro hall
    by_contra hshort
    obtain ⟨header, ty, q, hframe, hheader, -, hq, -, rfl⟩ := parse_eq_true h
    have hlen : kHeaderLen + codec.tag.length + 3 + 8 ≤ frame.length := by
      rw [hframe]
      simp only [length_append, length_cons, length_nil, hheader]
      omega
    -- the two ids differ in their last byte only
    obtain ⟨raw₁, hupdate₁, -, -, ⟨found₁, hparse₁, hid₁⟩, -⟩ := hall 0
    obtain ⟨raw₂, hupdate₂, -, -, ⟨found₂, hparse₂, hid₂⟩, -⟩ := hall (UInt64.ofNat (2 ^ 56))
    have heq := updateId_short hlen (by omega) hupdate₁ hupdate₂ rfl
    rw [heq] at hparse₁
    obtain rfl := (Prod.mk.inj (hparse₁.symm.trans hparse₂)).2
    rw [hid₁] at hid₂
    revert hid₂
    decide
  · intro hlong x
    obtain ⟨header, ty, id, rest, sum, rfl, hheader, hty, hid, hsum, -, rfl⟩ := exists_layout h hlong
    exact ⟨_, updateId_layout hheader hid hsum x.toNat,
      rewritten_layout hheader hty hid hsum x.toNat_lt⟩

end

/-! ## the frames of messages -/

section
variable {host : ByteOrder} {parseFromArray : List UInt8 → Option RpcMessage}
  {adler32 : List UInt8 → BitVec 32} {rawCb : Option (List UInt8 → Bool)}

theorem length_body_rpcCodec (m : RpcMessage) :
    ((rpcCodec host parseFromArray adler32 rawCb).body m).length =
      4 + (3 + 8 + m.optionalFields.length) := by
  have htag : (ascii "RPC0").length = 4 := by decide
  simp only [body, rpcCodec, RpcMessage.serialize, length_append, length_leBytes, htag]
  rfl

theorem frame_rpcCodec (m : RpcMessage) :
    (rpcCodec host parseFromArray adler32 rawCb).frame m =
      layout (rpcCodec host parseFromArray adler32 rawCb)
        (beBytes kHeaderLen (4 + (3 + 8 + m.optionalFields.length) + kChecksumLen)) m.type.number
        (leBytes 8 m.id) m.optionalFields
        (sumOf (rpcCodec host parseFromArray adler32 rawCb)
          (content (rpcCodec host parseFromArray adler32 rawCb) m.type.number (leBytes 8 m.id)
            m.optionalFields)) := by
  have hbody : (rpcCodec host parseFromArray adler32 rawCb).body m =
      content (rpcCodec host parseFromArray adler32 rawCb) m.type.number (leBytes 8 m.id)
        m.optionalFields := by
    simp [body, content, rpcCodec, RpcMessage.serialize]
  rw [frame, length_body_rpcCodec, hbody, layout, sumOf]

theorem fits_rpcCodec_iff (m : RpcMessage) (x : Nat) :
    (rpcCodec host parseFromArray adler32 rawCb).Fits { m with id := x } ↔
      (rpcCodec host parseFromArray adler32 rawCb).Fits m := by
  simp [ProtobufCodecLite.Fits, rpcCodec, RpcMessage.serialize, RpcMessage.optionalFields]

/-- The frame of a request or a response is accepted, and becomes that of the same message with
another id. -/
theorem rewrite_encode (m : RpcMessage) (htype : m.type ≠ .ERROR)
    (hfits : (rpcCodec host parseFromArray adler32 rawCb).Fits m) (x₀ x : UInt64) :
    ∃ frame raw raw', (rpcCodec host parseFromArray adler32 rawCb).encode
        { m with id := x₀.toNat } = .ok frame ∧
      parse (rpcCodec host parseFromArray adler32 rawCb) (create frame) = (true, raw) ∧
      raw.id = x₀.toNat ∧
      (raw.setId x.toNat).updateId (rpcCodec host parseFromArray adler32 rawCb) = .ok raw' ∧
      (rpcCodec host parseFromArray adler32 rawCb).encode { m with id := x.toNat } =
        .ok raw'.message := by
  have htype' : m.type.number = 0x01 ∨ m.type.number = 0x02 := by
    cases h : m.type with
    | REQUEST => exact .inl rfl
    | RESPONSE => exact .inr rfl
    | ERROR => exact absurd h htype
  have hencode : ∀ x, (rpcCodec host parseFromArray adler32 rawCb).encode { m with id := x } =
      .ok (layout _ _ _ _ _ _) := fun x =>
    (encode_eq (fun _ => rfl) ((fits_rpcCodec_iff m x).mpr hfits)).trans
      (congrArg _ (frame_rpcCodec _))
  refine ⟨_, _, _, hencode _, parse_layout (length_beBytes _ _) htype' (length_leBytes _ _)
    (length_beBytes _ _) (checksum_sumOf _), ?_,
    updateId_layout (length_beBytes _ _) (length_leBytes _ _) (length_beBytes _ _) _, hencode _⟩
  rw [leValue_leBytes]
  exact Nat.mod_eq_of_lt x₀.toNat_lt

end

/-- **The raw path and the length of a frame.**  An accepted frame can be rewritten to every id
exactly if its body holds the tag, the three bytes in front of the id, the id and the checksum.
The frame that `fillEmptyBuffer` makes of a request or a response is accepted with the id of
the message, and rewritten to the frame of the same message with the other id. -/
theorem raw_agrees (codec : ProtobufCodecLite Message) (host : ByteOrder)
    (parseFromArray : List UInt8 → Option RpcMessage) (adler32 : List UInt8 → BitVec 32)
    (rawCb : Option (List UInt8 → Bool)) :
    (∀ frame raw, parse codec (create frame) = (true, raw) → (Rewritable codec frame raw ↔
      codec.tag.length + 3 + 8 + kChecksumLen ≤ frame.length - kHeaderLen)) ∧
    ∀ m : RpcMessage, m.type ≠ .ERROR →
      (rpcCodec host parseFromArray adler32 rawCb).Fits m → ∀ x₀ x : UInt64,
        ∃ frame raw raw', (rpcCodec host parseFromArray adler32 rawCb).encode
            { m with id := x₀.toNat } = .ok frame ∧
          parse (rpcCodec host parseFromArray adler32 rawCb) (create frame) = (true, raw) ∧
          raw.id = x₀.toNat ∧
          (raw.setId x.toNat).updateId (rpcCodec host parseFromArray adler32 rawCb) = .ok raw' ∧
          (rpcCodec host parseFromArray adler32 rawCb).encode { m with id := x.toNat } =
            .ok raw'.message :=
  ⟨fun _ _ => rewritable_iff, rewrite_encode⟩

/-- The frame of `RpcCodec_test.cc` can be rewritten. -/
theorem raw_agrees_testWire :
    Rewritable rpcBytes testWire (parse rpcBytes (create testWire)).2 :=
  ((raw_agrees rpcBytes .little (fun _ => none) zlibAdler32 none).1 testWire _
    (Prod.ext (by decide +kernel) rfl)).mpr (by decide)

/-- A frame with four bytes in the place of the id. -/
def shortFrame : List UInt8 :=
  [0, 0, 0, 15, 82, 80, 67, 48, 0x08, 0x01, 0x11, 0, 0, 0, 0, 0x0b, 0x1f, 0x01, 0x30]

/-- **The id runs into the checksum.**  The frame is accepted.  When its id is set to 1, the
checksum is written over the end of the id, and another id is read back. -/
theorem short_id_lost :
    rpcBytes.BeginsFrame shortFrame ∧ (parse rpcBytes (create shortFrame)).1 = true ∧
      (((parse rpcBytes (create shortFrame)).2.setId 1).updateId rpcBytes).map
        (fun raw => ((parse rpcBytes (create raw.message)).1,
          (parse rpcBytes (create raw.message)).2.id)) = .ok (true, 3531142112986791937) :=
  ⟨⟨by decide +kernel, by decide +kernel, by decide +kernel⟩, by decide +kernel, by decide +kernel⟩

end Muduo.RawMessage
