import Muduo.ProtobufCodecLite.Scan

/-!
# Muduo.ProtobufCodecLite.RoundTrip

Decoding undoes encoding, however the stream is cut.
-/

namespace Muduo.ProtobufCodecLite

open Lib List

variable {Message : Type} (codec : ProtobufCodecLite Message)

/-- What is assumed of protocol buffers: serialization writes `ByteSize()` bytes, and
parsing inverts it. -/
structure Lawful : Prop where
  length_serialize : ∀ m, (codec.serialize m).length = codec.byteSize m
  parse_serialize : ∀ m, codec.parseFromArray (codec.serialize m) = some m

/-- The raw callback, if there is one, returns true. -/
def PassesAll : Prop := ∀ raw, codec.filtered raw = false

/-- The message fits into a frame. -/
def Fits (m : Message) : Prop :=
  codec.tag.length + codec.byteSize m + kChecksumLen ≤ kMaxMessageLen

/-- What the checksum is taken of. -/
def body (m : Message) : List UInt8 := codec.tag ++ codec.serialize m

/-- The wire format. -/
def frame (m : Message) : List UInt8 :=
  beBytes kHeaderLen ((codec.body m).length + kChecksumLen) ++
    (codec.body m ++ beBytes kChecksumLen (codec.checksum (codec.body m)).toNat)

section
variable {codec} {m : Message}

theorem Fits.hasRoom (h : codec.Fits m) : codec.HasRoom := by
  unfold Fits at h
  unfold HasRoom
  omega

theorem length_body (hlen : ∀ m, (codec.serialize m).length = codec.byteSize m) (m : Message) :
    (codec.body m).length = codec.tag.length + codec.byteSize m := by
  rw [body, length_append, hlen]

theorem Lawful.length_body (hlaw : codec.Lawful) (m : Message) :
    (codec.body m).length = codec.tag.length + codec.byteSize m :=
  ProtobufCodecLite.length_body hlaw.length_serialize m

theorem length_frame (codec : ProtobufCodecLite Message) (m : Message) :
    (codec.frame m).length = kHeaderLen + ((codec.body m).length + kChecksumLen) := by
  simp [frame]

/-! ## reading a frame -/

theorem lenOf_frame (hlaw : codec.Lawful) (hfits : codec.Fits m) (rest : List UInt8) :
    lenOf (codec.frame m ++ rest) = (codec.body m).length + kChecksumLen := by
  have hlt : (codec.body m).length + kChecksumLen < 256 ^ kHeaderLen := by
    have hmax : kMaxMessageLen < 256 ^ kHeaderLen := by decide
    rw [hlaw.length_body]
    exact Nat.lt_of_le_of_lt hfits hmax
  rw [lenOf, frame, append_assoc,
    take_left' (length_beBytes _ _), beValue_beBytes hlt]

theorem asInt32_beBytes (x : BitVec 32) : codec.asInt32 (beBytes kChecksumLen x.toNat) = x := by
  have htake : (beBytes kChecksumLen x.toNat).take 4 = beBytes kChecksumLen x.toNat :=
    take_of_length_le (Nat.le_of_eq (length_beBytes _ _))
  have hbytes := Buffer.netBytes_eq codec.host .int32 x
  rw [asInt32, htake]
  exact (congrArg _ hbytes.symm).trans (Buffer.netValue_netBytes codec.host .int32 x)

theorem validateChecksum_append (data : List UInt8) :
    codec.validateChecksum (data ++ beBytes kChecksumLen (codec.checksum data).toNat) = true := by
  have hlen : (data ++ beBytes kChecksumLen (codec.checksum data).toNat).length - kChecksumLen =
      data.length := by simp
  rw [validateChecksum, hlen, take_left, drop_left, asInt32_beBytes]
  exact decide_eq_true rfl

theorem parse_body (hlaw : codec.Lawful) (m : Message) :
    codec.parse (codec.body m ++ beBytes kChecksumLen (codec.checksum (codec.body m)).toNat) =
      .ok m := by
  have hlen : (codec.body m ++
      beBytes kChecksumLen (codec.checksum (codec.body m)).toNat).length - kChecksumLen -
        codec.tag.length = (codec.serialize m).length := by
    simp only [body, length_append, length_beBytes]
    omega
  rw [parse, if_pos (validateChecksum_append _), hlen]
  generalize beBytes kChecksumLen (codec.checksum (codec.body m)).toNat = tail
  rw [body, append_assoc, take_left, if_pos rfl, drop_left, take_left]
  simp only [hlaw.parse_serialize]

/-- **A frame is read back**, and nothing behind it is touched. -/
theorem scan_frame (hlaw : codec.Lawful) (hpasses : codec.PassesAll) (hfits : codec.Fits m)
    (rest : List UInt8) : codec.scan () (codec.frame m ++ rest) = .next [m] () rest := by
  have hlenOf := lenOf_frame hlaw hfits rest
  have hlength : (codec.frame m).length = kHeaderLen + lenOf (codec.frame m ++ rest) := by
    rw [length_frame, hlenOf]
  have hbegins : codec.BeginsFrame (codec.frame m ++ rest) := by
    unfold Fits at hfits
    refine ⟨?_, ?_, ?_⟩
    · rw [hlenOf, hlaw.length_body]
      exact hfits
    · rw [hlenOf, hlaw.length_body]
      omega
    · rw [length_append]
      omega
  have haccept : codec.accept (codec.frame m) = .ok (some m) := by
    rw [accept, hpasses, if_neg Bool.false_ne_true, frame, drop_left' (length_beBytes _ _),
      parse_body hlaw]
    rfl
  rw [hbegins.scan_eq, ← hlength, take_left, drop_left, haccept]
  rfl

variable {ms : List Message} {s : Receiver Message}

theorem drains_frames (hlaw : codec.Lawful) (hpasses : codec.PassesAll)
    (hfits : ∀ m ∈ ms, codec.Fits m) :
    Drains codec.scan () (ms.flatMap codec.frame) ⟨ms, none, (), []⟩ := by
  induction ms with
  | nil => exact .wait (if_pos (by simp [kHeaderLen]))
  | cons m ms ih =>
    rw [flatMap_cons]
    exact .next (scan_frame hlaw hpasses (hfits m mem_cons_self) _)
      (ih fun m' hm' => hfits m' (mem_cons_of_mem m hm'))

/-! ## writing a frame -/

variable {buf : Buffer}

theorem serializeToBuffer_spec (hlen : (codec.serialize m).length = codec.byteSize m)
    (hfits : codec.Fits m) (h : buf.WF) (hprep : Buffer.kCheapPrepend ≤ buf.readerIndex) :
    Outcome (fun r : Buffer × Int => r.1.WF ∧ r.1.content = buf.content ++ codec.serialize m ∧
        r.1.buffer.length ≤ buf.buffer.length + (codec.byteSize m + kChecksumLen) ∧
        Buffer.kCheapPrepend ≤ r.1.readerIndex ∧ r.2 = intOfSize (codec.byteSize m))
      (TooLong (buf.buffer.length + (codec.byteSize m + kChecksumLen)))
      (codec.serializeToBuffer m buf) := by
  have hmax : kMaxMessageLen < 2 ^ 31 := by decide
  unfold Fits at hfits
  have hsize := intOfSize_of_lt (n := codec.byteSize m) (by omega)
  have hw := h.writer_le
  have hs := h.size_le
  unfold Buffer.maxSize at hs
  unfold serializeToBuffer
  dsimp only
  rw [sizeOfInt_intOfSize (n := codec.byteSize m + kChecksumLen) (by omega),
    sizeOfInt_intOfSize (n := codec.byteSize m) (by omega)]
  generalize intOfSize (codec.byteSize m) = byteSize at hsize ⊢
  refine Outcome.bind (Outcome.mapError
    ((Buffer.outcome_ensureWritableBytes h (by unfold Buffer.kCheapPrepend; omega) (by omega)).and
      (Buffer.outcome_ensureWritableBytes_prependable hprep _)) ?_) ?_
  · rintro e ⟨⟨rfl, hlt⟩, -⟩
    exact ⟨rfl, by omega⟩
  rintro buf₁ ⟨hroom, hprep₁⟩
  have hfit : buf₁.writerIndex + (codec.serialize m).length ≤ buf₁.buffer.length := by
    have := hroom.room
    omega
  obtain ⟨v, buf₂, hcopy, hwritten, hwf, hcontent, hlen₂, hreader⟩ :=
    hroom.wf.write_hasWritten hfit (Nat.le_refl _)
  rw [take_length, hroom.content_eq] at hcontent
  rw [hlen] at hwritten
  have hwrite : (buf₁.writeAtEnd (codec.serialize m)).mapError Fault.buffer =
      .ok { buf₁ with buffer := v } := by
    rw [Buffer.writeAtEnd, hcopy]
    rfl
  rw [hwrite, check_of (by rw [hsize, hlen])]
  simp only [bind, Except.bind, hwritten, Except.mapError, pure, Except.pure]
  exact .ok ⟨hwf, hcontent, by rw [hlen₂]; exact hroom.growth, by rw [hreader]; exact hprep₁, rfl⟩

/-- **`fillEmptyBuffer` writes a frame.** -/
theorem fillEmptyBuffer_spec
    (hserialize : ∀ m, (codec.serialize m).length = codec.byteSize m) (hfits : codec.Fits m)
    (h : buf.WF) (hempty : buf.content = []) (hprep : Buffer.kCheapPrepend ≤ buf.readerIndex) :
    Outcome (fun buf' => buf'.WF ∧ buf'.content = codec.frame m)
      (TooLong (buf.buffer.length + kMaxMessageLen + kChecksumLen))
      (codec.fillEmptyBuffer buf m) := by
  have hlen := length_body hserialize m
  have hmax : kMaxMessageLen + kChecksumLen < 2 ^ 31 := by decide
  have hsize : codec.tag.length + codec.byteSize m + kChecksumLen ≤ kMaxMessageLen := hfits
  unfold fillEmptyBuffer
  refine Outcome.check_bind (by rw [h.readableBytes_eq_length, hempty]; rfl) ?_
  have htag : codec.tag.length ≤ Buffer.maxSize :=
    Nat.le_trans (Nat.le_of_lt codec.tag_length) (by decide)
  refine Outcome.bind (Outcome.mapError
    ((Buffer.outcome_append h htag).and (Buffer.outcome_append_prependable hprep _)) ?_) ?_
  · rintro e ⟨⟨rfl, hlt⟩, -⟩
    have hw := h.writer_le
    exact ⟨rfl, by omega⟩
  rintro buf₁ ⟨⟨hwf₁, hcontent₁, hlen₁⟩, hprep₁⟩
  refine Outcome.bind ((serializeToBuffer_spec (hserialize m) hfits hwf₁ hprep₁).mono (fun _ h => h)
    fun f hf => hf.mono (by omega)) ?_
  rintro ⟨buf₂, byteSize⟩ ⟨hwf₂, hcontent₂, hlen₂, hprep₂, hbyteSize⟩
  dsimp only at hwf₂ hcontent₂ hlen₂ hprep₂ hbyteSize ⊢
  have hbody : buf₂.content = codec.body m := by
    rw [hcontent₂, hcontent₁, hempty]
    rfl
  have hread : buf₂.readableBytes = codec.tag.length + codec.byteSize m := by
    rw [hwf₂.readableBytes_eq_length, hbody, hlen]
  have hsum := hwf₂.chars_readable
  rw [hbody] at hsum
  rw [sizeOfInt_intOfSize (by omega), hsum]
  refine Outcome.bind (P := (· = codec.body m)) (.ok rfl) ?_
  rintro _ rfl
  refine Outcome.bind (Outcome.mapError
    ((Buffer.outcome_appendInt32 hwf₂ codec.host (codec.checksum (codec.body m))).and
      (Buffer.outcome_append_prependable hprep₂ _)) ?_) ?_
  · rintro e ⟨⟨rfl, hlt⟩, -⟩
    have hw := hwf₂.writer_le
    exact ⟨rfl, by unfold kChecksumLen at *; omega⟩
  rintro buf₃ ⟨⟨hwf₃, hcontent₃, -⟩, hprep₃⟩
  rw [hbody] at hcontent₃
  have hread₃ : buf₃.readableBytes = (codec.body m).length + kChecksumLen := by
    rw [hwf₃.readableBytes_eq_length, hcontent₃, length_append, length_beBytes]
    rfl
  have hassert : buf₃.readableBytes =
      addSize (addSize codec.tag.length (sizeOfInt byteSize)) kChecksumLen := by
    rw [hbyteSize, sizeOfInt_intOfSize (by omega), addSize_of_lt (a := codec.tag.length) (by omega),
      addSize_of_lt (by omega), hread₃, hlen]
  rw [check_of hassert, hread₃, intOfSize_of_lt (by omega)]
  have hheader : (BitVec.ofInt 32 ((codec.body m).length + kChecksumLen : Nat)).toNat =
      (codec.body m).length + kChecksumLen := by
    rw [BitVec.ofInt_natCast, BitVec.toNat_ofNat]
    exact Nat.mod_eq_of_lt (by omega)
  refine Outcome.mapError (E := fun _ => False) ((Buffer.outcome_prependInt32 hwf₃ codec.host _
    (Nat.le_trans (by decide) hprep₃)).mono ?_ fun _ he => he) fun _ he => he.elim
  rintro buf₄ ⟨hwf₄, hcontent₄⟩
  rw [hcontent₃, hheader] at hcontent₄
  exact ⟨hwf₄, hcontent₄⟩

/-- **`encode`** gives the frame of the message. -/
theorem encode_eq (hserialize : ∀ m, (codec.serialize m).length = codec.byteSize m)
    (hfits : codec.Fits m) : codec.encode m = .ok (codec.frame m) := by
  have hfill := fillEmptyBuffer_spec hserialize hfits Buffer.wf_newBuffer Buffer.content_newBuffer
    (Nat.le_refl Buffer.kCheapPrepend)
  rw [Buffer.length_newBuffer] at hfill
  obtain ⟨buf, hbuf, hwf, hcontent⟩ := hfill.exists_ok fun _ he => absurd he.2 (by decide)
  rw [encode, Buffer.create_default]
  simp only [Except.mapError, bind, Except.bind, hbuf, hwf.chars_readable, hcontent]

theorem mapM_encode (hlaw : codec.Lawful) (hfits : ∀ m ∈ ms, codec.Fits m) :
    ms.mapM codec.encode = .ok (ms.map codec.frame) := by
  induction ms with
  | nil => rfl
  | cons m ms ih =>
    rw [mapM_cons, encode_eq hlaw.length_serialize (hfits m mem_cons_self),
      ih fun m' hm' => hfits m' (mem_cons_of_mem m hm')]
    rfl

/-! ## chunks -/

/-- The receiver has read the bytes `bs`.  As long as they give no error, it has made
the calls for the messages in them, and holds the rest. -/
structure HasRead (codec : ProtobufCodecLite Message) (s : Receiver Message) (bs : List UInt8) :
    Prop where
  wf : s.inputBuffer.WF
  drained : ∀ d, Drains codec.scan () bs d → d.result = none →
    s.calls = d.out.map .message ∧ s.inputBuffer.content = d.rest

theorem hasRead_create (codec : ProtobufCodecLite Message) : codec.HasRead .create [] where
  wf := Buffer.wf_newBuffer
  drained := by
    intro d hd _
    have hwait : codec.scan () [] = .wait := if_pos (by simp [kHeaderLen])
    rw [hd.unique (.wait hwait)]
    exact ⟨rfl, Buffer.content_newBuffer⟩

/-- **A read** continues where the last one left off. -/
theorem HasRead.receive (hroom : codec.HasRoom) {bs : List UInt8}
    (h : codec.HasRead s bs) (chunk : Buffer.CharRange) :
    Outcome (fun s' => codec.HasRead s' (bs ++ chunk.data) ∧
        s'.inputBuffer.buffer.length ≤ s.inputBuffer.buffer.length + chunk.data.length)
      (TooLong (s.inputBuffer.buffer.length + chunk.data.length)) (codec.receive s chunk) := by
  refine (receive_spec hroom.smallTag h.wf chunk).mono ?_ fun _ he => he
  rintro s' ⟨hwf, hlen, d₀, hd₀, hcontent, hcalls⟩
  refine ⟨⟨hwf, fun d hd hwait => ?_⟩, hlen⟩
  obtain ⟨d₁, d₂, hd₁, hwait₁, hd₂, rfl⟩ := stable_scan.drains_cut trivial hd hwait
  obtain ⟨hcalls₁, hcontent₁⟩ := h.drained d₁ hd₁ hwait₁
  rw [hcontent₁] at hd₀
  obtain rfl := hd₀.unique hd₂
  refine ⟨?_, hcontent⟩
  have hnone : d₀.result = none := hwait
  rw [hcalls, hcalls₁, callsOf, hnone, map_append]
  simp

theorem receive_nil (h : s.inputBuffer.WF)
    (hempty : s.inputBuffer.content = []) {chunk : Buffer.CharRange} (hnil : chunk.data = []) :
    Outcome (fun s' => s'.inputBuffer.WF ∧ s'.inputBuffer.content = [] ∧ s'.calls = s.calls)
      (fun _ => False) (codec.receive s chunk) := by
  unfold ProtobufCodecLite.receive
  refine Outcome.bind (Buffer.outcome_append_mapError h chunk.length_le fun hlong => ?_) ?_
  · have hs := h.size_le
    rw [hnil, length_nil] at hlong
    omega
  rintro buf ⟨hwf, hcontent, -⟩
  rw [hempty, hnil] at hcontent
  have hguard : ¬ ((codec.kMinMessageLen + kHeaderLen) % 2 ^ 32).toNat ≤ buf.readableBytes := by
    have htag := codec.tag_length
    have hmin := emod_intOfSize (codec.tag.length + kChecksumLen)
    have hread : buf.readableBytes = 0 := by
      rw [hwf.readableBytes_eq_length, hcontent]
      rfl
    rw [hread, kMinMessageLen]
    unfold kHeaderLen
    unfold kChecksumLen at hmin ⊢
    omega
  have hround : codec.round buf = .ok (.done none) := if_neg hguard
  rw [onMessage, messageLoop, hround]
  exact .ok ⟨hwf, hcontent, append_nil _⟩

end

/-- **Decode undoes encode, however the stream is cut.**  The messages are encoded
without a failure.  When their encodings arrive in chunks, `messageCallback_` is
called for each of them, once and in order, `errorCallback_` is not called, and the
buffer is empty at the end.  The only failure is that of a vector that would exceed
`max_size()`. -/
theorem decode_encode (hlaw : codec.Lawful) (hpasses : codec.PassesAll) (ms : List Message)
    (hfits : ∀ m ∈ ms, codec.Fits m) :
    ∃ encodings, ms.mapM codec.encode = .ok encodings ∧
      ∀ chunks : List Buffer.CharRange, chunks.flatMap (·.data) = encodings.flatten →
        Outcome (fun s : Receiver Message =>
            s.calls = ms.map .message ∧ s.inputBuffer.content = [])
          (TooLong (Buffer.kNewVector + encodings.flatten.length))
          (run codec.receive .create chunks) := by
  refine ⟨_, mapM_encode hlaw hfits, fun chunks hchunks => ?_⟩
  rw [← flatMap_def] at hchunks ⊢
  by_cases hroom : codec.HasRoom
  · have hrun := Outcome.run_sim_cost (R := codec.HasRead) (E := TooLong)
      (fun bs (c : Buffer.CharRange) => bs ++ c.data)
      (fun s : Receiver Message => s.inputBuffer.buffer.length)
      (fun c : Buffer.CharRange => c.data.length) TooLong.mono
      (fun s bs c h _ => HasRead.receive hroom h c) (hasRead_create codec) (meets_true _ chunks)
    rw [← flatMap_eq_foldl, ← length_flatMap, hchunks] at hrun
    refine hrun.mono (fun s hs => ?_) fun _ he => ?_
    · exact hs.drained _ (drains_frames hlaw hpasses hfits) rfl
    · rwa [Receiver.create, Buffer.length_newBuffer] at he
  · -- no message fits behind such a tag, so that nothing arrives
    cases ms with
    | cons m ms => exact absurd (hfits m mem_cons_self).hasRoom hroom
    | nil =>
      have hnil := flatMap_eq_nil_iff.mp hchunks
      refine Outcome.mono (P := fun s => s.inputBuffer.WF ∧ s.inputBuffer.content = [] ∧
        s.calls = []) (E := fun _ => False) ?_ (fun s hs => ⟨hs.2.2, hs.2.1⟩) fun _ he => he.elim
      refine Outcome.run (fun s c hs hc => ?_)
        ⟨Buffer.wf_newBuffer, Buffer.content_newBuffer, rfl⟩ (meets_of_forall _ hnil)
      rw [← hs.2.2]
      exact receive_nil hs.1 hs.2.1 hc

/-- `adler32(1, data, len)` of `zlib`. -/
def zlibAdler32 (data : List UInt8) : BitVec 32 :=
  let (a, b) := data.foldl (fun (a, b) c => ((a + c.toNat) % 65521, (b + (a + c.toNat)) % 65521))
    (1, 0)
  BitVec.ofNat 32 (b * 65536 + a)

/-- A codec for messages that are given by their serialization. -/
def rpcBytes : ProtobufCodecLite (List UInt8) where
  host := .little
  tag := [82, 80, 67, 48]
  tag_length := by decide
  byteSize := List.length
  serialize := id
  parseFromArray := some
  adler32 := zlibAdler32
  rawCb := none

/-- The message of `RpcCodec_test.cc`. -/
def testMessage : List UInt8 := [0x08, 0x01, 0x11, 0x02, 0, 0, 0, 0, 0, 0, 0]

/-- The wire format of `RpcCodec_test.cc`. -/
def testWire : List UInt8 :=
  [0, 0, 0, 0x13, 82, 80, 67, 48, 0x08, 0x01, 0x11, 0x02, 0, 0, 0, 0, 0, 0, 0, 0x0f, 0xef, 0x01, 0x32]

example : rpcBytes.encode testMessage = .ok testWire := by decide +kernel

/-- Two messages, cut inside the header of the second one. -/
def testChunks : List Buffer.CharRange :=
  [⟨testWire ++ [0, 0], by decide⟩, ⟨testWire.drop 2, by decide⟩]

theorem decode_encode_testChunks :
    ∃ s, run rpcBytes.receive .create testChunks = .ok s ∧
      s.calls = [.message testMessage, .message testMessage] ∧ s.inputBuffer.content = [] := by
  have hfits : ∀ m ∈ [testMessage, testMessage], rpcBytes.Fits m := by
    intro m hm
    obtain rfl : m = testMessage := by simpa using hm
    unfold Fits
    decide
  obtain ⟨encodings, hencodings, hchunks⟩ := decode_encode rpcBytes ⟨fun _ => rfl, fun _ => rfl⟩
    (fun _ => rfl) [testMessage, testMessage] hfits
  have hwire : [testMessage, testMessage].mapM rpcBytes.encode = .ok [testWire, testWire] := by
    decide +kernel
  obtain rfl := Except.ok.inj (hwire.symm.trans hencodings)
  exact (hchunks testChunks (by decide)).exists_ok fun _ he => absurd he.2 (by decide)

end Muduo.ProtobufCodecLite
