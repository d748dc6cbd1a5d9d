import Muduo.Multiplexer

/-!
# Muduo.Multiplexer.Packet

Packets on the way in and on the way out.
-/

namespace Muduo

open Lib List

/-! ## buffers with room for a header -/

/-- The cheap prepend is free. -/
structure Buffer.Roomy (b : Buffer) : Prop where
  wf : b.WF
  prependable : kCheapPrepend ≤ b.readerIndex

namespace Buffer

variable {b : Buffer}

theorem roomy_newBuffer : newBuffer.Roomy := ⟨wf_newBuffer, Nat.le_refl _⟩

theorem WF.roomy_retrieveAll (h : b.WF) : b.retrieveAll.Roomy := ⟨h.retrieveAll.1, Nat.le_refl _⟩

theorem Roomy.retrieve (h : b.Roomy) {len : Nat} (hlen : len ≤ b.content.length) :
    ∃ b', b.retrieve len = .ok b' ∧ b'.Roomy ∧ b'.content = b.content.drop len := by
  obtain ⟨b', hret, hwf, hcontent, -⟩ := retrieve_spec h.wf hlen
  refine ⟨b', hret, ⟨hwf, ?_⟩, hcontent⟩
  have hsize := h.wf.size_le
  have hroom := h.prependable
  have hr := h.wf.reader_le
  have hw := h.wf.writer_le
  have hclen := h.wf.length_content
  unfold maxSize at hsize
  unfold Buffer.retrieve at hret
  rw [h.wf.readableBytes_eq_length, check_bind_eq_ok] at hret
  obtain ⟨-, hret⟩ := hret
  split at hret
  · cases hret
    rw [addSize_of_lt (by omega)]
    simp only
    omega
  · cases hret
    exact Nat.le_refl _

variable {data : List UInt8}

theorem Roomy.outcome_append (h : b.Roomy) (hdata : data.length ≤ maxSize) :
    Outcome (fun b' => b'.Roomy ∧ b'.content = b.content ++ data)
      (TooLong (b.writerIndex + data.length)) (b.append data) :=
  ((Buffer.outcome_append h.wf hdata).and (outcome_append_prependable h.prependable data)).mono
    (fun _ hb => ⟨⟨hb.1.1, hb.2⟩, hb.1.2.1⟩) fun _ he => he.1

theorem outcome_readFd_prependable (h : kCheapPrepend ≤ b.readerIndex) (data : List UInt8) :
    Outcome (fun r => kCheapPrepend ≤ r.1.readerIndex) (fun _ => True)
      (b.readFd (.received data)) := by
  unfold readFd
  refine Outcome.bind (P := fun _ => True) ?_ fun v _ => ?_
  · cases copyIn b.buffer b.writerIndex (data.take b.writableBytes) with
    | ok v => exact .ok trivial
    | error e => exact .error trivial
  · split
    · exact .ok h
    · exact Outcome.bind (outcome_append_prependable (b := ⟨v, b.readerIndex, v.length⟩) h _)
        fun b' hb' => .ok hb'

theorem Roomy.outcome_readFd (h : b.Roomy) (hdata : data.length ≤ b.offered) :
    Outcome (fun r => r.1.Roomy ∧ r.1.content = b.content ++ data) (· = .lengthError)
      (b.readFd (.received data)) :=
  ((Buffer.outcome_readFd h.wf hdata).and (outcome_readFd_prependable h.prependable data)).mono
    (fun _ hr => ⟨⟨hr.1.1, hr.2⟩, hr.1.2.1⟩) fun _ he => he.1

end Buffer

namespace Multiplexer

/-! ## the format -/

def Packet.encode (p : Packet) : List UInt8 := header p.id p.payload.length ++ p.payload

@[simp] theorem length_header (id len : Nat) : (header id len).length = kHeaderLen := rfl

@[simp] theorem Packet.length_encode (p : Packet) :
    p.encode.length = kHeaderLen + p.payload.length := length_append

/-- The packets that are sent. -/
structure Packet.Valid (p : Packet) : Prop where
  id_lt : p.id < 2 ^ 16
  nonempty : p.payload ≠ []
  length_le : p.payload.length ≤ kMaxPacketLen

/-- The header that the bytes begin with: the length and the id. -/
def lengthField (bs : List UInt8) : Nat := (bs.getD 0 0).toNat

def idField (bs : List UInt8) : Nat := (bs.getD 1 0).toNat ||| (bs.getD 2 0).toNat <<< 8

/-- The packet at the front of the bytes. -/
def readPacket (bs : List UInt8) : Option Packet :=
  if kHeaderLen < bs.length ∧ lengthField bs + kHeaderLen ≤ bs.length then
    some ⟨idField bs, (bs.drop kHeaderLen).take (lengthField bs)⟩
  else none

theorem lengthField_header {id len : Nat} (h : len ≤ kMaxPacketLen) (bs : List UInt8) :
    lengthField (header id len ++ bs) = len := by
  unfold kMaxPacketLen at h
  have hmod : len % 2 ^ 8 = len := Nat.mod_eq_of_lt (by omega)
  simp only [lengthField, header, cons_append, getD_cons_zero, UInt8.toNat_ofNat', hmod]

theorem idField_header {id : Nat} (h : id < 2 ^ 16) (len : Nat) (bs : List UInt8) :
    idField (header id len ++ bs) = id := by
  have hlow : id &&& 0xFF = id % 2 ^ 8 := Nat.and_two_pow_sub_one_eq_mod id 8
  have hhigh : (id &&& 0xFF00) >>> 8 = id / 2 ^ 8 := by
    rw [Nat.shiftRight_and_distrib, Nat.shiftRight_eq_div_pow]
    have hmod : id / 2 ^ 8 &&& 0xFF = id / 2 ^ 8 % 2 ^ 8 := Nat.and_two_pow_sub_one_eq_mod _ 8
    exact hmod.trans (Nat.mod_eq_of_lt (by omega))
  have hdiv : id / 2 ^ 8 % 2 ^ 8 = id / 2 ^ 8 := Nat.mod_eq_of_lt (by omega)
  simp only [idField, header, hlow, hhigh, cons_append, getD_cons_succ,
    getD_cons_zero, UInt8.toNat_ofNat', hdiv, Nat.mod_mod]
  rw [Nat.or_comm, ← Nat.shiftLeft_add_eq_or_of_lt (Nat.mod_lt _ (by decide)), Nat.shiftLeft_eq]
  omega

variable {p : Packet}

theorem length_of_readPacket {bs : List UInt8} (h : readPacket bs = some p) :
    p.payload.length + kHeaderLen ≤ bs.length ∧ p.payload.length = lengthField bs := by
  unfold readPacket at h
  split at h
  · next hle =>
      cases h
      simp only [length_take, length_drop]
      omega
  · cases h

/-- The first bytes of a packet are its header, also while the packet is not
complete. -/
theorem lengthField_of_append {bs more rest : List UInt8} (hp : p.Valid)
    (h : bs ++ more = p.encode ++ rest) (hlen : kHeaderLen < bs.length) :
    lengthField bs = p.payload.length ∧ idField bs = p.id := by
  have hhead : ∀ i < kHeaderLen, bs.getD i 0 = (p.encode ++ rest).getD i 0 := by
    intro i hi
    rw [← h, getD_eq_getElem?_getD, getD_eq_getElem?_getD,
      List.getElem?_append_left (by omega)]
  have hlength := hhead 0 (by decide)
  have hlow := hhead 1 (by decide)
  have hhigh := hhead 2 (by decide)
  constructor
  · rw [lengthField, hlength, Packet.encode, append_assoc]
    exact lengthField_header hp.length_le _
  · rw [idField, hlow, hhigh, Packet.encode, append_assoc]
    exact idField_header hp.id_lt _ _

/-- **A packet is read back**, whatever follows it, when all of it is there. -/
theorem readPacket_eq_some {bs more rest : List UInt8} {p q : Packet} (hp : p.Valid)
    (h : bs ++ more = p.encode ++ rest) (hq : readPacket bs = some q) :
    q = p ∧ bs.drop (p.payload.length + kHeaderLen) ++ more = rest := by
  obtain ⟨hle, hlen⟩ := length_of_readPacket hq
  unfold readPacket at hq
  split at hq
  · next hcond =>
      obtain ⟨hlenField, hid⟩ := lengthField_of_append hp h hcond.1
      have hsize : p.encode.length ≤ bs.length := by
        rw [Packet.length_encode]
        omega
      obtain ⟨bs', rfl⟩ : p.encode <+: bs :=
        prefix_of_prefix_length_le ⟨rest, h.symm⟩ (prefix_append bs more) hsize
      rw [append_assoc, append_cancel_left_eq] at h
      have hdrop : (p.encode ++ bs').drop kHeaderLen = p.payload ++ bs' := by
        rw [Packet.encode, append_assoc]
        exact drop_left' (length_header _ _)
      simp only [Option.some.injEq] at hq
      rw [hlenField, hid, hdrop, take_left] at hq
      refine ⟨hq.symm, ?_⟩
      rw [drop_left' (by rw [Packet.length_encode, Nat.add_comm]), h]
  · cases hq

/-! ## sending -/

section
variable {buf : Buffer} (connected : Bool) (id : Nat)

/-- What goes out on a connection that is up. -/
def outgoing (connected : Bool) (p : Packet) : Option (List UInt8) :=
  if connected then some p.encode else none

theorem send_spec (h : buf.WF) : ∃ buf', send connected buf =
      .ok (if connected then some buf.content else none, buf') ∧ buf'.WF ∧
    (connected → buf'.Roomy ∧ buf'.content = []) := by
  cases connected with
  | false => exact ⟨buf, rfl, h, nofun⟩
  | true =>
    refine ⟨buf.retrieveAll, ?_, h.retrieveAll.1, fun _ => ⟨h.roomy_retrieveAll, h.retrieveAll.2⟩⟩
    rw [send, h.chars_readable]
    rfl

/-- **`sendBackendPacket`, `sendServerPacket`**: the readable bytes go out behind a
header. -/
theorem sendPacket_spec (h : buf.WF) (hlen : buf.content.length ≤ kMaxPacketLen)
    (hroom : kHeaderLen ≤ buf.readerIndex) : ∃ buf', sendPacket connected id buf =
      .ok (outgoing connected ⟨id, buf.content⟩, buf') ∧ buf'.WF ∧
    (connected → buf'.Roomy ∧ buf'.content = []) := by
  have hprepend : Outcome (fun b' => b'.WF ∧ b'.content = header id buf.content.length ++ buf.content)
      (fun _ => False) (buf.prepend (header id buf.content.length)) := Buffer.outcome_prepend h hroom
  obtain ⟨b, hb, hwf, hcontent⟩ := hprepend.exists_ok fun _ he => he
  obtain ⟨buf', hsend, hspec⟩ := send_spec connected hwf
  refine ⟨buf', ?_, hspec⟩
  rw [sendPacket, h.readableBytes_eq_length, check_of hlen, ok_bind, hb]
  rw [hcontent] at hsend
  exact hsend

/-- A packet of its own is as long as a buffer is to begin with, at most. -/
theorem sendBytes_spec {msg : List UInt8} (h : msg.length ≤ kMaxPacketLen) :
    sendBytes connected id msg = .ok (outgoing connected ⟨id, msg⟩) := by
  unfold kMaxPacketLen at h
  have hmax : msg.length ≤ Buffer.maxSize := by unfold Buffer.maxSize; omega
  have happend := Buffer.roomy_newBuffer.outcome_append hmax
  have hshort : ∀ e, ¬ Buffer.TooLong (Buffer.newBuffer.writerIndex + msg.length) e := by
    intro e he
    have hlt := he.2
    unfold Buffer.maxSize Buffer.newBuffer Buffer.kCheapPrepend at hlt
    simp only at hlt
    omega
  obtain ⟨b, hb, hroomy, hcontent⟩ := happend.exists_ok hshort
  rw [Buffer.content_newBuffer, nil_append] at hcontent
  obtain ⟨b', hsend, -⟩ := sendPacket_spec connected id hroomy.wf
    (by rw [hcontent]; exact h)
    (Nat.le_trans (by decide) hroomy.prependable)
  rw [hcontent] at hsend
  rw [sendBytes, Buffer.create_default]
  simp only [Except.mapError, ok_bind, hb, hsend]
  rfl

/-- **A round of `sendBackendBuffer` or `onSocksMessage`** while the connection is up:
the first 255 bytes go out as a packet. -/
theorem sendRound_spec (h : buf.Roomy) : ∃ buf', sendRound true id buf =
      .ok (if buf.content = [] then none else some (Packet.encode ⟨id, buf.content.take kMaxPacketLen⟩),
        buf', decide (kMaxPacketLen < buf.content.length)) ∧
    buf'.Roomy ∧ buf'.content = buf.content.drop kMaxPacketLen := by
  unfold sendRound
  rw [h.wf.readableBytes_eq_length]
  by_cases hlong : kMaxPacketLen < buf.content.length
  · obtain ⟨buf', hret, hroomy, hcontent⟩ := h.retrieve (Nat.le_of_lt hlong)
    have hne : buf.content ≠ [] := ne_nil_of_length_pos (by omega)
    refine ⟨buf', ?_, hroomy, hcontent⟩
    have hchunk : (buf.content.take kMaxPacketLen).length ≤ kMaxPacketLen := length_take_le _ _
    rw [if_pos hlong, h.wf.chars_take (Nat.le_of_lt hlong), hret, if_neg hne]
    simp only [Except.mapError, ok_bind, sendBytes_spec _ _ hchunk, hlong, decide_true]
    rfl
  · have hdrop : buf.content.drop kMaxPacketLen = [] := drop_eq_nil_of_le (by omega)
    have htake : buf.content.take kMaxPacketLen = buf.content := take_of_length_le (by omega)
    simp only [hlong, if_false, decide_false, hdrop, htake, length_pos_iff]
    by_cases hne : buf.content = []
    · exact ⟨buf, by simp [hne], h, hne⟩
    · obtain ⟨buf', hsend, -, hspec⟩ := sendPacket_spec true id h.wf
        (Nat.le_of_not_lt hlong) (Nat.le_trans (by decide) h.prependable)
      refine ⟨buf', ?_, (hspec rfl).1, (hspec rfl).2⟩
      rw [if_pos hne, if_neg hne, hsend]
      rfl

/-- A round without a connection: the header must still fit in front of the last
packet. -/
theorem sendRound_not_connected (h : buf.WF)
    (hroom : buf.content.length ≤ kMaxPacketLen → buf.content ≠ [] → kHeaderLen ≤ buf.readerIndex) :
    ∃ buf' more, sendRound false id buf = .ok (none, buf', more) ∧ buf'.WF := by
  unfold sendRound
  rw [h.readableBytes_eq_length]
  by_cases hlong : kMaxPacketLen < buf.content.length
  · obtain ⟨buf', hret, hwf, -⟩ := Buffer.retrieve_spec h (Nat.le_of_lt hlong)
    have hchunk : (buf.content.take kMaxPacketLen).length ≤ kMaxPacketLen := length_take_le _ _
    refine ⟨buf', true, ?_, hwf⟩
    rw [if_pos hlong, h.chars_take (Nat.le_of_lt hlong), hret]
    simp only [Except.mapError, ok_bind, sendBytes_spec _ _ hchunk]
    rfl
  · rw [if_neg hlong]
    by_cases hne : buf.content = []
    · exact ⟨buf, false, by simp [hne], h⟩
    · obtain ⟨buf', hsend, hwf, -⟩ := sendPacket_spec false id h
        (Nat.le_of_not_lt hlong) (hroom (Nat.le_of_not_lt hlong) hne)
      refine ⟨buf', false, ?_, hwf⟩
      rw [if_pos (length_pos_iff.mpr hne), hsend]
      rfl

/-! ## receiving -/

theorem nextPacket_eq (h : buf.WF) : nextPacket buf = .ok (readPacket buf.content) := by
  unfold nextPacket readPacket
  rw [h.readableBytes_eq_length]
  by_cases hlen : kHeaderLen < buf.content.length
  · have hhead : ∀ i < kHeaderLen, (buf.content.take kHeaderLen).getD i 0 = buf.content.getD i 0 := by
      intro i hi
      rw [getD_eq_getElem?_getD, getD_eq_getElem?_getD, List.getElem?_take_of_lt hi]
    have hfield : (buf.content.getD 0 0).toNat = lengthField buf.content := rfl
    rw [if_pos hlen, h.chars_take (Nat.le_of_lt hlen)]
    simp only [Except.mapError, ok_bind, hhead 0 (by decide), hhead 1 (by decide),
      hhead 2 (by decide), hlen, true_and, hfield]
    by_cases hcomplete : lengthField buf.content + kHeaderLen ≤ buf.content.length
    · rw [if_neg (Nat.not_lt.mpr hcomplete), if_pos hcomplete]
      have hpayload : Buffer.chars buf.buffer (buf.peek + kHeaderLen) (lengthField buf.content) =
          .ok ((buf.content.drop kHeaderLen).take (lengthField buf.content)) := by
        have hr := h.reader_le
        have hw := h.writer_le
        have hclen := h.length_content
        have hpeek : buf.peek = buf.readerIndex := rfl
        have hdrop : buf.content.drop kHeaderLen =
            slice buf.buffer (buf.readerIndex + kHeaderLen) buf.writerIndex :=
          (slice_drop _ _ _ _).symm
        rw [Buffer.chars_of_le (by omega), hpeek, hdrop,
          slice_take (j := buf.writerIndex) _ (by omega)]
      rw [hpayload]
      rfl
    · rw [if_pos (Nat.lt_of_not_le hcomplete), if_neg hcomplete]
      rfl
  · simp [hlen]

theorem retrievePacket_spec (h : buf.WF) (hp : readPacket buf.content = some p) :
    ∃ buf', retrievePacket buf p = .ok buf' ∧ buf'.WF ∧
      buf'.content = buf.content.drop (p.payload.length + kHeaderLen) := by
  obtain ⟨buf', hret, hwf, hcontent, -⟩ := Buffer.retrieve_spec h (length_of_readPacket hp).1
  exact ⟨buf', by rw [retrievePacket, hret]; rfl, hwf, hcontent⟩

end

end Multiplexer

end Muduo
