import Muduo.FastCgi.Params

/-!
# Muduo.FastCgi.Records

The records of a request, however they are cut.
-/

namespace Muduo.FastCgiCodec

open Lib List

/-! ## reading -/

def typeOf (bs : List UInt8) : UInt8 := bs.getD 1 0

def lengthOf (bs : List UInt8) : Nat := beValue ((bs.drop 4).take 2)

def paddingOf (bs : List UInt8) : Nat := (bs.getD 6 0).toNat

def totalOf (bs : List UInt8) : Nat := kRecordHeader + lengthOf bs + paddingOf bs

def contentOf (bs : List UInt8) : List UInt8 := (bs.drop kRecordHeader).take (lengthOf bs)

/-- The type and the content of the next record. -/
def scan (_ : Unit) (bs : List UInt8) : Scan Unit UInt8 (UInt8 × List UInt8) Empty :=
  if kRecordHeader ≤ bs.length ∧ totalOf bs ≤ bs.length then
    .next [(typeOf bs, contentOf bs)] () (bs.drop (totalOf bs))
  else .wait

section
variable {bs : List UInt8}

theorem getD_append_of_lt {i : Nat} (h : i < bs.length) (more : List UInt8) :
    (bs ++ more).getD i 0 = bs.getD i 0 := by
  rw [getD_eq_getElem?_getD, List.getElem?_append_left h, ← getD_eq_getElem?_getD]

theorem drop_take_append {i n : Nat} (h : i + n ≤ bs.length) (more : List UInt8) :
    ((bs ++ more).drop i).take n = (bs.drop i).take n := by
  rw [drop_append_of_le_length (by omega),
    take_append_of_le_length (by rw [length_drop]; omega)]

theorem lengthOf_append (h : kRecordHeader ≤ bs.length) (more : List UInt8) :
    lengthOf (bs ++ more) = lengthOf bs := by
  unfold kRecordHeader at h
  rw [lengthOf, drop_take_append (by omega), lengthOf]

theorem totalOf_append (h : kRecordHeader ≤ bs.length) (more : List UInt8) :
    totalOf (bs ++ more) = totalOf bs := by
  rw [totalOf, lengthOf_append h, paddingOf, getD_append_of_lt (by unfold kRecordHeader at h; omega)]
  rfl

theorem header_add_lengthOf_le (bs : List UInt8) : kRecordHeader + lengthOf bs ≤ totalOf bs :=
  Nat.le_add_right _ _

theorem length_contentOf (h : totalOf bs ≤ bs.length) : (contentOf bs).length = lengthOf bs := by
  have hle := header_add_lengthOf_le bs
  rw [contentOf, length_take_of_le (by rw [length_drop]; omega)]

/-- **A record that is complete** is not changed by what follows it. -/
theorem stable_scan : Stable scan (fun _ => True) where
  next := by
    intro s bs out s' rest _ h
    unfold scan at h ⊢
    split_ifs at h with hc
    obtain ⟨hheader, htotal⟩ := hc
    simp only [Scan.next.injEq] at h
    obtain ⟨rfl, -, rfl⟩ := h
    have hle := header_add_lengthOf_le bs
    refine ⟨trivial, ?_, fun more => ?_⟩
    · unfold kRecordHeader at hle hheader
      rw [length_drop]
      omega
    · have hcond : kRecordHeader ≤ (bs ++ more).length ∧ totalOf (bs ++ more) ≤ (bs ++ more).length := by
        rw [totalOf_append hheader, length_append]
        omega
      rw [if_pos hcond, totalOf_append hheader, contentOf, lengthOf_append hheader,
        drop_take_append (by omega), typeOf, getD_append_of_lt (by unfold kRecordHeader at hheader; omega),
        drop_append_of_le_length htotal]
      rfl
  stop := by
    intro s bs r
    exact nomatch r

end

/-! ## what is done with a record -/

/-- The codec, with the bytes for its buffers. -/
structure State where
  gotRequest : Bool
  keepConn : Bool
  stdin : List UInt8
  paramsStream : List UInt8
  params : Params

namespace State

def create : State := ⟨false, false, [], [], ∅⟩

/-- The pairs of the stream go into the map. -/
def parseAllParams (s : State) : State :=
  let d := drain scanPair (s.paramsStream.length + 1) () s.paramsStream
  { s with paramsStream := d.rest, params := insertAll s.params d.out }

def onParams (s : State) (content : List UInt8) : State :=
  if content = [] then s.parseAllParams else { s with paramsStream := s.paramsStream ++ content }

def onStdin (s : State) (content : List UInt8) : State :=
  if content = [] then { s with gotRequest := true } else { s with stdin := s.stdin ++ content }

def onBeginRequest (s : State) (content : List UInt8) : State :=
  if kRecordHeader ≤ content.length ∧ beValue (content.take 2) = kFcgiResponder then
    { s with keepConn := (content.drop 2).take 1 = [kFcgiKeepConn] }
  else s

def onRecord (s : State) (r : UInt8 × List UInt8) : State :=
  if r.1 = FcgiType.kFcgiBeginRequest.value then s.onBeginRequest r.2
  else if r.1 = FcgiType.kFcgiParams.value then s.onParams r.2
  else if r.1 = FcgiType.kFcgiStdin.value then s.onStdin r.2
  else s

end State

/-- The codec is in the state. -/
structure Rep (codec : FastCgiCodec) (s : State) : Prop where
  gotRequest : codec.gotRequest = s.gotRequest
  keepConn : codec.keepConn = s.keepConn
  stdin_wf : codec.stdin.WF
  stdin : codec.stdin.content = s.stdin
  paramsStream_wf : codec.paramsStream.WF
  paramsStream : codec.paramsStream.content = s.paramsStream
  params : codec.params = s.params

/-- The vectors of the codec hold at most `n` bytes. -/
def Within (n : Nat) (codec : FastCgiCodec) : Prop :=
  codec.stdin.buffer.length ≤ n ∧ codec.paramsStream.buffer.length ≤ n

/-- The failure of a vector that would have to hold `n` bytes. -/
def TooLong (n : Nat) (f : Fault) : Prop := f = .buffer .lengthError ∧ Buffer.maxSize < n

theorem TooLong.mono {m n : Nat} {f : Fault} (hmn : m ≤ n) (h : TooLong m f) : TooLong n f :=
  ⟨h.1, Nat.lt_of_lt_of_le h.2 hmn⟩

section
variable {codec : FastCgiCodec} {s : State} {n : Nat} {content : List UInt8}

theorem Within.mono {m : Nat} (hmn : m ≤ n) (h : Within m codec) : Within n codec :=
  ⟨Nat.le_trans h.1 hmn, Nat.le_trans h.2 hmn⟩

theorem Rep.onParams (host : ByteOrder) (h : Rep codec s) (hn : Within n codec)
    (hcontent : content.length ≤ Buffer.maxSize) :
    Outcome (fun r : Bool × FastCgiCodec => Rep r.2 (s.onParams content) ∧
      Within (n + content.length) r.2) (TooLong (n + content.length))
      (codec.onParams host content) := by
  unfold FastCgiCodec.onParams State.onParams
  by_cases hnil : content = []
  · obtain ⟨ps, hparse, hwf, hps, hbuffer⟩ :=
      parseAllParams_spec host h.paramsStream_wf (drains_scanPair codec.paramsStream.content)
    rw [if_pos hnil, if_neg (by simp [hnil]), hparse]
    refine .ok ⟨{ h with paramsStream_wf := hwf, paramsStream := ?_, params := ?_ }, ?_⟩
    · rw [State.parseAllParams, ← h.paramsStream]
      exact hps
    · rw [State.parseAllParams, ← h.paramsStream, ← h.params]
      rfl
    · refine Within.mono (Nat.le_add_right n _) ⟨hn.1, ?_⟩
      exact hbuffer ▸ hn.2
  · rw [if_neg hnil, if_pos (length_pos_iff.mpr hnil)]
    refine Outcome.bind (Buffer.outcome_append_mapError h.paramsStream_wf hcontent
      (E := TooLong (n + content.length)) fun hlong => ⟨rfl, by have := hn.2; omega⟩) ?_
    intro ps ⟨hwf, hps, hlen⟩
    exact .ok ⟨{ h with paramsStream_wf := hwf, paramsStream := by rw [hps, h.paramsStream] },
      Nat.le_trans hn.1 (Nat.le_add_right _ _),
      Nat.le_trans hlen (Nat.add_le_add_right hn.2 _)⟩

theorem Rep.onStdin (h : Rep codec s) (hn : Within n codec)
    (hcontent : content.length ≤ Buffer.maxSize) :
    Outcome (fun codec' => Rep codec' (s.onStdin content) ∧ Within (n + content.length) codec')
      (TooLong (n + content.length)) (codec.onStdin content) := by
  unfold FastCgiCodec.onStdin State.onStdin
  by_cases hnil : content = []
  · rw [if_pos hnil, if_neg (by simp [hnil])]
    exact .ok ⟨{ h with gotRequest := rfl }, Within.mono (Nat.le_add_right n _) hn⟩
  · rw [if_neg hnil, if_pos (length_pos_iff.mpr hnil)]
    refine Outcome.bind (Buffer.outcome_append_mapError h.stdin_wf hcontent
      (E := TooLong (n + content.length)) fun hlong => ⟨rfl, by have := hn.1; omega⟩) ?_
    intro stdin ⟨hwf, hstdin, hlen⟩
    exact .ok ⟨{ h with stdin_wf := hwf, stdin := by rw [hstdin, h.stdin] },
      Nat.le_trans hlen (Nat.add_le_add_right hn.1 _),
      Nat.le_trans hn.2 (Nat.le_add_right _ _)⟩

variable {buf : Buffer}

/-- The header at the front of the buffer. -/
structure HeaderOf (header : RecordHeader) (bs : List UInt8) : Prop where
  type : header.type = typeOf bs
  length : header.length = lengthOf bs
  padding : header.padding.toNat = paddingOf bs

variable {header : RecordHeader}

theorem HeaderOf.total {bs : List UInt8} (h : HeaderOf header bs) :
    kRecordHeader + header.length + header.padding.toNat = totalOf bs := by
  rw [h.length, h.padding, totalOf]

theorem headerOf_ofBytes (host : ByteOrder) {bs : List UInt8} (h : kRecordHeader ≤ bs.length) :
    HeaderOf (.ofBytes host (bs.take kRecordHeader)) bs := by
  have hdrop : ((bs.take kRecordHeader).drop 4).take 2 = (bs.drop 4).take 2 := by
    rw [drop_take, take_take]
    rfl
  have hget (i : Nat) (hi : i < kRecordHeader) : (bs.take kRecordHeader).getD i 0 = bs.getD i 0 := by
    rw [getD_eq_getElem?_getD, List.getElem?_take_of_lt hi, ← getD_eq_getElem?_getD]
  have hlen : ((bs.drop 4).take 2).length = Buffer.IntType.int16.size := by
    unfold kRecordHeader at h
    rw [length_take_of_le (by rw [length_drop]; omega)]
    rfl
  refine ⟨hget 1 (by decide), ?_, ?_⟩
  · rw [RecordHeader.ofBytes, hdrop]
    dsimp only
    rw [Buffer.netValue_eq host .int16 hlen, BitVec.toNat_ofNat, Nat.mod_eq_of_lt]
    · rfl
    · have hlt := beValue_lt ((bs.drop 4).take 2)
      rw [hlen] at hlt
      exact hlt
  · rw [RecordHeader.ofBytes, paddingOf, hget 6 (by decide)]

theorem recordContent_eq (hheader : HeaderOf header buf.content) (h : buf.WF)
    (htotal : totalOf buf.content ≤ buf.content.length) :
    recordContent header buf = .ok (contentOf buf.content) := by
  have hle := header_add_lengthOf_le buf.content
  rw [recordContent, hheader.length, h.chars_drop (by omega)]
  rfl

theorem Rep.onBeginRequest (host : ByteOrder) (h : Rep codec s)
    (hheader : HeaderOf header buf.content) (hbuf : buf.WF)
    (htotal : totalOf buf.content ≤ buf.content.length)
    (htype : typeOf buf.content = FcgiType.kFcgiBeginRequest.value) :
    ∃ r, codec.onBeginRequest host header buf = .ok r ∧
      Rep r.2 (s.onBeginRequest (contentOf buf.content)) ∧ ∀ n, Within n codec → Within n r.2 := by
  have hle := header_add_lengthOf_le buf.content
  have hcontent := length_contentOf htotal
  unfold FastCgiCodec.onBeginRequest State.onBeginRequest
  rw [check_of (by rw [hheader.length, hbuf.readableBytes_eq_length]; omega), ok_bind,
    check_of (hheader.type.trans htype), ok_bind, hheader.length, hcontent]
  by_cases hlong : kRecordHeader ≤ lengthOf buf.content
  · have height : 8 ≤ lengthOf buf.content := hlong
    have htwo : ((contentOf buf.content).take 2).length = Buffer.IntType.int16.size :=
      length_take_of_le (by omega)
    have hrole : readInt16 host buf (buf.peek + kRecordHeader) =
        .ok (BitVec.ofNat 16 (beValue ((contentOf buf.content).take 2))) := by
      have htake : (buf.content.drop kRecordHeader).take 2 = (contentOf buf.content).take 2 := by
        rw [contentOf, take_take, Nat.min_eq_left (by omega)]
      rw [readInt16, hbuf.chars_drop (by omega), htake]
      exact congrArg Except.ok (Buffer.netValue_eq host .int16 htwo)
    have hflags : Buffer.chars buf.buffer (buf.peek + kRecordHeader + 2) 1 =
        .ok (((contentOf buf.content).drop 2).take 1) := by
      rw [Nat.add_assoc, hbuf.chars_drop (by omega), contentOf, drop_take, drop_drop,
        take_take, Nat.min_eq_left (by omega)]
    have hvalue : (BitVec.ofNat 16 (beValue ((contentOf buf.content).take 2))).toNat =
        beValue ((contentOf buf.content).take 2) := by
      have hlt := beValue_lt ((contentOf buf.content).take 2)
      rw [htwo] at hlt
      exact Nat.mod_eq_of_lt hlt
    rw [if_pos hlong, hrole, hflags]
    simp only [Except.mapError, bind, Except.bind, hvalue, hlong, true_and]
    split_ifs with hresponder
    · exact ⟨_, rfl, { h with keepConn := rfl }, fun _ hn => hn⟩
    · exact ⟨_, rfl, h, fun _ hn => hn⟩
  · rw [if_neg hlong, if_neg (by omega)]
    exact ⟨_, rfl, h, fun _ hn => hn⟩

/-- **The `switch`** does to the codec what is done with the record. -/
theorem Rep.onRecord (host : ByteOrder) (h : Rep codec s) (hn : Within n codec)
    (hheader : HeaderOf header buf.content) (hbuf : buf.WF)
    (htotal : totalOf buf.content ≤ buf.content.length) :
    Outcome (fun codec' => Rep codec' (s.onRecord (typeOf buf.content, contentOf buf.content)) ∧
      Within (n + lengthOf buf.content) codec') (TooLong (n + lengthOf buf.content))
      (codec.onRecord host header buf) := by
  have hle := header_add_lengthOf_le buf.content
  have hcontent := length_contentOf htotal
  have hmax : (contentOf buf.content).length ≤ Buffer.maxSize := by
    have := hbuf.length_content_le
    omega
  unfold FastCgiCodec.onRecord State.onRecord
  rw [hheader.type, recordContent_eq hheader hbuf htotal, ← hcontent]
  dsimp only
  split_ifs with hbegin hparams hstdin
  · obtain ⟨r, hr, hrep, hwithin⟩ := h.onBeginRequest host hheader hbuf htotal hbegin
    rw [hr]
    exact .ok ⟨hrep, (hwithin n hn).mono (Nat.le_add_right n _)⟩
  · rw [ok_bind, map_eq_pure_bind]
    exact Outcome.bind (h.onParams host hn hmax) fun r hr => .ok hr
  · rw [ok_bind]
    exact h.onStdin hn hmax
  · exact .ok ⟨h, hn.mono (Nat.le_add_right n _)⟩

/-! ## `parseRequest` -/

/-- What is in the vectors of the codec, and what can be put into them yet. -/
def Room (n : Nat) (codec : FastCgiCodec) (bs : List UInt8) : Prop :=
  ∃ m, Within m codec ∧ m + bs.length ≤ n

theorem scan_eq_wait {u : Unit} {bs : List UInt8} (h : scan u bs = .wait) :
    ¬ (kRecordHeader ≤ bs.length ∧ totalOf bs ≤ bs.length) := by
  intro hc
  rw [scan, if_pos hc] at h
  cases h

theorem scan_eq_next {u u' : Unit} {bs rest : List UInt8} {out : List (UInt8 × List UInt8)}
    (h : scan u bs = .next out u' rest) :
    kRecordHeader ≤ bs.length ∧ totalOf bs ≤ bs.length ∧ out = [(typeOf bs, contentOf bs)] ∧
      rest = bs.drop (totalOf bs) := by
  unfold scan at h
  split_ifs at h with hc
  simp only [Scan.next.injEq] at h
  exact ⟨hc.1, hc.2, h.1.symm, h.2.2.symm⟩

theorem round_of_wait (host : ByteOrder) (hbuf : buf.WF)
    (hscan : ¬ (kRecordHeader ≤ buf.content.length ∧ totalOf buf.content ≤ buf.content.length)) :
    codec.round host buf = .ok none := by
  rw [round, hbuf.readableBytes_eq_length]
  split_ifs with hheader
  · have hof := headerOf_ofBytes host hheader
    rw [hbuf.chars_take hheader]
    simp only [Except.mapError, bind, Except.bind, hof.total]
    rw [if_neg fun htotal => hscan ⟨hheader, htotal⟩]
    rfl
  · rfl

/-- **A round of the loop** takes the next record. -/
theorem round_of_next (host : ByteOrder) (h : Rep codec s) (hbuf : buf.WF)
    (hn : Room n codec buf.content) (hheader : kRecordHeader ≤ buf.content.length)
    (htotal : totalOf buf.content ≤ buf.content.length) :
    Outcome (fun r : Option (FastCgiCodec × Buffer) => ∃ codec' buf', r = some (codec', buf') ∧
        Rep codec' (s.onRecord (typeOf buf.content, contentOf buf.content)) ∧ buf'.WF ∧
        buf'.content = buf.content.drop (totalOf buf.content) ∧ buf'.buffer = buf.buffer ∧
        Room n codec' buf'.content)
      (TooLong n) (codec.round host buf) := by
  obtain ⟨m, hm, hmn⟩ := hn
  have hof := headerOf_ofBytes host hheader
  have hle := header_add_lengthOf_le buf.content
  obtain ⟨buf', hret, hwf, hbuf', hbuffer⟩ := Buffer.retrieve_spec hbuf htotal
  rw [round, hbuf.readableBytes_eq_length, if_pos hheader, hbuf.chars_take hheader]
  simp only [Except.mapError, ok_bind, hof.total]
  rw [if_pos htotal]
  refine Outcome.bind ((h.onRecord host hm hof hbuf htotal).mono (fun _ h => h)
    fun _ he => he.mono (by omega)) ?_
  intro codec' ⟨hrep, hwithin⟩
  rw [hret]
  refine .ok ⟨codec', buf', rfl, hrep, hwf, hbuf', hbuffer, _, hwithin, ?_⟩
  rw [hbuf', length_drop]
  omega

theorem parseRequestLoop_spec (host : ByteOrder) {u : Unit} {bs : List UInt8}
    {d : Drained Unit UInt8 (UInt8 × List UInt8) Empty} (hd : Drains scan u bs d) {fuel : Nat}
    (hfuel : bs.length < fuel) {codec : FastCgiCodec} {s : State} {buf : Buffer}
    (h : Rep codec s) (hbuf : buf.WF) (hbs : buf.content = bs) (hn : Room n codec bs) :
    Outcome (fun r : FastCgiCodec × Buffer => Rep r.1 (d.out.foldl State.onRecord s) ∧ r.2.WF ∧
        r.2.content = d.rest ∧ r.2.buffer = buf.buffer ∧ Room n r.1 d.rest)
      (TooLong n) (parseRequestLoop host fuel codec buf) := by
  obtain ⟨fuel, rfl⟩ : ∃ k, fuel = k + 1 := ⟨fuel - 1, by omega⟩
  induction hd generalizing fuel codec s buf with
  | wait hscan =>
    subst hbs
    rw [parseRequestLoop, round_of_wait host hbuf (scan_eq_wait hscan), ok_bind]
    exact .ok ⟨h, hbuf, rfl, rfl, hn⟩
  | @stop _ _ _ _ r => exact nomatch r
  | @next u u' bs rest out d hscan _ ih =>
    subst hbs
    obtain ⟨hheader, htotal, rfl, rfl⟩ := scan_eq_next hscan
    have hlt := (stable_scan.next trivial hscan).2.1
    obtain ⟨fuel, rfl⟩ : ∃ k, fuel = k + 1 := ⟨fuel - 1, by omega⟩
    rw [parseRequestLoop]
    refine Outcome.bind (round_of_next host h hbuf hn hheader htotal) ?_
    rintro _ ⟨codec', buf', rfl, hrep, hwf, hbuf', hbuffer, hroom⟩
    refine (ih hrep hwf hbuf' (hbuf' ▸ hroom) fuel (by omega)).mono (fun r hr => ?_) fun _ he => he
    exact ⟨hr.1, hr.2.1, hr.2.2.1, hr.2.2.2.1.trans hbuffer, hr.2.2.2.2⟩

end

/-- What the connection has made of the bytes it has received. -/
def HasRead (conn : Conn) (bytes : List UInt8) : Prop :=
  conn.buf.WF ∧ ∃ d, Drains scan () bytes d ∧ conn.buf.content = d.rest ∧
    Rep conn.codec (d.out.foldl State.onRecord .create)

/-- The longest vector that the bytes at hand can make. -/
def Conn.size (conn : Conn) : Nat :=
  max conn.buf.buffer.length
    (max conn.codec.stdin.buffer.length conn.codec.paramsStream.buffer.length +
      conn.buf.content.length)

theorem Conn.size_le {n : Nat} {conn : Conn} (hbuf : conn.buf.buffer.length ≤ n)
    (hroom : Room n conn.codec conn.buf.content) : conn.size ≤ n := by
  obtain ⟨m, ⟨hstdin, hps⟩, hmn⟩ := hroom
  unfold Conn.size
  omega

theorem hasRead_create : HasRead .create [] := by
  have hcontent : Conn.create.buf.content = [] := Buffer.content_newBuffer
  refine ⟨Buffer.wf_newBuffer, _, .wait rfl, hcontent, ?_⟩
  exact ⟨rfl, rfl, Buffer.wf_newBuffer, Buffer.content_newBuffer, Buffer.wf_newBuffer,
    Buffer.content_newBuffer, rfl⟩

/-- **A call of `parseRequest`** takes the records that have become complete. -/
theorem HasRead.receive (host : ByteOrder) {conn : Conn} {bytes : List UInt8}
    (h : HasRead conn bytes) (chunk : Buffer.CharRange) :
    Outcome (fun conn' => HasRead conn' (bytes ++ chunk.data) ∧
        conn'.size ≤ conn.size + chunk.data.length)
      (TooLong (conn.size + chunk.data.length)) (conn.receive host chunk) := by
  obtain ⟨hbuf, d, hd, hrest, hrep⟩ := h
  have hsize : conn.buf.buffer.length ≤ conn.size := Nat.le_max_left _ _
  refine Outcome.bind (Buffer.outcome_append_mapError hbuf chunk.length_le
    (E := TooLong (conn.size + chunk.data.length)) fun hlong => ⟨rfl, by omega⟩) ?_
  intro buf ⟨hwf, hcontent, hlen⟩
  have hroom : Room (conn.size + chunk.data.length) conn.codec buf.content := by
    refine ⟨max conn.codec.stdin.buffer.length conn.codec.paramsStream.buffer.length,
      ⟨Nat.le_max_left _ _, Nat.le_max_right _ _⟩, ?_⟩
    rw [hcontent, length_append]
    unfold Conn.size
    omega
  rw [hrest] at hcontent
  rw [hcontent] at hroom
  obtain ⟨d', hd'⟩ : ∃ d', Drains scan d.state (d.rest ++ chunk.data) d' :=
    ⟨_, stable_scan.drains trivial (Nat.lt_succ_self _)⟩
  rw [parseRequest, hwf.readableBytes_eq_length, hcontent]
  refine Outcome.bind
    (parseRequestLoop_spec host hd' (Nat.lt_succ_self _) hrep hwf hcontent hroom) ?_
  intro r ⟨hrep', hwf', hrest', hbuffer, hroom'⟩
  have happend := stable_scan.drains_append trivial hd (Subsingleton.elim _ _) hd'
  refine .ok ⟨⟨hwf', _, happend, hrest', ?_⟩, Conn.size_le ?_ (hrest' ▸ hroom')⟩
  · rw [foldl_append]
    exact hrep'
  · rw [hbuffer]
    omega

/-- **Any cutting** of the bytes gives what their records give. -/
theorem run_receive (host : ByteOrder) (chunks : List Buffer.CharRange) :
    Outcome (fun conn => HasRead conn (chunks.flatMap (·.data)))
      (TooLong (Buffer.kNewVector + (chunks.flatMap (·.data)).length))
      (run (Conn.receive host) .create chunks) := by
  have hrun := Outcome.run_sim_cost (R := HasRead) (E := TooLong)
    (fun bytes (chunk : Buffer.CharRange) => bytes ++ chunk.data) Conn.size
    (fun chunk : Buffer.CharRange => chunk.data.length) TooLong.mono
    (fun _ _ chunk h _ => HasRead.receive host h chunk) hasRead_create (meets_true _ chunks)
  rw [← flatMap_eq_foldl, ← length_flatMap] at hrun
  have hsize : Conn.create.size = Buffer.kNewVector := by
    simp [Conn.size, Conn.create, FastCgiCodec.create]
  rwa [hsize] at hrun

/-! ## requests -/

/-- A record on the wire. -/
structure Record where
  version : UInt8
  type : UInt8
  id : UInt16
  unused : UInt8
  content : List UInt8
  padding : List UInt8
  content_lt : content.length < 2 ^ 16
  padding_lt : padding.length < 2 ^ 8

def Record.header (r : Record) : List UInt8 :=
  [r.version, r.type] ++ beBytes 2 r.id.toNat ++ beBytes 2 r.content.length ++
    [UInt8.ofNat r.padding.length, r.unused]

def Record.encode (r : Record) : List UInt8 := r.header ++ (r.content ++ r.padding)

theorem scan_encode (r : Record) (rest : List UInt8) :
    scan () (r.encode ++ rest) = .next [(r.type, r.content)] () rest := by
  have hlayout : r.encode ++ rest = r.header ++ (r.content ++ (r.padding ++ rest)) := by
    simp [Record.encode]
  have hheader : r.header.length = kRecordHeader := rfl
  have htype : typeOf (r.encode ++ rest) = r.type := rfl
  have hlength : lengthOf (r.encode ++ rest) = r.content.length := by
    change beValue (beBytes 2 r.content.length) = _
    exact beValue_beBytes r.content_lt
  have hpadding : paddingOf (r.encode ++ rest) = r.padding.length := by
    change (UInt8.ofNat r.padding.length).toNat = _
    rw [UInt8.toNat_ofNat', Nat.mod_eq_of_lt r.padding_lt]
  have htotal : totalOf (r.encode ++ rest) = r.encode.length := by
    rw [totalOf, hlength, hpadding, Record.encode, length_append, length_append, hheader,
      Nat.add_assoc]
  have hcontent : contentOf (r.encode ++ rest) = r.content := by
    rw [contentOf, hlength, hlayout, ← hheader, drop_left, take_left]
  have hle : kRecordHeader ≤ r.encode.length := by
    rw [Record.encode, length_append]
    omega
  rw [scan, if_pos (by rw [htotal, length_append]; omega), htype, hcontent, htotal,
    drop_left]

theorem drains_records (records : List Record) :
    Drains scan () (records.flatMap Record.encode)
      ⟨records.map fun r => (r.type, r.content), none, (), []⟩ := by
  induction records with
  | nil => exact .wait rfl
  | cons r records ih =>
    rw [flatMap_cons]
    have hnext := Drains.next (scan_encode r _) ih
    exact hnext

/-- Records that bring a part of the stream. -/
def Record.IsParams (r : Record) : Prop := r.type = FcgiType.kFcgiParams.value

theorem onRecord_params {r : Record} (hr : r.IsParams) (s : State) :
    s.onRecord (r.type, r.content) = s.onParams r.content := by
  rw [State.onRecord, hr]
  rfl

theorem foldl_onRecord (records : List Record) (s : State)
    (h : ∀ r ∈ records, r.IsParams ∧ r.content ≠ []) :
    (records.map fun r => (r.type, r.content)).foldl State.onRecord s =
      { s with paramsStream := s.paramsStream ++ records.flatMap (·.content) } := by
  induction records generalizing s with
  | nil => simp
  | cons r records ih =>
    obtain ⟨htype, hne⟩ := h r mem_cons_self
    rw [map_cons, foldl_cons, onRecord_params htype, State.onParams, if_neg hne,
      ih _ fun r' hr' => h r' (mem_cons_of_mem r hr'), flatMap_cons, append_assoc]

theorem State.parseAllParams_encode {s : State} {pairs : List Pair}
    (h : s.paramsStream = pairs.flatMap Pair.encode) :
    s.parseAllParams = { s with
      paramsStream := [], params := insertAll s.params (pairs.map fun p => (p.name, p.value)) } := by
  have hwait : Drains scanPair () [] ⟨[], none, (), []⟩ := .wait rfl
  have hpairs := drains_encode pairs hwait
  rw [append_nil, append_nil, ← h] at hpairs
  rw [State.parseAllParams, (drains_scanPair s.paramsStream).unique hpairs]

/-- **The parameters of a request.**  When the pairs arrive in Params records, the last of
which is empty, however the records cut the pairs and the reads cut the records, the map has
for each name its last value, and no byte is left.  A stream that ends within a pair is
refused. -/
theorem params_exact (host : ByteOrder) (pairs : List Pair) :
    (∀ (records : List Record) (last : Record) (chunks : List Buffer.CharRange),
      (∀ r ∈ records, r.IsParams ∧ r.content ≠ []) → last.IsParams → last.content = [] →
      records.flatMap (·.content) = pairs.flatMap Pair.encode →
      chunks.flatMap (·.data) = (records ++ [last]).flatMap Record.encode →
      Outcome (fun conn => (∀ name, conn.codec.params.lookup name = lastValue pairs name) ∧
          conn.buf.content = [] ∧ conn.codec.paramsStream.content = [])
        (TooLong (Buffer.kNewVector + ((records ++ [last]).flatMap Record.encode).length))
        (run (Conn.receive host) .create chunks)) ∧
    ∀ (codec : FastCgiCodec) (p : Pair) (t : List UInt8), codec.paramsStream.WF →
      codec.paramsStream.content = pairs.flatMap Pair.encode ++ t →
      t ≠ [] → t <+: p.encode → t ≠ p.encode →
      ∃ codec', codec.parseAllParams host = .ok (false, codec') ∧
        codec'.params = insertAll codec.params (pairs.map fun p => (p.name, p.value)) ∧
        codec'.paramsStream.content <:+ t := by
  constructor
  · intro records last chunks hrecords hlast hempty hstream hchunks
    rw [← hchunks]
    refine (run_receive host chunks).mono (fun conn hread => ?_) fun _ he => he
    obtain ⟨-, d, hd, hrest, hrep⟩ := hread
    rw [hchunks] at hd
    obtain rfl := hd.unique (drains_records (records ++ [last]))
    rw [map_append, foldl_append, foldl_onRecord records _ hrecords, hstream,
      map_singleton, foldl_cons, foldl_nil, onRecord_params hlast, State.onParams,
      if_pos hempty, State.parseAllParams_encode rfl] at hrep
    refine ⟨fun name => ?_, hrest, hrep.paramsStream⟩
    rw [hrep.params]
    exact lookup_insertAll pairs name
  · intro codec p t hwf hcontent hnil hprefix hne
    obtain ⟨rest, hscan, hsuffix⟩ := scanPair_truncated p hnil hprefix hne
    have hd := drains_encode pairs (.stop hscan)
    rw [← hcontent] at hd
    obtain ⟨ps, hparse, -, hps, -⟩ := parseAllParams_spec host hwf hd
    refine ⟨_, hparse, by simp [parsed], ?_⟩
    change ps.content <:+ t
    rwa [hps]

/-- The name `A` with the value `1` and then with the value `2`. -/
def twice : List Pair :=
  [⟨[65], [49], .short, .short, by decide, by decide⟩,
    ⟨[65], [50], .long, .short, by decide, by decide⟩]

/-- The records of `twice`, cut within the first pair. -/
def twiceRecords : List Record :=
  [⟨1, 4, 1, 0, [1, 1, 65], [0, 0, 0, 0, 0], by decide, by decide⟩,
    ⟨1, 4, 1, 0, [49, 128, 0, 0, 1, 1, 65, 50], [], by decide, by decide⟩]

def noParams : Record := ⟨1, 4, 1, 0, [], [], by decide, by decide⟩

/-- A codec that has `1 1 A` of the stream. -/
def halfPair : FastCgiCodec :=
  { FastCgiCodec.create with paramsStream := ⟨[0, 0, 0, 0, 0, 0, 0, 0, 1, 1, 65], 8, 11⟩ }

theorem params_exact_twice :
    Outcome (fun conn => (∀ name, conn.codec.params.lookup name = lastValue twice name) ∧
        conn.buf.content = [] ∧ conn.codec.paramsStream.content = [])
      (TooLong (Buffer.kNewVector + ((twiceRecords ++ [noParams]).flatMap Record.encode).length))
      (run (Conn.receive .little) .create
        [⟨((twiceRecords ++ [noParams]).flatMap Record.encode).take 13, by decide⟩,
          ⟨((twiceRecords ++ [noParams]).flatMap Record.encode).drop 13, by decide⟩]) ∧
    lastValue twice [65] = some [50] ∧
    ∃ codec', halfPair.parseAllParams .little = .ok (false, codec') ∧ codec'.params = ∅ ∧
      codec'.paramsStream.content <:+ [1, 1, 65] :=
  ⟨(params_exact .little twice).1 twiceRecords noParams _ (by simp [twiceRecords, Record.IsParams,
      FcgiType.value]) rfl rfl (by decide) (by decide), by decide,
    (params_exact .little []).2 halfPair ⟨[65], [49], .short, .short, by decide, by decide⟩
      [1, 1, 65] ⟨by decide, by decide, by decide, by decide⟩ rfl (by decide) (by decide)
      (by decide)⟩

end Muduo.FastCgiCodec
