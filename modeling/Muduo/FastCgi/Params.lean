import Mathlib.Data.List.Induction
import Muduo.FastCgi
import Muduo.Lib.Scanner

/-!
# Muduo.FastCgi.Params

The names and the values in the stream of the Params records.
-/

namespace Muduo.FastCgiCodec

open Lib List

abbrev Params := AList fun _ : List UInt8 => List UInt8

/-- The pairs are put into the map one by one. -/
def insertAll (params : Params) (pairs : List (List UInt8 × List UInt8)) : Params :=
  pairs.foldl (fun params p => params.insert p.1 p.2) params

/-! ## reading -/

/-- A length at the front of the stream, and what follows it. -/
def lengthAt : List UInt8 → Option (Nat × List UInt8)
  | [] => none
  | b :: rest =>
    if 128 ≤ b.toNat then
      if 3 ≤ rest.length then some (beValue (b :: rest.take 3) % 2 ^ 31, rest.drop 3) else none
    else some (b.toNat, rest)

/-- The next name and value; the scanner stops when the stream is too short for them. -/
def scanPair (_ : Unit) (bs : List UInt8) : Scan Unit UInt8 (List UInt8 × List UInt8) Unit :=
  if bs = [] then .wait
  else match lengthAt bs with
    | none => .stop () () bs
    | some (nameLen, bs) => match lengthAt bs with
      | none => .stop () () bs
      | some (valueLen, bs) =>
        if nameLen + valueLen ≤ bs.length then
          .next [(bs.take nameLen, (bs.drop nameLen).take valueLen)] ()
            ((bs.drop nameLen).drop valueLen)
        else .stop () () bs

theorem lengthAt_spec {bs rest : List UInt8} {n : Nat} (h : lengthAt bs = some (n, rest)) :
    n < 2 ^ 31 ∧ rest.length < bs.length := by
  cases bs with
  | nil => cases h
  | cons b bs =>
    have hb := b.toNat_lt
    rw [lengthAt] at h
    split_ifs at h with hlong hlen
    · simp only [Option.some.injEq, Prod.mk.injEq] at h
      obtain ⟨rfl, rfl⟩ := h
      rw [length_drop, length_cons]
      exact ⟨Nat.mod_lt _ (by decide), by omega⟩
    · simp only [Option.some.injEq, Prod.mk.injEq] at h
      obtain ⟨rfl, rfl⟩ := h
      exact ⟨by omega, by simp⟩

theorem scanPair_shrinks {s s' : Unit} {bs rest : List UInt8} {out : List (List UInt8 × List UInt8)}
    (h : scanPair s bs = .next out s' rest) : rest.length < bs.length := by
  unfold scanPair at h
  split_ifs at h with hnil
  split at h
  next => cases h
  next hname =>
    split at h
    next => cases h
    next hvalue =>
      split_ifs at h
      obtain ⟨-, hlt⟩ := lengthAt_spec hname
      obtain ⟨-, hlt'⟩ := lengthAt_spec hvalue
      simp only [Scan.next.injEq] at h
      rw [← h.2.2, length_drop, length_drop]
      omega

variable {bs : List UInt8} {codec : FastCgiCodec}

theorem scanPair_eq_wait {s : Unit} : scanPair s bs = .wait ↔ bs = [] := by
  refine ⟨fun h => ?_, fun h => by rw [h]; rfl⟩
  by_contra hne
  rw [scanPair, if_neg hne] at h
  split at h
  next => cases h
  next =>
    split at h
    next => cases h
    next => split_ifs at h

theorem drains_scanPair (bs : List UInt8) :
    Drains scanPair () bs (drain scanPair (bs.length + 1) () bs) :=
  drains_drain (I := fun _ => True) (fun _ h => ⟨trivial, scanPair_shrinks h⟩) trivial
    (Nat.lt_succ_self _)

/-! ## `readLen` -/

section
variable {ps : Buffer}

theorem high_bit_iff (x : BitVec 8) : x &&& 0x80#8 ≠ 0#8 ↔ 128 ≤ x.toNat := by
  revert x
  decide

theorem toNat_low_bits (x : BitVec 32) : (x &&& 0x7fffffff#32).toNat = x.toNat % 2 ^ 31 := by
  rw [BitVec.toNat_and]
  exact Nat.and_two_pow_sub_one_eq_mod _ 31

theorem toNat_signExtend_of_low {x : BitVec 8} (h : x.toNat < 128) :
    (x.signExtend 32).toNat = x.toNat := by
  have hmsb : x.msb = false := by
    rw [BitVec.msb_eq_decide]
    simpa using h
  rw [BitVec.signExtend_eq_setWidth_of_msb_false hmsb, BitVec.toNat_setWidth]
  omega

/-- What `readLen` returns for a length on the stream, or without one. -/
def ReadLen (ps : Buffer) (len : BitVec 32) (ps' : Buffer) : Prop :=
  match lengthAt ps.content with
  | none => len = -1 ∧ ps' = ps
  | some (n, rest) => len.toNat = n ∧ ps'.WF ∧ ps'.content = rest ∧ ps'.buffer = ps.buffer

/-- **`readLen`** reads the length at the front of the stream. -/
theorem readLen_spec (host : ByteOrder) (h : ps.WF) :
    ∃ len ps', readLen host ps = .ok (len, ps') ∧ ReadLen ps len ps' := by
  have hlen := h.readableBytes_eq_length
  unfold ReadLen
  cases hcontent : ps.content with
  | nil =>
    refine ⟨-1, ps, ?_, rfl, rfl⟩
    rw [readLen, hlen, hcontent, if_neg (by simp)]
  | cons b rest =>
    rw [hcontent, length_cons] at hlen
    have hb := b.toNat_lt
    have hbyte : (BitVec.ofNat 8 b.toNat).toNat = b.toNat := by
      rw [BitVec.toNat_ofNat, Nat.mod_eq_of_lt hb]
    have hone : Buffer.IntType.int8.size ≤ ps.content.length := by
      simp [hcontent, Buffer.IntType.size]
    have hvalue : Buffer.netValue host .int8 (ps.content.take Buffer.IntType.int8.size) =
        BitVec.ofNat 8 b.toNat := by
      rw [hcontent, Buffer.netValue_eq host .int8 (by rfl)]
      rfl
    have hpeek := h.peekInt_eq host .int8 hone
    rw [hvalue] at hpeek
    rw [readLen, hlen, if_pos (by omega), hpeek]
    simp only [bind, Except.bind]
    by_cases hlong : 128 ≤ b.toNat
    · rw [if_pos ((high_bit_iff _).mpr (by rwa [hbyte])), lengthAt, if_pos hlong]
      by_cases hfour : 3 ≤ rest.length
      · obtain ⟨ps', hread, hwf, hps', hbuffer⟩ :=
          Buffer.readInt_spec h host .int32 (by simp [hcontent, Buffer.IntType.size]; omega)
        rw [if_pos (by omega), if_pos hfour, Buffer.readInt32, hread]
        refine ⟨_, _, rfl, ?_, hwf, ?_, hbuffer⟩
        · rw [hcontent, Buffer.netValue_eq host .int32 (by simp [Buffer.IntType.size]; omega)]
          refine (toNat_low_bits (BitVec.ofNat 32 (beValue (b :: rest.take 3)))).trans ?_
          rw [BitVec.toNat_ofNat]
          exact Nat.mod_mod_of_dvd _ (by decide)
        · rw [hps', hcontent]
          rfl
      · rw [if_neg (by omega), if_neg hfour]
        exact ⟨_, _, rfl, rfl, rfl⟩
    · obtain ⟨ps', hread, hwf, hps', hbuffer⟩ := Buffer.readInt_spec h host .int8 hone
      rw [if_neg ((high_bit_iff _).not.mpr (by rwa [hbyte])), lengthAt, if_neg hlong,
        Buffer.readInt8, hread, hvalue]
      refine ⟨_, _, rfl, ?_, hwf, ?_, hbuffer⟩
      · exact (toNat_signExtend_of_low (by rw [hbyte]; omega)).trans hbyte
      · rw [hps', hcontent]
        rfl

theorem ne_neg_one {x : BitVec 32} (h : x.toNat < 2 ^ 31) : x ≠ -1 := by
  rintro rfl
  exact absurd h (by decide)

/-- What `readPair` makes of the stream. -/
def ReadPair (ps : Buffer) (r : Option (List UInt8 × List UInt8) × Buffer) : Prop :=
  r.2.WF ∧ r.2.buffer = ps.buffer ∧ match scanPair () ps.content with
    | .wait => True
    | .next out _ rest => r.1.toList = out ∧ r.1.isSome ∧ r.2.content = rest
    | .stop _ _ rest => r.1 = none ∧ r.2.content = rest

/-- **`readPair`** does what the scanner does. -/
theorem readPair_spec (host : ByteOrder) (h : ps.WF) (hne : ps.content ≠ []) :
    ∃ r, readPair host ps = .ok r ∧ ReadPair ps r := by
  obtain ⟨nameLen, ps₁, hname, hread⟩ := readLen_spec host h
  unfold readPair ReadPair scanPair
  rw [hname, if_neg hne]
  unfold ReadLen at hread
  simp only [bind, Except.bind]
  cases hat : lengthAt ps.content with
  | none =>
    rw [hat] at hread
    obtain ⟨rfl, rfl⟩ := hread
    exact ⟨_, rfl, h, rfl, rfl, rfl⟩
  | some r =>
    rw [hat] at hread
    obtain ⟨hn, hwf₁, hps₁, hbuffer₁⟩ := hread
    have hlt := (lengthAt_spec hat).1
    rw [if_neg (ne_neg_one (by rwa [hn]))]
    obtain ⟨valueLen, ps₂, hvalue, hread⟩ := readLen_spec host hwf₁
    unfold ReadLen at hread
    rw [hvalue]
    simp only [← hps₁]
    cases hat' : lengthAt ps₁.content with
    | none =>
      rw [hat'] at hread
      obtain ⟨rfl, rfl⟩ := hread
      exact ⟨_, rfl, hwf₁, hbuffer₁, rfl, rfl⟩
    | some r' =>
      rw [hat'] at hread
      obtain ⟨hm, hwf₂, hps₂, hbuffer₂⟩ := hread
      have hlt' := (lengthAt_spec hat').1
      have hsum : (nameLen + valueLen).toNat = r.1 + r'.1 := by
        rw [BitVec.toNat_add, hn, hm]
        omega
      simp only [if_neg (ne_neg_one (x := valueLen) (by rwa [hm])), hsum,
        hwf₂.readableBytes_eq_length, ← hps₂]
      by_cases hfits : r.1 + r'.1 ≤ ps₂.content.length
      · obtain ⟨ps₃, hstr, hwf₃, hps₃, hbuffer₃⟩ :=
          Buffer.retrieveAsString_spec hwf₂ (by omega : r.1 ≤ ps₂.content.length)
        obtain ⟨ps₄, hstr', hwf₄, hps₄, hbuffer₄⟩ :=
          Buffer.retrieveAsString_spec hwf₃
            (by rw [hps₃, length_drop]; omega : r'.1 ≤ ps₃.content.length)
        rw [hps₃] at hstr' hps₄
        simp only [if_pos hfits, hn, hm, hstr, hstr']
        exact ⟨_, rfl, hwf₄, hbuffer₄.trans (hbuffer₃.trans (hbuffer₂.trans hbuffer₁)), rfl,
          rfl, hps₄⟩
      · simp only [if_neg hfits]
        exact ⟨_, rfl, hwf₂, hbuffer₂.trans hbuffer₁, rfl, rfl⟩

end

/-! ## `parseAllParams` -/

/-- The codec after `parseAllParams` has put `pairs` into the map and left `ps` of the stream. -/
def parsed (codec : FastCgiCodec) (pairs : List (List UInt8 × List UInt8)) (ps : Buffer) :
    FastCgiCodec :=
  { codec with paramsStream := ps, params := insertAll codec.params pairs }

variable {d : Drained Unit UInt8 (List UInt8 × List UInt8) Unit} {t : List UInt8}

theorem parseAllParamsLoop_spec (host : ByteOrder) {s : Unit}
    (hd : Drains scanPair s bs d) {fuel : Nat} (hfuel : bs.length < fuel)
    (h : codec.paramsStream.WF) (hbs : codec.paramsStream.content = bs) :
    ∃ ps, parseAllParamsLoop host fuel codec = .ok (d.result.isNone, codec.parsed d.out ps) ∧
      ps.WF ∧ ps.content = d.rest ∧ ps.buffer = codec.paramsStream.buffer := by
  obtain ⟨fuel, rfl⟩ : ∃ n, fuel = n + 1 := ⟨fuel - 1, by omega⟩
  have hlen := h.readableBytes_eq_length
  induction hd generalizing fuel codec with
  | wait hscan =>
    obtain rfl := scanPair_eq_wait.mp hscan
    refine ⟨codec.paramsStream, ?_, h, hbs, rfl⟩
    rw [parseAllParamsLoop, hlen, hbs, if_neg (by simp)]
    rfl
  | @stop s s' bs rest r hscan =>
    have hne : bs ≠ [] := fun hnil => nomatch (scanPair_eq_wait.mpr hnil).symm.trans hscan
    obtain ⟨⟨pair, ps⟩, hread, hwf, hbuffer, hpair⟩ := readPair_spec host h (hbs ▸ hne)
    rw [hbs, hscan] at hpair
    obtain ⟨rfl, hps⟩ := hpair
    refine ⟨ps, ?_, hwf, hps, hbuffer⟩
    rw [parseAllParamsLoop, hlen, hbs, if_pos (length_pos_iff.mpr hne), hread]
    rfl
  | @next s s' bs rest out d hscan _ ih =>
    have hne : bs ≠ [] := fun hnil => nomatch (scanPair_eq_wait.mpr hnil).symm.trans hscan
    have hlt := scanPair_shrinks hscan
    obtain ⟨⟨pair, ps⟩, hread, hwf, hbuffer, hpair⟩ := readPair_spec host h (hbs ▸ hne)
    rw [hbs, hscan] at hpair
    obtain ⟨rfl, hsome, hps⟩ := hpair
    obtain ⟨p, rfl⟩ := Option.isSome_iff_exists.mp hsome
    obtain ⟨fuel, rfl⟩ : ∃ n, fuel = n + 1 := ⟨fuel - 1, by omega⟩
    let codec' : FastCgiCodec :=
      { codec with paramsStream := ps, params := codec.params.insert p.1 p.2 }
    have hcodec' : codec'.paramsStream.WF := hwf
    obtain ⟨ps', hloop, hwf', hps', hbuffer'⟩ :=
      ih hcodec' hps fuel (by omega) hwf.readableBytes_eq_length
    refine ⟨ps', ?_, hwf', hps', hbuffer'.trans hbuffer⟩
    rw [parseAllParamsLoop, hlen, hbs, if_pos (length_pos_iff.mpr hne), hread]
    exact hloop

/-- **`parseAllParams`** drains the stream.  It returns whether there is no more than pairs. -/
theorem parseAllParams_spec (host : ByteOrder) (h : codec.paramsStream.WF)
    (hd : Drains scanPair () codec.paramsStream.content d) :
    ∃ ps, codec.parseAllParams host = .ok (d.result.isNone, codec.parsed d.out ps) ∧
      ps.WF ∧ ps.content = d.rest ∧ ps.buffer = codec.paramsStream.buffer := by
  rw [parseAllParams, h.readableBytes_eq_length]
  exact parseAllParamsLoop_spec host hd (Nat.lt_succ_self _) h rfl

/-! ## encoding -/

/-- The two forms of a length. -/
inductive Form
  | short
  | long
deriving DecidableEq, Repr

def Form.Fits : Form → Nat → Prop
  | .short, n => n < 128
  | .long, n => n < 2 ^ 31

instance (form : Form) (n : Nat) : Decidable (form.Fits n) :=
  match form with
  | .short => inferInstanceAs (Decidable (_ < _))
  | .long => inferInstanceAs (Decidable (_ < _))

/-- A byte, or four bytes with the first bit set. -/
def Form.encode : Form → Nat → List UInt8
  | .short, n => [UInt8.ofNat n]
  | .long, n => beBytes 4 (2 ^ 31 + n)

structure Pair where
  name : List UInt8
  value : List UInt8
  nameForm : Form
  valueForm : Form
  name_fits : nameForm.Fits name.length
  value_fits : valueForm.Fits value.length

def Pair.encode (p : Pair) : List UInt8 :=
  p.nameForm.encode p.name.length ++ (p.valueForm.encode p.value.length ++ (p.name ++ p.value))

section
variable {form : Form} {n : Nat}

theorem Form.encode_long (n : Nat) (hn : n < 2 ^ 31) :
    ∃ b rest, Form.long.encode n = b :: rest ∧ 128 ≤ b.toNat ∧ rest.length = 3 := by
  refine ⟨_, _, rfl, ?_, rfl⟩
  simp only [UInt8.toNat_ofNat']
  omega

theorem lengthAt_encode (h : form.Fits n) (rest : List UInt8) :
    lengthAt (form.encode n ++ rest) = some (n, rest) := by
  cases form with
  | short =>
    have hn : n < 128 := h
    have hbyte : (UInt8.ofNat n).toNat = n := by
      rw [UInt8.toNat_ofNat']
      omega
    rw [Form.encode, singleton_append, lengthAt, hbyte, if_neg (by omega)]
  | long =>
    have hn : n < 2 ^ 31 := h
    have hvalue : beValue (Form.long.encode n) = 2 ^ 31 + n := beValue_beBytes (by omega)
    obtain ⟨b, tail, heq, hb, htail⟩ := Form.encode_long n hn
    rw [heq] at hvalue
    rw [heq, cons_append, lengthAt, if_pos hb, if_pos (by rw [length_append]; omega),
      take_left' htail, drop_left' htail, hvalue]
    congr 2
    omega

theorem lengthAt_truncated (h : form.Fits n) (ht : t <+: form.encode n)
    (hne : t ≠ form.encode n) : lengthAt t = none := by
  cases t with
  | nil => rfl
  | cons b t =>
    cases form with
    | short =>
      obtain ⟨rfl, rfl⟩ : b = UInt8.ofNat n ∧ t = [] := by
        simpa [Form.encode, cons_prefix_cons] using ht
      exact absurd rfl hne
    | long =>
      obtain ⟨b', tail, heq, hb, htail⟩ := Form.encode_long n h
      rw [heq, cons_prefix_cons] at ht
      obtain ⟨rfl, hprefix⟩ := ht
      have hlt : t.length < 3 := by
        refine htail ▸ Nat.lt_of_le_of_ne hprefix.length_le fun hlen => hne ?_
        rw [heq, hprefix.eq_of_length hlen]
      rw [lengthAt, if_pos hb, if_neg (by omega)]

end

section
variable (p : Pair)

theorem Pair.encode_ne_nil : p.encode ≠ [] := by
  unfold Pair.encode
  cases p.nameForm <;> simp [Form.encode, beBytes, leBytes]

theorem scanPair_encode (rest : List UInt8) :
    scanPair () (p.encode ++ rest) = .next [(p.name, p.value)] () rest := by
  have hne : p.encode ++ rest ≠ [] := by simp [p.encode_ne_nil]
  rw [scanPair, if_neg hne, Pair.encode, append_assoc, lengthAt_encode p.name_fits]
  dsimp only
  rw [append_assoc, lengthAt_encode p.value_fits]
  dsimp only
  rw [if_pos (by simp only [length_append]; omega), append_assoc, take_left,
    drop_left, take_left, drop_left]

/-- **A pair that is cut short** stops the scanner. -/
theorem scanPair_truncated (hnil : t ≠ []) (ht : t <+: p.encode)
    (hne : t ≠ p.encode) : ∃ rest, scanPair () t = .stop () () rest ∧ rest <:+ t := by
  rw [scanPair, if_neg hnil]
  obtain ⟨hname, hname'⟩ | ⟨t₁, rfl, ht₁⟩ := prefix_append_cases ht
  · rw [lengthAt_truncated p.name_fits hname hname']
    exact ⟨t, rfl, suffix_refl t⟩
  rw [lengthAt_encode p.name_fits]
  dsimp only
  obtain ⟨hvalue, hvalue'⟩ | ⟨t₂, rfl, ht₂⟩ := prefix_append_cases ht₁
  · rw [lengthAt_truncated p.value_fits hvalue hvalue']
    exact ⟨t₁, rfl, suffix_append _ _⟩
  rw [lengthAt_encode p.value_fits]
  have hlt : t₂.length < p.name.length + p.value.length := by
    rw [← length_append]
    refine Nat.lt_of_le_of_ne ht₂.length_le fun hlen => hne ?_
    rw [Pair.encode, ht₂.eq_of_length hlen]
  dsimp only
  rw [if_neg (by omega)]
  exact ⟨t₂, rfl, (suffix_append _ _).trans (suffix_append _ _)⟩

end

/-- **A stream of pairs**, followed by anything. -/
theorem drains_encode (pairs : List Pair) (hd : Drains scanPair () t d) :
    Drains scanPair () (pairs.flatMap Pair.encode ++ t)
      { d with out := pairs.map (fun p => (p.name, p.value)) ++ d.out } := by
  induction pairs with
  | nil => exact hd
  | cons p pairs ih =>
    rw [flatMap_cons, append_assoc]
    have hnext := Drains.next (scanPair_encode p _) ih
    exact hnext

/-! ## the map -/

/-- The value of the last pair with the name. -/
def lastValue (pairs : List Pair) (name : List UInt8) : Option (List UInt8) :=
  (pairs.reverse.find? (·.name = name)).map (·.value)

theorem lookup_insertAll (pairs : List Pair) (name : List UInt8) :
    (insertAll ∅ (pairs.map fun p => (p.name, p.value))).lookup name = lastValue pairs name := by
  induction pairs using List.reverseRecOn with
  | nil => rfl
  | append_singleton pairs p ih =>
    rw [insertAll] at ih ⊢
    rw [map_append, foldl_append, lastValue, reverse_append]
    by_cases hname : p.name = name
    · simp [hname]
    · simp [hname, AList.lookup_insert_ne (Ne.symm hname), ih, lastValue]

end Muduo.FastCgiCodec
