import Muduo.UnsignedInt.Exact

/-!
# Muduo.UnsignedInt.Parse

The numbers that the constructors read from strings of digits.
-/

namespace Muduo.UnsignedInt

open Lib List

/-! ## digits -/

def DecDigit (c : Char) : Prop := inRange '0' '9' c

def HexDigit (c : Char) : Prop := DecDigit c ∨ inRange 'a' 'f' c ∨ inRange 'A' 'F' c

instance (c : Char) : Decidable (DecDigit c) := inferInstanceAs (Decidable (inRange _ _ _))

instance (c : Char) : Decidable (HexDigit c) := inferInstanceAs (Decidable (_ ∨ _))

/-- The number that a string of digits stands for, when `digit` gives the digits. -/
def number (b : Nat) (digit : Char → UInt32) (str : List Char) : Nat :=
  Nat.ofDigits b (str.map fun c => (digit c).toNat).reverse

section
variable {b : Nat} {digit : Char → UInt32} {str : List Char}

theorem number_append (b : Nat) (digit : Char → UInt32) (str rest : List Char) :
    number b digit (str ++ rest) = number b digit str * b ^ rest.length + number b digit rest := by
  simp only [number, map_append, reverse_append, Nat.ofDigits_append, length_reverse,
    length_map]
  ring

theorem number_singleton (c : Char) : number b digit [c] = (digit c).toNat := by
  simp [number]

theorem number_lt (hb : 1 < b) (hdigit : ∀ c ∈ str, (digit c).toNat < b) :
    number b digit str < b ^ str.length := by
  have hlt := Nat.ofDigits_lt_base_pow_length hb
    (l := (str.map fun c => (digit c).toNat).reverse) (by simpa using hdigit)
  simpa [number] using hlt

theorem number_ne_zero_iff (hb : 0 < b) : number b digit str ≠ 0 ↔ ∃ c ∈ str, digit c ≠ 0 := by
  constructor
  · intro hne
    by_contra hall
    push Not at hall
    have hzero : (str.map fun c => (digit c).toNat).reverse = List.replicate str.length 0 := by
      rw [eq_replicate_iff]
      simpa using fun c hc => congrArg UInt32.toNat (hall c hc)
    rw [number, hzero, Nat.ofDigits_replicate_zero] at hne
    exact hne rfl
  · intro hex hzero
    obtain ⟨c, hc, hne⟩ := hex
    have hdigits := Nat.digits_zero_of_eq_zero hb.ne' hzero (digit c).toNat
      (by simpa using ⟨c, hc, rfl⟩)
    exact hne (UInt32.toNat_inj.mp hdigits)

end

theorem toNat_sub_of_inRange {lo hi c : Char} (h : inRange lo hi c) :
    (c.val - lo.val).toNat = c.toNat - lo.toNat :=
  UInt32.toNat_sub_of_le _ _ (UInt32.le_iff_toNat_le.mpr h.1)

variable {c : Char} {a : UnsignedInt} {v : Nat} {limbs : List UInt32}

theorem fromDec_spec (h : DecDigit c) : (fromDec c).toNat < 10 ∧ (fromDec c ≠ 0 ↔ c ≠ '0') := by
  have hlo : 48 ≤ c.toNat := h.1
  have hhi : c.toNat ≤ 57 := h.2
  have hval : (fromDec c).toNat = c.toNat - 48 := by
    rw [fromDec, if_pos (show inRange '0' '9' c from h), toNat_sub_of_inRange h]
    rfl
  have hzero : fromDec c = 0 ↔ c = '0' := by
    rw [← UInt32.toNat_inj, hval, ← Char.toNat_inj]
    change c.toNat - 48 = 0 ↔ c.toNat = 48
    omega
  exact ⟨by omega, not_congr hzero⟩

theorem fromHex_letter (h : HexDigit c) (hdec : ¬ DecDigit c) :
    ∃ d : UInt32, fromHex c = d + 10 ∧ d.toNat ≤ 5 := by
  unfold fromHex
  rw [if_neg (show ¬ inRange '0' '9' c from hdec)]
  by_cases hlow : inRange 'a' 'f' c
  · refine ⟨c.val - 'a'.val, if_pos hlow, ?_⟩
    have hlo : 97 ≤ c.toNat := hlow.1
    have hhi : c.toNat ≤ 102 := hlow.2
    rw [toNat_sub_of_inRange hlow]
    change c.toNat - 97 ≤ 5
    omega
  · have hup := (h.resolve_left hdec).resolve_left hlow
    refine ⟨c.val - 'A'.val, by rw [if_neg hlow, if_pos hup], ?_⟩
    have hlo : 65 ≤ c.toNat := hup.1
    have hhi : c.toNat ≤ 70 := hup.2
    rw [toNat_sub_of_inRange hup]
    change c.toNat - 65 ≤ 5
    omega

theorem fromHex_spec (h : HexDigit c) : (fromHex c).toNat < 16 ∧ (fromHex c ≠ 0 ↔ c ≠ '0') := by
  by_cases hdec : DecDigit c
  · have heq : fromHex c = fromDec c := by
      unfold fromHex fromDec
      rw [if_pos (show inRange '0' '9' c from hdec), if_pos (show inRange '0' '9' c from hdec)]
    have hspec := fromDec_spec hdec
    rw [heq]
    exact ⟨by omega, hspec.2⟩
  · obtain ⟨d, hd, hle⟩ := fromHex_letter h hdec
    have hten : (d + 10).toNat = d.toNat + 10 := by
      rw [UInt32.toNat_add]
      exact Nat.mod_eq_of_lt (by simp; omega)
    have hne : c ≠ '0' := by
      rintro rfl
      exact hdec (by decide)
    have hpos : d + 10 ≠ 0 := by
      intro h
      rw [h] at hten
      simp at hten
    rw [hd]
    exact ⟨by omega, iff_of_true hpos hne⟩

/-! ## decimal strings -/

theorem parseSegment_spec {str : List Char} (hdec : ∀ c ∈ str, DecDigit c)
    (hlen : str.length ≤ kSegmentDigits) : (parseSegment str).toNat = number 10 fromDec str := by
  induction str using List.reverseRecOn with
  | nil => rfl
  | append_singleton str c ih =>
    have hinit : ∀ c ∈ str, DecDigit c := fun d hd => hdec d (by simp [hd])
    simp only [length_append, length_singleton] at hlen
    have hseg := ih hinit (by omega)
    have hlt := number_lt (b := 10) (by decide) fun d hd => (fromDec_spec (hinit d hd)).1
    have hpow : 10 ^ str.length ≤ 10 ^ 8 :=
      Nat.pow_le_pow_right (by decide) (by unfold kSegmentDigits at hlen; omega)
    have hc := (fromDec_spec (hdec c (by simp))).1
    have hfold : parseSegment (str ++ [c]) = parseSegment str * 10 + fromDec c := by
      simp [parseSegment]
    rw [hfold, number_append, number_singleton, UInt32.toNat_add, UInt32.toNat_mul, hseg]
    simp only [length_singleton, Nat.pow_one, UInt32.reduceToNat]
    omega

/-- What `parseDec` has read: a zero may have one limb too many. -/
structure Parsed (a : UnsignedInt) (v : Nat) : Prop where
  val_eq : a.val = v
  normal : v ≠ 0 → a.isNormal = true
  zero : v = 0 → a.limbs = [] ∨ a.limbs = [0]

theorem Parsed.multiplyWord (h : Parsed a v) :
    ∃ r, a.multiplyWord kSegment = .ok r ∧ Parsed r (v * 10 ^ 9) := by
  by_cases hv : v = 0
  · refine ⟨a, ?_, by simpa [hv] using h⟩
    obtain ⟨limbs⟩ := a
    rcases h.zero hv with hnil | hzero
    · obtain rfl : limbs = [] := hnil
      decide
    · obtain rfl : limbs = [0] := hzero
      decide
  · obtain ⟨r, hr, hval, hnormal⟩ := multiplyWord_spec a kSegment
    refine ⟨r, hr, hval.trans (by rw [h.val_eq]; rfl), fun _ => hnormal (h.normal hv), fun hz => ?_⟩
    simp [hv] at hz

/-- After a segment there is a limb in any case. -/
theorem Parsed.addWord (h : Parsed a v) (x : UInt32) :
    ∃ r, a.addWord x = .ok r ∧ Parsed r (v + x.toNat) ∧ r.limbs ≠ [] := by
  by_cases hv : v = 0
  · refine ⟨⟨[x]⟩, ?_, ⟨?_, fun hne => ?_, fun hz => ?_⟩, by simp⟩
    · obtain ⟨limbs⟩ := a
      rcases h.zero hv with hnil | hzero
      · obtain rfl : limbs = [] := hnil
        rfl
      · obtain rfl : limbs = [0] := hzero
        have hx := toNat_lt_base x
        have hexact := exact64_of_lt (show x.toNat < 2 ^ 64 by unfold base at hx; omega)
        have hcarry : carryOf x.toNat = 0 := by
          unfold carryOf kMask
          unfold base at hx
          rw [if_neg (by omega)]
        simp [UnsignedInt.addWord, hexact, ok_bind, hcarry, addCarry, pushCarry, pure, Except.pure]
    · simp [val, value_singleton, hv]
    · simpa [isNormal, isZero, hv, ← UInt32.toNat_inj] using hne
    · have hx : x = 0 := UInt32.toNat_inj.mp (by simpa [hv] using hz)
      exact .inr (by rw [hx])
  · obtain ⟨r, hr, hval, hnormal⟩ := addWord_spec a x
    have hpos : v + x.toNat ≠ 0 := by omega
    have hzero : a.isZero = false := by
      rw [← Bool.not_eq_true, val_eq_zero_iff (h.normal hv), h.val_eq]
      exact hv
    have hrn := (hnormal (h.normal hv)).mpr (.inr hzero)
    refine ⟨r, hr, ⟨by rw [hval, h.val_eq], fun _ => hrn, fun hz => absurd hz hpos⟩, fun hnil => ?_⟩
    rw [h.val_eq, val, hnil] at hval
    exact hpos hval.symm

theorem parseDecLoop_spec {str : List Char} (hdec : ∀ c ∈ str, DecDigit c)
    (hdvd : kSegmentDigits ∣ str.length) (ha : Parsed a v) :
    ∃ r, parseDecLoop str a = .ok r ∧
      Parsed r (v * 10 ^ str.length + number 10 fromDec str) ∧
      (str ≠ [] ∨ a.limbs ≠ [] → r.limbs ≠ []) := by
  obtain ⟨n, hn⟩ := hdvd
  induction n generalizing str a v with
  | zero =>
    obtain rfl : str = [] := length_eq_zero_iff.mp (by simpa using hn)
    refine ⟨a, by simp [parseDecLoop], by simpa [number] using ha, by simp⟩
  | succ n ih =>
    have hlen : kSegmentDigits ≤ str.length := by
      rw [hn, Nat.mul_succ]
      exact Nat.le_add_left _ _
    have hne : str ≠ [] := by
      rintro rfl
      simp [kSegmentDigits] at hlen
    have htake : (str.take kSegmentDigits).length = kSegmentDigits := by
      rw [length_take]
      omega
    have hdrop : (str.drop kSegmentDigits).length = kSegmentDigits * n := by
      rw [length_drop, hn, Nat.mul_succ]
      omega
    obtain ⟨m, hm, hparsed⟩ := ha.multiplyWord
    obtain ⟨s, hs, hsparsed, hsne⟩ := hparsed.addWord (parseSegment (str.take kSegmentDigits))
    obtain ⟨r, hr, hrparsed, hrne⟩ :=
      ih (fun c hc => hdec c (mem_of_mem_drop hc)) hsparsed hdrop
    refine ⟨r, ?_, ?_, fun _ => hrne (.inr hsne)⟩
    · rw [parseDecLoop, dif_neg hne, check_of hlen, ok_bind]
      simp only [hm, ok_bind, hs, hr]
    · have hsplit := number_append 10 fromDec (str.take kSegmentDigits)
        (str.drop kSegmentDigits)
      rw [take_append_drop] at hsplit
      rw [parseSegment_spec (fun c hc => hdec c (mem_of_mem_take hc)) htake.le] at hrparsed
      have hpow : 10 ^ str.length = 10 ^ 9 * 10 ^ (str.drop kSegmentDigits).length := by
        rw [← Nat.pow_add, hdrop, hn, Nat.mul_succ]
        unfold kSegmentDigits
        congr 1
        omega
      have hval : v * 10 ^ str.length + number 10 fromDec str =
          (v * 10 ^ 9 + number 10 fromDec (str.take kSegmentDigits)) *
            10 ^ (str.drop kSegmentDigits).length +
          number 10 fromDec (str.drop kSegmentDigits) := by
        rw [hsplit, hpow]
        ring
      rw [hval]
      exact hrparsed

theorem parsed_zero : Parsed ⟨[]⟩ 0 := ⟨rfl, fun _ => rfl, fun _ => .inl rfl⟩

theorem parseDec_parsed {str : List Char} (hne : str ≠ []) (hdec : ∀ c ∈ str, DecDigit c) :
    ∃ r, parseDec str = .ok r ∧ Parsed r (number 10 fromDec str) ∧ r.limbs ≠ [] := by
  have hmod : str.length % kSegmentDigits < kSegmentDigits := Nat.mod_lt _ (by decide)
  have hmodle : str.length % kSegmentDigits ≤ str.length := Nat.mod_le _ _
  have hdvd : kSegmentDigits ∣ (str.drop (str.length % kSegmentDigits)).length := by
    rw [length_drop]
    exact Nat.dvd_sub_mod _
  have hrest : ∀ c ∈ str.drop (str.length % kSegmentDigits), DecDigit c :=
    fun c hc => hdec c (mem_of_mem_drop hc)
  by_cases hfirst : str.length % kSegmentDigits = 0
  · obtain ⟨r, hr, hparsed, hrne⟩ := parseDecLoop_spec hrest hdvd parsed_zero
    rw [hfirst, drop_zero] at hr hparsed hrne
    refine ⟨r, ?_, by simpa using hparsed, hrne (.inl hne)⟩
    simp only [parseDec, hfirst, if_true, drop_zero, ok_bind]
    exact hr
  · have htake : (str.take (str.length % kSegmentDigits)).length ≤ kSegmentDigits := by
      rw [length_take]
      omega
    obtain ⟨s, hs, hsparsed, hsne⟩ :=
      parsed_zero.addWord (parseSegment (str.take (str.length % kSegmentDigits)))
    obtain ⟨r, hr, hparsed, hrne⟩ := parseDecLoop_spec hrest hdvd hsparsed
    refine ⟨r, ?_, ?_, hrne (.inr hsne)⟩
    · simp only [parseDec, if_neg hfirst, hs, ok_bind]
      exact hr
    · rw [parseSegment_spec (fun c hc => hdec c (mem_of_mem_take hc)) htake, Nat.zero_add,
        ← number_append, take_append_drop] at hparsed
      exact hparsed

/-- **Decimal strings.** A string of zeros only gives a number with the limb zero. -/
theorem parseDec_spec {str : List Char} (hne : str ≠ []) (hdec : ∀ c ∈ str, DecDigit c) :
    ∃ r, parseDec str = .ok r ∧ r.val = number 10 fromDec str ∧
      (r.isNormal = true ↔ ∃ c ∈ str, c ≠ '0') := by
  obtain ⟨r, hr, hparsed, hrne⟩ := parseDec_parsed hne hdec
  have hdigits : (∃ c ∈ str, c ≠ '0') ↔ number 10 fromDec str ≠ 0 := by
    rw [number_ne_zero_iff (by decide)]
    exact exists_congr fun c => and_congr_right fun hc => (fromDec_spec (hdec c hc)).2.symm
  refine ⟨r, hr, hparsed.val_eq, ?_⟩
  rw [hdigits]
  refine ⟨fun hnormal hzero => ?_, hparsed.normal⟩
  have hlimbs := (hparsed.zero hzero).resolve_left hrne
  simp [isNormal, isZero, hlimbs] at hnormal

/-! ## hexadecimal strings -/

theorem base_pow (n : Nat) : base ^ n = 16 ^ (8 * n) := by
  rw [Nat.pow_mul]
  rfl

/-- A digit is put above the digits that a limb already has. -/
theorem toNat_or_shiftLeft {l d : UInt32} {k : Nat} (hk : k < 8) (hl : l.toNat < 16 ^ k)
    (hd : d.toNat < 16) : (l ||| d <<< .ofNat (4 * k)).toNat = l.toNat + 16 ^ k * d.toNat := by
  have hpow : (16 : Nat) ^ k = 2 ^ (4 * k) := by rw [Nat.pow_mul]
  have hshift : (UInt32.ofNat (4 * k)).toNat % 32 = 4 * k := by
    rw [UInt32.toNat_ofNat_of_lt' (by simp [UInt32.size]; omega)]
    omega
  have hfits : d.toNat <<< (4 * k) < 2 ^ 32 := by
    rw [Nat.shiftLeft_eq]
    calc d.toNat * 2 ^ (4 * k) < 2 ^ 4 * 2 ^ (4 * k) := by
          exact Nat.mul_lt_mul_of_pos_right hd (Nat.pow_pos (by decide))
      _ = 2 ^ (4 + 4 * k) := by rw [← Nat.pow_add]
      _ ≤ 2 ^ 32 := Nat.pow_le_pow_right (by decide) (by omega)
  rw [UInt32.toNat_or, UInt32.toNat_shiftLeft, hshift, Nat.mod_eq_of_lt hfits, Nat.or_comm,
    ← Nat.shiftLeft_add_eq_or_of_lt (hpow ▸ hl), Nat.shiftLeft_eq, hpow]
  ring

theorem orBack_concat (init : List UInt32) (l x : UInt32) :
    orBack (init ++ [l]) x = .ok (init ++ [l ||| x]) := by
  simp [orBack]

/-- The limb that the next digit goes to: a new one at every eighth digit. -/
theorem exists_last_limb {i : Nat} (hlen : limbs.length = (i + 7) / 8)
    (hlt : value limbs < 16 ^ i) :
    ∃ init l, (if i % 8 = 0 then limbs ++ [0] else limbs) = init ++ [l] ∧ init.length = i / 8 ∧
      l.toNat < 16 ^ (i % 8) ∧ value (init ++ [l]) = value limbs := by
  by_cases hi : i % 8 = 0
  · exact ⟨limbs, 0, if_pos hi, by omega, by simp [hi], by simp [value_append, value_singleton]⟩
  · rcases eq_nil_or_concat limbs with rfl | ⟨init, l, rfl⟩
    · simp at hlen
      omega
    · have hinit : init.length = i / 8 := by
        simp at hlen
        omega
      refine ⟨init, l, by rw [if_neg hi, concat_eq_append], hinit, ?_,
        by rw [concat_eq_append]⟩
      have hval : base ^ (i / 8) * l.toNat < base ^ (i / 8) * 16 ^ (i % 8) := by
        rw [concat_eq_append, value_append, value_singleton, hinit] at hlt
        rw [base_pow, ← Nat.pow_add, Nat.div_add_mod]
        rw [base_pow] at hlt
        omega
      exact Nat.lt_of_mul_lt_mul_left hval

/-- The digits of `done` have been read, those of `rest` come next. -/
theorem parseHexLoop_spec {rest : List Char} (hhex : ∀ c ∈ rest, HexDigit c)
    {i : Nat} (hlen : limbs.length = (i + 7) / 8) (hlt : value limbs < 16 ^ i) :
    ∃ limbs', parseHexLoop rest i limbs = .ok limbs' ∧
      limbs'.length = (i + rest.length + 7) / 8 ∧
      value limbs' = value limbs + 16 ^ i * number 16 fromHex rest.reverse := by
  induction rest generalizing limbs i with
  | nil => exact ⟨limbs, rfl, hlen, by simp [number]⟩
  | cons c rest ih =>
    obtain ⟨hd, -⟩ := fromHex_spec (hhex c mem_cons_self)
    obtain ⟨init, l, hlimbs, hinit, hl, hval⟩ := exists_last_limb hlen hlt
    have hor := toNat_or_shiftLeft (Nat.mod_lt i (by decide)) hl hd
    have hnew : value (init ++ [l ||| fromHex c <<< .ofNat (4 * (i % 8))]) =
        value limbs + 16 ^ i * (fromHex c).toNat := by
      have hpow : 16 ^ i = base ^ (i / 8) * 16 ^ (i % 8) := by
        rw [base_pow, ← Nat.pow_add, Nat.div_add_mod]
      rw [value_append, value_singleton, hor, ← hval, value_append, value_singleton, hinit, hpow]
      ring
    have hnewlt : value (init ++ [l ||| fromHex c <<< .ofNat (4 * (i % 8))]) < 16 ^ (i + 1) := by
      have hle : 16 ^ i * (fromHex c).toNat ≤ 16 ^ i * 15 := Nat.mul_le_mul_left _ (by omega)
      rw [hnew, Nat.pow_succ]
      omega
    obtain ⟨limbs', hok, hlen', hval'⟩ := ih (fun d hd => hhex d (mem_cons_of_mem c hd))
      (show (init ++ [_]).length = (i + 1 + 7) / 8 by simp [hinit]; omega) hnewlt
    refine ⟨limbs', ?_, by rw [hlen', length_cons]; congr 2; omega, ?_⟩
    · rw [parseHexLoop]
      simp only [hlimbs, orBack_concat, ok_bind]
      exact hok
    · rw [hval', hnew, reverse_cons, number_append, number_singleton, Nat.pow_succ]
      simp only [length_singleton, Nat.pow_one]
      ring

/-- The digits of the highest limb. -/
def topDigits (str : List Char) : List Char := str.take ((str.length - 1) % 8 + 1)

/-- The other digits do not reach the highest limb. -/
theorem topDigits_ne_zero_iff {str : List Char} (hne : str ≠ []) (hhex : ∀ c ∈ str, HexDigit c)
    {n : Nat} (hn : n = (str.length + 7) / 8) :
    (∃ c ∈ topDigits str, c ≠ '0') ↔ base ^ (n - 1) ≤ number 16 fromHex str := by
  have hpos := length_pos_iff.mpr hne
  have hdigits : (∃ c ∈ topDigits str, c ≠ '0') ↔ number 16 fromHex (topDigits str) ≠ 0 := by
    rw [number_ne_zero_iff (by decide)]
    exact exists_congr fun c => and_congr_right fun hc =>
      (fromHex_spec (hhex c (mem_of_mem_take hc))).2.symm
  have hsplit := number_append 16 fromHex (topDigits str)
    (str.drop ((str.length - 1) % 8 + 1))
  rw [topDigits, take_append_drop, ← topDigits] at hsplit
  have hdrop : (str.drop ((str.length - 1) % 8 + 1)).length = 8 * (n - 1) := by
    rw [length_drop, hn]
    omega
  have hlow : number 16 fromHex (str.drop ((str.length - 1) % 8 + 1)) < 16 ^ _ :=
    number_lt (by decide) fun c hc => (fromHex_spec (hhex c (mem_of_mem_drop hc))).1
  rw [hdigits, hsplit, base_pow]
  rw [hdrop] at hlow ⊢
  constructor
  · intro htop
    have hle := Nat.le_mul_of_pos_left (16 ^ (8 * (n - 1))) (Nat.pos_of_ne_zero htop)
    omega
  · intro hle htop
    rw [htop] at hle
    omega

/-- **Hexadecimal strings.** Only a number with one limb is checked for zero. -/
theorem parseHex_spec {str : List Char} (hne : str ≠ []) (hhex : ∀ c ∈ str, HexDigit c) :
    ∃ r, parseHex str = .ok r ∧ r.val = number 16 fromHex str ∧
      (r.isNormal = true ↔ str.length ≤ 8 ∨ ∃ c ∈ topDigits str, c ≠ '0') := by
  have hrev : ∀ c ∈ str.reverse, HexDigit c := by simpa using hhex
  have hnone : value [] < 16 ^ 0 := by simp
  obtain ⟨limbs, hok, hlen, hval⟩ := parseHexLoop_spec hrev rfl hnone
  simp only [length_reverse, Nat.zero_add, reverse_reverse, value_nil, Nat.pow_zero,
    Nat.one_mul] at hlen hval
  have hpos := length_pos_iff.mpr hne
  by_cases hzero : limbs = [0]
  · subst hzero
    have hshort : str.length ≤ 8 := by
      simp at hlen
      omega
    refine ⟨⟨[]⟩, ?_, ?_, iff_of_true rfl (.inl hshort)⟩
    · simp [parseHex, hok, ok_bind, pure, Except.pure]
    · rw [← hval]
      rfl
  · refine ⟨⟨limbs⟩, ?_, hval, ?_⟩
    · simp [parseHex, hok, ok_bind, hzero, pure, Except.pure]
    · have hlimbs : limbs ≠ [] := by
        rintro rfl
        simp at hlen
        omega
      rw [topDigits_ne_zero_iff hne hhex hlen, ← hval, isNormal_iff, or_iff_right hlimbs]
      refine ⟨.inr, fun h => h.elim (fun hshort => ?_) id⟩
      -- a single limb that is not zero
      obtain ⟨l, rfl⟩ := length_eq_one_iff.mp (show limbs.length = 1 by omega)
      have hl : l.toNat ≠ 0 := by
        intro h
        rw [UInt32.toNat_inj.mp (h.trans UInt32.toNat_zero.symm)] at hzero
        exact hzero rfl
      simp only [length_singleton, Nat.sub_self, Nat.pow_zero, value_singleton]
      omega

end Muduo.UnsignedInt
