import Muduo.AsyncLogging
import Muduo.Lib.Digits

/-!
# Muduo.LogStream

The integers of `muduo::LogStream`.

`convert` and `convertHex` write the digits of a number into the memory at `buf`, lowest
digit first, and turn them around.  The digit of a remainder that may be negative is
looked up from the middle of `digits`.

* `value T x` — an expression or a conversion whose value does not fit its type is a `Fault`,
  also for the unsigned types, where C would wrap around.
-/

namespace Muduo

open Lib List

/-- The integer types that `convert` is made for. -/
inductive IntType
  | int16
  | uint16
  | int32
  | uint32
  | int64
  | uint64
deriving DecidableEq, Repr

namespace IntType

def bits : IntType → Nat
  | int16 | uint16 => 16
  | int32 | uint32 => 32
  | int64 | uint64 => 64

def signed : IntType → Bool
  | int16 | int32 | int64 => true
  | uint16 | uint32 | uint64 => false

def min (T : IntType) : Int := if T.signed then -2 ^ (T.bits - 1) else 0

def max (T : IntType) : Int := if T.signed then 2 ^ (T.bits - 1) - 1 else 2 ^ T.bits - 1

/-- `x` is a value of the type. -/
def Has (T : IntType) (x : Int) : Prop := T.min ≤ x ∧ x ≤ T.max

instance (T : IntType) (x : Int) : Decidable (T.Has x) := inferInstanceAs (Decidable (_ ∧ _))

/-- The type that arithmetic with an `int` is done in. -/
def promoted : IntType → IntType
  | int16 | uint16 => int32
  | T => T

end IntType

namespace LogStream

inductive Fault
  /-- the value of an expression or of a conversion is outside of its type -/
  | overflow
  /-- outside of `digits` or of the buffer -/
  | access
  /-- the loop has not ended -/
  | diverges
deriving DecidableEq, Repr

def value (T : IntType) (x : Int) : Except Fault Int := do
  check .overflow (T.Has x)
  return x

/-- The element at `i` of the array at `p`. -/
def lookup (p : List UInt8) (i : Int) : Except Fault UInt8 :=
  match p[i.toNat]? with
  | some c => if 0 ≤ i then .ok c else .error .access
  | none => .error .access

/-- `buf[p] = c` -/
def store (buf : List UInt8) (p : Nat) (c : UInt8) : Except Fault (List UInt8) := do
  check .access (p < buf.length)
  return buf.set p c

/-! ## `convert` -/

/-- With the NUL. -/
def digits : List UInt8 := "9876543210123456789".toList.map Char.toUInt8 ++ [0]

/-- With the NUL. -/
def digitsHex : List UInt8 := "0123456789ABCDEF".toList.map Char.toUInt8 ++ [0]

/-- The loop of `convert` and `convertHex`: what is left in `i`, and `p`.  The digit of `0` is at
`zero` in the table. -/
def convertLoop (T : IntType) (base : Int) (table : List UInt8) (zero : Int) :
    Nat → Int → Nat → List UInt8 → Except Fault (Nat × List UInt8)
  | 0, _, _, _ => .error .diverges
  | fuel + 1, i, p, buf => do
    -- static_cast<int>(i % base)
    let lsd ← value .int32 (← value T.promoted (i.tmod base))
    let i ← value T (← value T.promoted (i.tdiv base))
    let buf ← store buf p (← lookup table (zero + lsd))
    if i ≠ 0 then convertLoop T base table zero fuel i (p + 1) buf else return (p + 1, buf)

def reverse (buf : List UInt8) (p : Nat) : List UInt8 := (buf.take p).reverse ++ buf.drop p

/-- The length, and what is in the buffer. -/
def convert (T : IntType) (buf : List UInt8) (v : Int) : Except Fault (Nat × List UInt8) := do
  let (p, buf) ← convertLoop T 10 digits 9 T.bits v 0 buf
  let (p, buf) ← (if v < 0 then do
      let buf ← store buf p '-'.toUInt8
      return (p + 1, buf)
    else return (p, buf))
  let buf ← store buf p 0
  return (p, reverse buf p)

/-- `uintptr_t` is the unsigned type with 64 bits. -/
def convertHex (buf : List UInt8) (v : Int) : Except Fault (Nat × List UInt8) := do
  let (p, buf) ← convertLoop .uint64 16 digitsHex 0 IntType.uint64.bits v 0 buf
  let buf ← store buf p 0
  return (p, reverse buf p)

/-! ## `operator<<` -/

def kSmallBuffer : Nat := 4000

def kMaxNumericSize : Nat := 32

abbrev Buffer := FixedBuffer kSmallBuffer

/-- `buffer_.add(len)` for the `len` bytes that are there now. -/
def add (b : Buffer) (written : List UInt8) : Except Fault Buffer :=
  if h : b.length + written.length ≤ kSmallBuffer then
    .ok ⟨b.data ++ written, by rwa [length_append]⟩
  else .error .access

/-- Nothing is written when there might not be room.  `garbage` is what is in the memory behind
`cur_`. -/
def formatInteger (T : IntType) (garbage : Nat → UInt8) (b : Buffer) (v : Int) :
    Except Fault Buffer :=
  if kMaxNumericSize ≤ b.avail then do
    let (len, buf) ← convert T ((List.range b.avail).map garbage) v
    add b (buf.take len)
  else return b

/-- `operator<<(T)`; the short types are converted to `int` and `unsigned int`. -/
def writeInteger (T : IntType) (garbage : Nat → UInt8) (b : Buffer) (v : Int) :
    Except Fault Buffer :=
  match T with
  | .int16 => do formatInteger .int32 garbage b (← value .int32 v)
  | .uint16 => do formatInteger .uint32 garbage b (← value .uint32 v)
  | T => formatInteger T garbage b v

/-- `operator<<(const void*)` -/
def writePointer (garbage : Nat → UInt8) (b : Buffer) (v : Int) : Except Fault Buffer :=
  if kMaxNumericSize ≤ b.avail then do
    let buf ← store ((List.range b.avail).map garbage) 0 '0'.toUInt8
    let buf ← store buf 1 'x'.toUInt8
    let (len, digits) ← convertHex (buf.drop 2) v
    add b ((buf.take 2 ++ digits).take (len + 2))
  else return b

/-! ## what is written -/

/-- The digits of `convert`. -/
def decimalDigit (m : Nat) : UInt8 := (Nat.digitChar m).toUInt8

/-- The digits of `convertHex`. -/
def hexDigit (m : Nat) : UInt8 := (Nat.digitChar m).toUpper.toUInt8

theorem lookup_digits : ∀ k : Fin 19,
    lookup digits k = .ok (decimalDigit ((k : Int) - 9).natAbs) := by decide

theorem lookup_digitsHex : ∀ k : Fin 16, lookup digitsHex k = .ok (hexDigit k) := by decide

theorem value_eq {T : IntType} {x : Int} (h : T.Has x) : value T x = .ok x := by
  rw [value, check_of h, ok_bind]
  rfl

theorem store_append (pre rest : List UInt8) (c d : UInt8) :
    store (pre ++ c :: rest) pre.length d = .ok (pre ++ d :: rest) := by
  rw [store, check_of (by simp), ok_bind, set_append_right _ _ (Nat.le_refl _), Nat.sub_self,
    set_cons_zero]
  rfl

/-! ## division -/

/-- `x` is between `0` and `i`. -/
def Toward (x i : Int) : Prop := 0 ≤ x ∧ x ≤ i ∨ i ≤ x ∧ x ≤ 0

theorem toward_tdiv (i : Int) (b : Nat) : Toward (i.tdiv b) i := by
  obtain ⟨n, rfl | rfl⟩ := i.eq_nat_or_neg
  · have := Nat.div_le_self n b
    rw [← Int.ofNat_tdiv]
    generalize n / b = q at *
    exact .inl (by omega)
  · have := Nat.div_le_self n b
    rw [Int.neg_tdiv, ← Int.ofNat_tdiv]
    generalize n / b = q at *
    exact .inr (by omega)

theorem toward_tmod (i : Int) (b : Nat) : Toward (i.tmod b) i := by
  obtain ⟨n, rfl | rfl⟩ := i.eq_nat_or_neg
  · have := Nat.mod_le n b
    rw [← Int.ofNat_tmod]
    exact .inl (by omega)
  · have := Nat.mod_le n b
    rw [Int.neg_tmod, ← Int.ofNat_tmod]
    exact .inr (by omega)

theorem Toward.has {T : IntType} {x i : Int} (h : Toward x i) (hi : T.Has i) : T.Has x := by
  have hzero : T.Has 0 := by cases T <;> decide
  unfold IntType.Has at *
  unfold Toward at h
  omega

theorem has_promoted {T : IntType} {x : Int} (h : T.Has x) : T.promoted.Has x := by
  cases T with
  | int16 | uint16 =>
    simp only [IntType.Has, IntType.promoted, IntType.min, IntType.max, IntType.signed,
      IntType.bits, reduceIte, Bool.false_eq_true] at *
    omega
  | _ => exact h

/-- The table has the digits of the remainders of `T` at `zero`. -/
structure IsTable (T : IntType) (base : Nat) (table : List UInt8) (zero : Int)
    (digit : Nat → UInt8) : Prop where
  two_le : 2 ≤ base
  le_sixteen : base ≤ 16
  lookup_tmod : ∀ i, T.Has i → lookup table (zero + i.tmod base) = .ok (digit (i.natAbs % base))

theorem isTable_digits (T : IntType) : IsTable T 10 digits 9 decimalDigit where
  two_le := by decide
  le_sixteen := by decide
  lookup_tmod i _ := by
    have habs : (i.tmod 10).natAbs = i.natAbs % 10 := Int.natAbs_tmod i 10
    have hlt := Nat.mod_lt i.natAbs (show 0 < 10 by decide)
    have hdigit := lookup_digits ⟨(9 + i.tmod 10).toNat, by omega⟩
    rw [Int.toNat_of_nonneg (by omega)] at hdigit
    rw [← habs]
    exact hdigit.trans (by rw [add_sub_cancel_left])

theorem isTable_digitsHex : IsTable .uint64 16 digitsHex 0 hexDigit where
  two_le := by decide
  le_sixteen := by decide
  lookup_tmod i hi := by
    obtain ⟨n, rfl⟩ := Int.eq_ofNat_of_zero_le hi.1
    have hdigit := lookup_digitsHex ⟨n % 16, Nat.mod_lt n (by decide)⟩
    rw [Int.natAbs_natCast, Int.zero_add]
    exact hdigit

section
variable {T : IntType} {base : Nat} {table : List UInt8} {zero : Int} {digit : Nat → UInt8}

theorem convertLoop_succ (h : IsTable T base table zero digit) {i : Int} (hi : T.Has i) (fuel : Nat)
    (pre rest : List UInt8) (c : UInt8) :
    convertLoop T base table zero (fuel + 1) i pre.length (pre ++ c :: rest) =
      if i.tdiv base ≠ 0 then
        convertLoop T base table zero fuel (i.tdiv base) (pre.length + 1)
          (pre ++ digit (i.natAbs % base) :: rest)
      else .ok (pre.length + 1, pre ++ digit (i.natAbs % base) :: rest) := by
  have hle := h.le_sixteen
  have habs : (i.tmod base).natAbs = i.natAbs % base := Int.natAbs_tmod i base
  have hlt := Nat.mod_lt i.natAbs (show 0 < base by have := h.two_le; omega)
  have hmod : T.promoted.Has (i.tmod base) := has_promoted ((toward_tmod i base).has hi)
  have hint : IntType.int32.Has (i.tmod base) := by
    simp only [IntType.Has, IntType.min, IntType.max, IntType.signed, IntType.bits, reduceIte]
    omega
  have hdiv := (toward_tdiv i base).has hi
  rw [convertLoop, value_eq hmod, ok_bind, value_eq hint, ok_bind, value_eq (has_promoted hdiv),
    ok_bind, value_eq hdiv, ok_bind, h.lookup_tmod i hi, ok_bind, store_append, ok_bind]
  rfl

/-- **The loop** writes the digits of the numeral, lowest digit first. -/
theorem convertLoop_eq (h : IsTable T base table zero digit) {k fuel : Nat} {i : Int}
    (pre : List UInt8) {rest : List UInt8} (hk : 0 < k) (hfuel : k ≤ fuel) (hi : T.Has i)
    (hlt : i.natAbs < base ^ k) (hroom : k ≤ rest.length) :
    ∃ ms, IsNumeral base ms i.natAbs ∧
      convertLoop T base table zero fuel i pre.length (pre ++ rest) =
        .ok (pre.length + ms.length, pre ++ (ms.map digit).reverse ++ rest.drop ms.length) := by
  induction k generalizing fuel i pre rest with
  | zero => omega
  | succ k ih =>
    obtain ⟨fuel, rfl⟩ := Nat.exists_eq_add_of_lt (show 0 < fuel by omega)
    obtain ⟨c, rest, rfl⟩ := exists_cons_of_length_pos (show 0 < rest.length by omega)
    have htwo := h.two_le
    have habs : (i.tdiv base).natAbs = i.natAbs / base := Int.natAbs_tdiv i base
    rw [Nat.zero_add, convertLoop_succ h hi]
    by_cases hdiv : i.tdiv base = 0
    · have hsmall : i.natAbs < base := by
        rw [hdiv] at habs
        exact Nat.lt_of_div_eq_zero (by omega) habs.symm
      refine ⟨[i.natAbs], isNumeral_singleton hsmall, ?_⟩
      rw [if_neg (not_not.2 hdiv), Nat.mod_eq_of_lt hsmall]
      simp
    · have hbig : base ≤ i.natAbs := by
        by_contra hsmall
        rw [Nat.div_eq_of_lt (by omega)] at habs
        exact hdiv (Int.natAbs_eq_zero.1 habs)
      have hquot : i.natAbs / base < base ^ k := Nat.div_lt_of_lt_mul (by rwa [← Nat.pow_succ'])
      have hpos : 0 < k := by
        by_contra hzero
        obtain rfl : k = 0 := by omega
        rw [Nat.pow_one] at hlt
        omega
      rw [length_cons] at hroom
      obtain ⟨ms, hms, hloop⟩ := ih (pre ++ [digit (i.natAbs % base)]) hpos
        (show k ≤ fuel by omega) ((toward_tdiv i base).has hi) (by rwa [habs])
        (show k ≤ rest.length by omega)
      rw [habs] at hms
      refine ⟨ms ++ [i.natAbs % base], hms.concat hbig (by omega), ?_⟩
      rw [if_pos hdiv]
      simp only [append_assoc, singleton_append, length_append, length_singleton]
        at hloop
      rw [hloop]
      simp [Nat.add_assoc, Nat.add_comm 1]

end

/-! ## the text -/

/-- The text of `v`: a sign when it is negative, and the numeral of its absolute value. -/
def IsText (base : Nat) (digit : Nat → UInt8) (v : Int) (text : List UInt8) : Prop :=
  ∃ ms, IsNumeral base ms v.natAbs ∧
    text = (if v < 0 then ['-'.toUInt8] else []) ++ ms.map digit

theorem reverse_append (ws rest : List UInt8) : reverse (ws ++ rest) ws.length = ws.reverse ++ rest := by
  simp [reverse]

variable {v : Int} {buf : List UInt8}

theorem exists_digits {T : IntType} (hv : T.Has v) :
    ∃ k, 0 < k ∧ k ≤ T.bits ∧ k ≤ 20 ∧ v.natAbs < 10 ^ k := by
  obtain ⟨h₁, h₂⟩ := hv
  cases T with
  | int16 | uint16 =>
    refine ⟨5, by decide, by decide, by decide, ?_⟩
    simp only [IntType.min, IntType.max, IntType.signed, IntType.bits, reduceIte,
      Bool.false_eq_true] at h₁ h₂
    omega
  | int32 | uint32 =>
    refine ⟨10, by decide, by decide, by decide, ?_⟩
    simp only [IntType.min, IntType.max, IntType.signed, IntType.bits, reduceIte,
      Bool.false_eq_true] at h₁ h₂
    omega
  | int64 | uint64 =>
    refine ⟨20, by decide, by decide, by decide, ?_⟩
    simp only [IntType.min, IntType.max, IntType.signed, IntType.bits, reduceIte,
      Bool.false_eq_true] at h₁ h₂
    omega

theorem store_next (ws : List UInt8) (d : UInt8) (h : ws.length < buf.length) :
    store (ws ++ buf.drop ws.length) ws.length d = .ok (ws ++ d :: buf.drop (ws.length + 1)) := by
  rw [drop_eq_getElem_cons h, store_append]

/-- What a conversion leaves: the length of the text, and in the buffer the text, the NUL, and
what was there. -/
structure Written (base : Nat) (digit : Nat → UInt8) (v : Int) (buf : List UInt8)
    (r : Except Fault (Nat × List UInt8)) (text : List UInt8) : Prop where
  isText : IsText base digit v text
  result : r = .ok (text.length, text ++ 0 :: buf.drop (text.length + 1))
  length_lt : text.length + 1 < kMaxNumericSize

/-- The NUL is written behind the digits, and these are turned around. -/
theorem written_of_reverse {base : Nat} {digit : Nat → UInt8} {buf ws : List UInt8}
    (htext : IsText base digit v ws.reverse) (hlen : ws.length + 1 < kMaxNumericSize)
    (hroom : ws.length < buf.length) :
    Written base digit v buf (do
      let buf ← store (ws ++ buf.drop ws.length) ws.length 0
      return (ws.length, reverse buf ws.length)) ws.reverse where
  isText := htext
  result := by
    rw [store_next ws 0 hroom, ok_bind, reverse_append, length_reverse]
    rfl
  length_lt := by rwa [length_reverse]

theorem convert_written {T : IntType} (hv : T.Has v) (hroom : kMaxNumericSize ≤ buf.length) :
    ∃ text, Written 10 decimalDigit v buf (convert T buf v) text := by
  obtain ⟨k, hk, hbits, hle, hlt⟩ := exists_digits hv
  rw [kMaxNumericSize] at hroom
  have hdigits : k ≤ buf.length := by omega
  obtain ⟨ms, hms, hloop⟩ := convertLoop_eq (isTable_digits T) [] hk hbits hv hlt hdigits
  have hlen := hms.length_le (by decide) hk hlt
  set ws := (ms.map decimalDigit).reverse with hws
  have hlen' : ws.length = ms.length := by simp [hws]
  rw [length_nil, nil_append, nil_append, Nat.zero_add, ← hlen'] at hloop
  rw [convert, show (10 : Int) = (10 : Nat) from rfl, hloop, ok_bind]
  dsimp only
  by_cases hneg : v < 0
  · have htext : IsText 10 decimalDigit v (ws ++ ['-'.toUInt8]).reverse :=
      ⟨ms, hms, by simp [hws, hneg]⟩
    rw [if_pos hneg, store_next ws _ (by omega), ok_bind]
    have hsign : (ws ++ ['-'.toUInt8]).length < buf.length := by
      rw [length_append, length_singleton]
      omega
    have hwritten := written_of_reverse htext
      (by rw [kMaxNumericSize, length_append, length_singleton]; omega) hsign
    rw [append_assoc, length_append, length_singleton] at hwritten
    exact ⟨_, hwritten⟩
  · rw [if_neg hneg]
    exact ⟨_, written_of_reverse ⟨ms, hms, by simp [hws, hneg]⟩ (by rw [kMaxNumericSize]; omega)
      (by omega)⟩

theorem natAbs_lt_of_uint64 (hv : IntType.uint64.Has v) : v.natAbs < 16 ^ 16 := by
  obtain ⟨h₁, h₂⟩ := hv
  simp only [IntType.min, IntType.max, IntType.signed, IntType.bits, reduceIte,
    Bool.false_eq_true] at h₁ h₂
  omega

theorem convertHex_written (hv : IntType.uint64.Has v) (hroom : kMaxNumericSize ≤ buf.length + 2) :
    ∃ text, Written 16 hexDigit v buf (convertHex buf v) text := by
  have hlt := natAbs_lt_of_uint64 hv
  rw [kMaxNumericSize] at hroom
  have hdigits : 16 ≤ buf.length := by omega
  obtain ⟨ms, hms, hloop⟩ := convertLoop_eq isTable_digitsHex [] (show 0 < 16 by decide)
    (show 16 ≤ IntType.uint64.bits by decide) hv hlt hdigits
  have hlen := hms.length_le (by decide) (by decide) hlt
  set ws := (ms.map hexDigit).reverse with hws
  have hlen' : ws.length = ms.length := by simp [hws]
  rw [length_nil, nil_append, nil_append, Nat.zero_add, ← hlen'] at hloop
  rw [convertHex, show (16 : Int) = (16 : Nat) from rfl, hloop, ok_bind]
  have hneg : ¬ v < 0 := Int.not_lt.2 hv.1
  exact ⟨_, written_of_reverse ⟨ms, hms, by simp [hws, hneg]⟩ (by rw [kMaxNumericSize]; omega)
    (by omega)⟩

/-! ## the stream -/

theorem length_garbage (garbage : Nat → UInt8) (n : Nat) : ((List.range n).map garbage).length = n := by
  simp

/-- `text` is appended, or nothing when there might not be room. -/
def Appends (b : Buffer) (text : List UInt8) (r : Except Fault Buffer) : Prop :=
  ∃ b', r = .ok b' ∧ b'.data = b.data ++ if kMaxNumericSize ≤ b.avail then text else []

theorem appends_add {b : Buffer} {text : List UInt8} (h : text.length ≤ kMaxNumericSize)
    (hroom : kMaxNumericSize ≤ b.avail) : Appends b text (add b text) := by
  have hle : b.length + text.length ≤ kSmallBuffer := by
    have hle := b.length_le
    unfold FixedBuffer.avail FixedBuffer.length at *
    omega
  refine ⟨⟨b.data ++ text, by rwa [length_append]⟩, dif_pos hle, ?_⟩
  rw [if_pos hroom]

theorem appends_full {b : Buffer} {text : List UInt8} (hroom : ¬ kMaxNumericSize ≤ b.avail) :
    Appends b text (.ok b) := ⟨b, rfl, by rw [if_neg hroom, append_nil]⟩

theorem formatInteger_appends {T : IntType} (hv : T.Has v) (garbage : Nat → UInt8) (b : Buffer) :
    ∃ text, IsText 10 decimalDigit v text ∧ Appends b text (formatInteger T garbage b v) := by
  obtain ⟨text, hwritten⟩ := convert_written hv
    (length_garbage garbage (max kMaxNumericSize b.avail) ▸ Nat.le_max_left _ _)
  refine ⟨text, hwritten.isText, ?_⟩
  unfold formatInteger
  by_cases hroom : kMaxNumericSize ≤ b.avail
  · have hresult := hwritten.result
    rw [Nat.max_eq_right hroom] at hresult
    rw [if_pos hroom, hresult, ok_bind]
    dsimp only
    rw [take_left]
    exact appends_add (by have := hwritten.length_lt; omega) hroom
  · rw [if_neg hroom]
    exact appends_full hroom

theorem writeInteger_appends {T : IntType} (hv : T.Has v) (garbage : Nat → UInt8) (b : Buffer) :
    ∃ text, IsText 10 decimalDigit v text ∧ Appends b text (writeInteger T garbage b v) := by
  cases T with
  | int16 =>
    have hint : IntType.int32.Has v := has_promoted hv
    rw [writeInteger, value_eq hint, ok_bind]
    exact formatInteger_appends hint garbage b
  | uint16 =>
    have hint : IntType.uint32.Has v := by
      obtain ⟨h₁, h₂⟩ := hv
      simp only [IntType.Has, IntType.min, IntType.max, IntType.signed, IntType.bits, reduceIte,
        Bool.false_eq_true] at *
      omega
    rw [writeInteger, value_eq hint, ok_bind]
    exact formatInteger_appends hint garbage b
  | _ => exact formatInteger_appends hv garbage b

theorem writePointer_appends (hv : IntType.uint64.Has v) (garbage : Nat → UInt8) (b : Buffer) :
    ∃ text, IsText 16 hexDigit v text ∧
      Appends b ('0'.toUInt8 :: 'x'.toUInt8 :: text) (writePointer garbage b v) := by
  have hlen := length_garbage garbage b.avail
  unfold writePointer
  by_cases hroom : kMaxNumericSize ≤ b.avail
  · have hmax := hroom
    rw [kMaxNumericSize] at hmax
    obtain ⟨c₀, mem, hmem⟩ := exists_cons_of_length_pos
      (show 0 < ((List.range b.avail).map garbage).length by omega)
    rw [hmem, length_cons] at hlen
    obtain ⟨c₁, rest, rfl⟩ := exists_cons_of_length_pos (show 0 < mem.length by omega)
    rw [length_cons] at hlen
    obtain ⟨text, hwritten⟩ := convertHex_written hv (show kMaxNumericSize ≤ rest.length + 2 by omega)
    have hlt := hwritten.length_lt
    have hzero := store_append [] (c₁ :: rest) c₀ '0'.toUInt8
    have hx := store_append ['0'.toUInt8] rest c₁ 'x'.toUInt8
    refine ⟨text, hwritten.isText, ?_⟩
    rw [if_pos hroom, hmem]
    simp only [nil_append, length_nil, singleton_append, length_singleton]
      at hzero hx
    rw [hzero, ok_bind, hx, ok_bind]
    simp only [drop_succ_cons, drop_zero, take_succ_cons, take_zero]
    rw [hwritten.result, ok_bind]
    simp only [cons_append, nil_append, take_succ_cons, take_left]
    exact appends_add (by simp only [length_cons]; omega) hroom
  · rw [if_neg hroom]
    obtain ⟨text, hwritten⟩ := convertHex_written hv
      (show kMaxNumericSize ≤ (List.replicate 30 (0 : UInt8)).length + 2 by decide)
    exact ⟨text, hwritten.isText, appends_full hroom⟩

/-- What is written for every value of every type. -/
structure IntegersExact : Prop where
  convert : ∀ (T : IntType) (v : Int) (buf : List UInt8), T.Has v → kMaxNumericSize ≤ buf.length →
    ∃ text, Written 10 decimalDigit v buf (convert T buf v) text
  convertHex : ∀ (v : Int) (buf : List UInt8), IntType.uint64.Has v →
    kMaxNumericSize ≤ buf.length + 2 → ∃ text, Written 16 hexDigit v buf (convertHex buf v) text
  integer : ∀ (T : IntType) (v : Int) (garbage : Nat → UInt8) (b : Buffer), T.Has v →
    ∃ text, IsText 10 decimalDigit v text ∧ Appends b text (writeInteger T garbage b v)
  pointer : ∀ (v : Int) (garbage : Nat → UInt8) (b : Buffer), IntType.uint64.Has v →
    ∃ text, IsText 16 hexDigit v text ∧
      Appends b ('0'.toUInt8 :: 'x'.toUInt8 :: text) (writePointer garbage b v)

/-- **The integers of a stream** are written exactly. -/
theorem integers_exact : IntegersExact where
  convert _ _ _ hv hroom := convert_written hv hroom
  convertHex _ _ hv hroom := convertHex_written hv hroom
  integer _ _ garbage b hv := writeInteger_appends hv garbage b
  pointer _ garbage b hv := writePointer_appends hv garbage b

end LogStream

end Muduo
