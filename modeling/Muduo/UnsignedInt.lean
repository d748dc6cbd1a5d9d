import Mathlib.Data.List.DropRight
import Muduo.Lib.Digits
import Muduo.Lib.Outcome

/-!
# Muduo.UnsignedInt

The numbers of any length of `recipes/basic/uint.h` and `uint.cc`: a vector of 32-bit
limbs, least significant first.

The code computes with 64-bit intermediates.  Where it means the exact value, the model
has `exact64`, which fails if the value does not fit; only `sub` wraps on purpose, and
there the model computes with `UInt64`.  The argument of a binary operation may be the
object itself, whose limbs are overwritten while they are read: `Arg.limbs` reads the
limbs as they are at that moment.
-/

namespace Muduo

open Lib

structure UnsignedInt where
  limbs : List UInt32
deriving DecidableEq, Repr

namespace UnsignedInt

inductive Assert
  | subSizes
  | devideNormal
  | parseSegments
deriving DecidableEq, Repr

/-- A failed assertion, the `abort()` of `sub`, a 64-bit intermediate that wraps, an
access outside a vector, or a division by zero. -/
inductive Fault
  | assertion (site : Assert)
  | underflow
  | wraps
  | outOfRange
  | divideByZero
deriving DecidableEq, Repr

/-- The other operand: the object itself or another one. -/
inductive Arg
  | self
  | other (x : UnsignedInt)
deriving DecidableEq, Repr

/-- `x.limbs_`, when the object's own limbs are `current`. -/
def Arg.limbs (current : List UInt32) : Arg → List UInt32
  | self => current
  | other x => x.limbs

def Arg.get (this : UnsignedInt) (x : Arg) : UnsignedInt := ⟨x.limbs this.limbs⟩

/-! ## machine words -/

def kMask : Nat := 0xFFFFFFFF

/-- A `uint64_t` expression with the mathematical value `n`. -/
def exact64 (n : Nat) : Except Fault Nat := do
  check .wraps (n < 2 ^ 64)
  return n

/-- `sum > kMask_` -/
def carryOf (sum : Nat) : Nat := if kMask < sum then 1 else 0

/-- `limbs[i]` -/
def limbAt (limbs : List UInt32) (i : Nat) : Except Fault UInt32 :=
  match limbs[i]? with
  | some l => .ok l
  | none => .error .outOfRange

/-! ## constructors and predicates -/

def ofUInt32 (x : UInt32) : UnsignedInt := if 0 < x then ⟨[x]⟩ else ⟨[]⟩

def isZero (a : UnsignedInt) : Bool := a.limbs.isEmpty

def isNormal (a : UnsignedInt) : Bool := a.isZero || a.limbs.getLast? ≠ some 0

def lexicographicalCompare : List UInt32 → List UInt32 → Bool
  | [], [] => false
  | [], _ :: _ => true
  | _ :: _, [] => false
  | l :: ls, r :: rs =>
    if l < r then true else if r < l then false else lexicographicalCompare ls rs

def lessThan (a x : UnsignedInt) : Bool :=
  let rhs := x.limbs
  rhs.length > a.limbs.length ||
    (rhs.length = a.limbs.length && lexicographicalCompare a.limbs.reverse rhs.reverse)

def assign (x : UInt32) : UnsignedInt := if x = 0 then ⟨[]⟩ else ⟨[x]⟩

/-! ## addition -/

/-- The loop that adds a carry to the limbs from some position on. -/
def addCarry : List UInt32 → Nat → Except Fault (List UInt32 × Nat)
  | [], carry => .ok ([], carry)
  | l :: ls, carry =>
    if carry = 0 then .ok (l :: ls, carry)
    else do
      let sum ← exact64 (l.toNat + carry)
      let (ls, carry) ← addCarry ls (carryOf sum)
      return (.ofNat sum :: ls, carry)

/-- `if (carry) limbs_.push_back(carry);` -/
def pushCarry (limbs : List UInt32) (carry : Nat) : List UInt32 :=
  if carry = 0 then limbs else limbs ++ [.ofNat carry]

/-- `UnsignedInt::add(uint32_t)` -/
def addWord (a : UnsignedInt) (x : UInt32) : Except Fault UnsignedInt :=
  match a.limbs with
  | [] => .ok ⟨[x]⟩
  | l :: ls => do
    let sum ← exact64 (l.toNat + x.toNat)
    let (ls, carry) ← addCarry ls (carryOf sum)
    return ⟨pushCarry (.ofNat sum :: ls) carry⟩

/-- The loop of `UnsignedInt::add` over the limbs that both operands have: `n`
iterations from `i` on. -/
def addLoop (x : Arg) : (n i : Nat) → List UInt32 → Nat → Except Fault (List UInt32 × Nat)
  | 0, _, limbs, carry => .ok (limbs, carry)
  | n + 1, i, limbs, carry => do
    let l ← limbAt limbs i
    let r ← limbAt (x.limbs limbs) i
    let sum ← exact64 (l.toNat + r.toNat + carry)
    addLoop x n (i + 1) (limbs.set i (.ofNat sum)) (carryOf sum)

/-- `UnsignedInt::add(const UnsignedInt&)` -/
def add (a : UnsignedInt) (x : Arg) : Except Fault UnsignedInt := do
  let size := (x.limbs a.limbs).length
  -- `resize` appends zeros
  let limbs := if size > a.limbs.length then
    a.limbs ++ List.replicate (size - a.limbs.length) 0 else a.limbs
  let len := min limbs.length size
  let (limbs, carry) ← addLoop x len 0 limbs 0
  if carry = 0 then return ⟨limbs⟩
  else do
    let (rest, carry) ← addCarry (limbs.drop len) carry
    return ⟨pushCarry (limbs.take len ++ rest) carry⟩

/-! ## subtraction -/

/-- The loop that takes a borrow from the limbs from some position on. -/
def subCarry : List UInt32 → UInt64 → List UInt32 × UInt64
  | [], carry => ([], carry)
  | l :: ls, carry =>
    if carry = 0 then (l :: ls, carry)
    else
      let sum := l.toUInt64 - carry
      let (ls, carry) := subCarry ls (if sum > .ofNat kMask then 1 else 0)
      (sum.toUInt32 :: ls, carry)

/-- The loop of `UnsignedInt::sub` over the limbs that both operands have. -/
def subLoop (x : Arg) : (n i : Nat) → List UInt32 → UInt64 → Except Fault (List UInt32 × UInt64)
  | 0, _, limbs, carry => .ok (limbs, carry)
  | n + 1, i, limbs, carry => do
    let l ← limbAt limbs i
    let r ← limbAt (x.limbs limbs) i
    let sum := l.toUInt64 - r.toUInt64 - carry
    subLoop x n (i + 1) (limbs.set i sum.toUInt32) (if sum > .ofNat kMask then 1 else 0)

def sub (a : UnsignedInt) (x : Arg) : Except Fault UnsignedInt :=
  if a.lessThan (x.get a) then .error .underflow
  else do
    let size := (x.limbs a.limbs).length
    check (.assertion .subSizes) (size ≤ a.limbs.length)
    let len := min a.limbs.length size
    let (limbs, carry) ← subLoop x len 0 a.limbs 0
    let (rest, carry) := subCarry (limbs.drop len) carry
    if carry = 0 then
      -- `while (!limbs_.empty() && limbs_.back() == 0) limbs_.pop_back();`
      return ⟨(limbs.take len ++ rest).rdropWhile (· = 0)⟩
    else .error .underflow

/-! ## multiplication -/

/-- `prod / 0x10000 / 0x10000` -/
def highWord (prod : Nat) : Nat := prod / 0x10000 / 0x10000

/-- The loop of `UnsignedInt::multiply(uint32_t)`. -/
def multiplyLoop (x : UInt32) : List UInt32 → Nat → Except Fault (List UInt32 × Nat)
  | [], carry => .ok ([], carry)
  | l :: ls, carry => do
    let prod ← exact64 (l.toNat * x.toNat + carry)
    let (ls, carry) ← multiplyLoop x ls (highWord prod)
    return (.ofNat prod :: ls, carry)

/-- `UnsignedInt::multiply(uint32_t)` -/
def multiplyWord (a : UnsignedInt) (x : UInt32) : Except Fault UnsignedInt :=
  if x = 0 then .ok ⟨[]⟩
  else do
    let (limbs, carry) ← multiplyLoop x a.limbs 0
    return ⟨pushCarry limbs carry⟩

/-- A row of the product: `y` times the limbs is added to `result` from the position
`k` on, and the last carry is written behind. -/
def multiplyRow (y : UInt32) : List UInt32 → Nat → List UInt32 → Nat → Except Fault (List UInt32)
  | [], k, result, carry => do
    let _ ← limbAt result k
    return result.set k (.ofNat carry)
  | l :: ls, k, result, carry => do
    let r ← limbAt result k
    let prod ← exact64 (y.toNat * l.toNat + r.toNat + carry)
    multiplyRow y ls (k + 1) (result.set k (.ofNat prod)) (highWord prod)

/-- The rows of the product, for the limbs of the argument from the `i`-th on. -/
def multiplyRows (limbs : List UInt32) :
    List UInt32 → Nat → List UInt32 → Except Fault (List UInt32)
  | [], _, result => .ok result
  | y :: ys, i, result =>
    if y = 0 then multiplyRows limbs ys (i + 1) result
    else do
      let result ← multiplyRow y limbs i result 0
      multiplyRows limbs ys (i + 1) result

/-- `if (v.back() == 0) v.pop_back();` -/
def popZero (limbs : List UInt32) : List UInt32 :=
  if limbs.getLast? = some 0 then limbs.dropLast else limbs

/-- `UnsignedInt::multiply(const UnsignedInt&)` -/
def multiply (a : UnsignedInt) (x : Arg) : Except Fault UnsignedInt :=
  let rhs := x.limbs a.limbs
  if a.limbs.isEmpty || rhs.isEmpty then .ok ⟨[]⟩
  else do
    let result ← multiplyRows a.limbs rhs 0 (List.replicate (a.limbs.length + rhs.length) 0)
    return ⟨popZero result⟩

/-! ## division and powers -/

/-- `carry << 32` -/
def shiftWord (carry : Nat) : Nat := carry * 2 ^ 32

/-- The loop of `UnsignedInt::devide`, which starts at the highest limb. -/
def devideLoop (x : UInt32) : List UInt32 → Except Fault (List UInt32 × Nat)
  | [] => .ok ([], 0)
  | l :: ls => do
    let (ls, carry) ← devideLoop x ls
    let prod ← exact64 (shiftWord carry + l.toNat)
    check .divideByZero (x ≠ 0)
    return (.ofNat (prod / x.toNat) :: ls, prod % x.toNat)

/-- `UnsignedInt::devide`, with the remainder that it returns. -/
def devide (a : UnsignedInt) (x : UInt32) : Except Fault (UnsignedInt × UInt32) := do
  let (limbs, carry) ← devideLoop x a.limbs
  let limbs := popZero limbs
  check (.assertion .devideNormal) ((⟨limbs⟩ : UnsignedInt).isNormal = true)
  return (⟨limbs⟩, .ofNat carry)

/-- The loop of `UnsignedInt::power`. -/
def powerLoop (n : Nat) (a result : UnsignedInt) : Except Fault UnsignedInt :=
  if n = 0 then .ok result
  else do
    let result ← if n % 2 = 1 then result.multiply (.other a) else .ok result
    let a ← a.multiply .self
    powerLoop (n / 2) a result
termination_by n

def power (a : UnsignedInt) (n : UInt32) : Except Fault UnsignedInt :=
  if n = 0 then .ok (assign 1)
  else if 1 < n then powerLoop n.toNat a (ofUInt32 1)
  else .ok a

/-! ## constructors from strings -/

inductive Radix
  | kDec
  | kHex
deriving DecidableEq, Repr

/-- Whether a character is between two others. -/
def inRange (lo hi c : Char) : Prop := lo.toNat ≤ c.toNat ∧ c.toNat ≤ hi.toNat

instance (lo hi c : Char) : Decidable (inRange lo hi c) := inferInstanceAs (Decidable (_ ∧ _))

def fromDec (c : Char) : UInt32 :=
  if inRange '0' '9' c then c.val - '0'.val else -1

def fromHex (c : Char) : UInt32 :=
  if inRange '0' '9' c then c.val - '0'.val
  else if inRange 'a' 'f' c then c.val - 'a'.val + 10
  else if inRange 'A' 'F' c then c.val - 'A'.val + 10
  else -1

def parseSegment (str : List Char) : UInt32 :=
  str.foldl (fun seg c => seg * 10 + fromDec c) 0

def kSegment : UInt32 := 1000 * 1000 * 1000

def kSegmentDigits : Nat := 9

/-- The loop of `UnsignedInt::parseDec` over what is left of the string. -/
def parseDecLoop (str : List Char) (a : UnsignedInt) : Except Fault UnsignedInt :=
  if hstr : str = [] then .ok a
  else do
    check (.assertion .parseSegments) (kSegmentDigits ≤ str.length)
    let seg := parseSegment (str.take kSegmentDigits)
    let a ← a.multiplyWord kSegment
    let a ← a.addWord seg
    parseDecLoop (str.drop kSegmentDigits) a
termination_by str.length
decreasing_by
  have hpos := List.length_pos_iff.mpr hstr
  simp [kSegmentDigits]
  omega

def parseDec (str : List Char) : Except Fault UnsignedInt := do
  let first := str.length % kSegmentDigits
  let a ← if first = 0 then .ok ⟨[]⟩ else addWord ⟨[]⟩ (parseSegment (str.take first))
  parseDecLoop (str.drop first) a

/-- `limbs_.back() |= x` -/
def orBack (limbs : List UInt32) (x : UInt32) : Except Fault (List UInt32) :=
  match limbs.getLast? with
  | none => .error .outOfRange
  | some l => .ok (limbs.dropLast ++ [l ||| x])

/-- The loop of `UnsignedInt::parseHex` from the `i`-th digit on, counted from the end
of the string. -/
def parseHexLoop : List Char → Nat → List UInt32 → Except Fault (List UInt32)
  | [], _, limbs => .ok limbs
  | c :: rest, i, limbs => do
    let limbs := if i % 8 = 0 then limbs ++ [0] else limbs
    let digit := fromHex c
    let shift := 4 * (i % 8)
    let limbs ← orBack limbs (digit <<< .ofNat shift)
    parseHexLoop rest (i + 1) limbs

def parseHex (str : List Char) : Except Fault UnsignedInt := do
  let limbs ← parseHexLoop str.reverse 0 []
  return if limbs = [0] then ⟨[]⟩ else ⟨limbs⟩

/-- `UnsignedInt::UnsignedInt(const std::string&, Radix)` -/
def ofString (str : List Char) : Radix → Except Fault UnsignedInt
  | .kDec => parseDec str
  | .kHex => parseHex str

end UnsignedInt

end Muduo
