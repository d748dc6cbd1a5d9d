import Muduo.HttpContext
import Muduo.Memcached

/-!
# Muduo.Memcached.Command

The command lines of `examples/memcached/server/Session.cc`: the tokens of a line and
the numbers among them.

`strtoull` is not told where a token ends.  A token keeps the characters behind it, up
to and including the CR LF of its line; a number is scanned over all of these.  The scan
of a token that is white space goes on behind it, and behind a line that ends in such a
token it goes past the line.
-/

namespace Muduo.Memcached

open Lib

/-! ## tokens -/

/-- A token and what stands behind it. -/
structure Token where
  text : List UInt8
  after : List UInt8
deriving DecidableEq, Repr

/-- The tokens that `SpaceSeparator` finds: one begins at every character other than a
blank that has a blank or nothing in front of it.  `tail` is what stands behind the
text. -/
def tokensFrom (tail : List UInt8) : Bool → List UInt8 → List Token
  | _, [] => []
  | inToken, c :: cs =>
    if c = 32 then tokensFrom tail false cs
    else if inToken then tokensFrom tail true cs
    else ⟨c :: cs.takeWhile (· ≠ 32), cs.dropWhile (· ≠ 32) ++ tail⟩ :: tokensFrom tail true cs

/-- A request line, without the `noreply` at its end. -/
structure Request where
  noreply : Bool
  tokens : List Token
deriving DecidableEq, Repr

def noreplySuffix : List UInt8 := ascii " noreply"

/-- "check 'noreply' at end of request line" -/
def parseRequest (line : List UInt8) : Request :=
  if 8 ≤ line.length ∧ line.drop (line.length - 8) = noreplySuffix then
    ⟨true, tokensFrom (noreplySuffix ++ Item.crlf) false (line.take (line.length - 8))⟩
  else ⟨false, tokensFrom Item.crlf false line⟩

/-! ## numbers -/

def isDigit (c : UInt8) : Bool := 48 ≤ c && c ≤ 57

def digitsValue (ds : List UInt8) : Nat := ds.foldl (fun n d => 10 * n + (d.toNat - 48)) 0

/-- What `strtoull` finds: the number as it is written, and where its text ends. -/
structure Numeral where
  negative : Bool
  magnitude : Nat
  length : Nat
deriving DecidableEq, Repr

/-- The number that is written. -/
def Numeral.number (n : Numeral) : Int := if n.negative then -n.magnitude else n.magnitude

/-- The result of `strtoull`, a `uint64_t`. -/
def Numeral.toULL (n : Numeral) : Nat :=
  if 2 ^ 64 ≤ n.magnitude then 2 ^ 64 - 1
  else if n.negative then (2 ^ 64 - n.magnitude) % 2 ^ 64
  else n.magnitude

/-- The scan of `strtoull` in base 10, which gives nothing when it comes to the end of
the text.  Without a digit it ends where it has begun. -/
def scanNumeral (text : List UInt8) : Option Numeral :=
  match text.dropWhile isspace with
  | [] => none
  | c :: cs =>
    let blanks := (text.takeWhile isspace).length
    let sign := if c = 45 ∨ c = 43 then 1 else 0
    let digits := ((c :: cs).drop sign).takeWhile isDigit
    if ((c :: cs).drop sign).dropWhile isDigit = [] then none
    else if digits = [] then some ⟨false, 0, 0⟩
    else some ⟨c = 45, digitsValue digits, blanks + sign + digits.length⟩

/-! ## the fields of an update -/

/-- Why a line is refused.  `overread` is a number that was scanned past the line. -/
inductive Refusal
  | format
  | overread
deriving DecidableEq, Repr

/-- `Session::Reader::read` -/
def read : List Token → Except Refusal (Numeral × List Token)
  | [] => .error .format
  | tok :: toks => match scanNumeral (tok.text ++ tok.after) with
    | none => .error .overread
    | some n => if n.length = tok.text.length then .ok (n, toks) else .error .format

/-- The numbers of an update line, with `cas` only for that command. -/
structure UpdateFields where
  flags : Numeral
  exptime : Numeral
  bytes : Numeral
  cas : Option Numeral
deriving DecidableEq, Repr

/-- The tests of `doUpdate` on the tokens behind the key. -/
def readFields (policy : UpdatePolicy) (key : Key) (toks : List Token) :
    Except Refusal UpdateFields := do
  check .format (key.length ≤ kLongestKeySize)
  let (flags, toks) ← read toks
  let (exptime, toks) ← read toks
  let (bytes, toks) ← read toks
  if policy = .kCas then
    let (cas, _) ← read toks
    return ⟨flags, exptime, bytes, some cas⟩
  else return ⟨flags, exptime, bytes, none⟩

/-- `static_cast<time_t>` of a `uint64_t` -/
def timeOfULL (x : Nat) : Int := Int.bmod x (2 ^ 64)

/-- `static_cast<int>` of a `time_t` -/
def intOfTime (t : Int) : Int := Int.bmod t (2 ^ 32)

/-- `rel_exptime`, in seconds since the start of the server when the time given is
more than 30 days. -/
def relExptime (startTime exptime : Int) : Int :=
  if 60 * 60 * 24 * 30 < exptime then max 1 (intOfTime (exptime - startTime))
  else intOfTime exptime

/-- The commands of `doUpdate`. -/
def policyOf (command : List UInt8) : Option UpdatePolicy :=
  if command = ascii "set" then some .kSet
  else if command = ascii "add" then some .kAdd
  else if command = ascii "replace" then some .kReplace
  else if command = ascii "append" then some .kAppend
  else if command = ascii "prepend" then some .kPrepend
  else if command = ascii "cas" then some .kCas
  else none

/-! ## what a line says -/

/-- The fields of the line of an update that has a key. -/
def lineFields (line : List UInt8) : Option (Except Refusal UpdateFields) :=
  match (parseRequest line).tokens with
  | command :: key :: toks =>
    (policyOf command.text).map fun policy => readFields policy key.text toks
  | _ => none

/-- An update or a `delete` without a key. -/
def lacksKey (line : List UInt8) : Bool :=
  match (parseRequest line).tokens with
  | [command] => (policyOf command.text).isSome || command.text = ascii "delete"
  | _ => false

/-- A number of the line is scanned past its end. -/
def overreads (line : List UInt8) : Bool :=
  match lineFields line with
  | some (.error .overread) => true
  | _ => false

/-- The byte count that is written in the line of an update that is not refused. -/
def writtenCount (line : List UInt8) : Option Int :=
  match lineFields line with
  | some (.ok f) => some f.bytes.number
  | _ => none

variable {line : List UInt8} {toks : List Token} {policy : UpdatePolicy}

theorem lineFields_of_tokens {command key : Token}
    (h : (parseRequest line).tokens = command :: key :: toks) :
    lineFields line =
      (policyOf command.text).map fun policy => readFields policy key.text toks := by
  rw [lineFields, h]

theorem lineFields_of_short (h : (parseRequest line).tokens.length ≤ 1) :
    lineFields line = none := by
  unfold lineFields
  split
  · next htokens => simp [htokens] at h
  · rfl

theorem key_le_of_readFields {key : Key}
    {f : UpdateFields} (h : readFields policy key toks = .ok f) : key.length ≤ kLongestKeySize :=
  (check_bind_eq_ok.1 h).1

theorem policyOf_ne_kInvalid {command : List UInt8}
    (h : policyOf command = some policy) : policy ≠ .kInvalid := by
  unfold policyOf at h
  grind

/-- A byte count in the range of `int` is read as it is written. -/
theorem Numeral.intOfSize_toULL {n : Numeral} (hpos : 0 ≤ n.number) (hlt : n.number < 2 ^ 31) :
    intOfSize n.toULL = n.number := by
  have hmag : (n.magnitude : Int) = n.number ∧ (n.negative = true → n.magnitude = 0) := by
    unfold Numeral.number at hpos ⊢
    split <;> grind
  have hull : n.toULL = n.magnitude := by
    unfold Numeral.toULL
    rw [if_neg (by omega)]
    split
    · next hneg => simp [hmag.2 hneg]
    · rfl
  rw [hull, intOfSize_of_lt (by omega), hmag.1]

end Muduo.Memcached
