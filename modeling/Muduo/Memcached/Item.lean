import Muduo.Lib.Outcome
import Muduo.Lib.Word

/-!
# Muduo.Memcached.Item

`Item` of `examples/memcached/server`: a key and a value that arrives in pieces, in
one block of memory.

A `Complete` item is one whose value has arrived and ends in CR LF.
-/

namespace Muduo.Memcached

open Lib List

abbrev Key := List UInt8

/-- The assertions of the item, of the server and of the session, by where they
stand. -/
inductive Assert
  | itemValuelen
  | itemTotalLen
  | appendNeeded
  | appendTotal
  | resetKey
  | storeNeeded
  | storePolicy
  | newItemNeeded
  | newItemCRLF
deriving DecidableEq, Repr

def kLongestKeySize : Nat := 250

/-- `data` are the bytes that have been received, `data_[0, receivedBytes_)`. -/
structure Item where
  keylen : Nat
  flags : UInt32
  rel_exptime : Int
  valuelen : Int
  cas : Nat
  data : List UInt8
deriving DecidableEq, Repr

namespace Item

def totalLen (x : Item) : Int := x.keylen + x.valuelen

def key (x : Item) : Key := x.data.take x.keylen

def value (x : Item) : List UInt8 := x.data.drop x.keylen

def valueLength (x : Item) : Nat := sizeOfInt x.valuelen

def neededBytes (x : Item) : Nat := sizeOfInt (x.totalLen - x.data.length)

def append (x : Item) (data : List UInt8) : Except Assert Item := do
  check .appendNeeded (data.length ≤ x.neededBytes)
  let x := { x with data := x.data ++ data }
  check .appendTotal ((x.data.length : Int) ≤ x.totalLen)
  return x

def makeItem (key : Key) (flags : UInt32) (exptime valuelen : Int) (cas : Nat) :
    Except Assert Item := do
  let x : Item := ⟨key.length, flags, exptime, valuelen, cas, []⟩
  check .itemValuelen (2 ≤ x.valuelen)
  check .itemTotalLen (0 < x.totalLen)
  x.append key

def setCas (x : Item) (cas : Nat) : Item := { x with cas }

/-- CR LF at the end. -/
def crlf : List UInt8 := [13, 10]

def endsWithCRLF (x : Item) : Bool :=
  (x.data.length : Int) = x.totalLen ∧ x.data[x.data.length - 2]? = some 13 ∧
    x.data[x.data.length - 1]? = some 10

/-! ## complete items -/

/-- The longest value that is considered. -/
def maxValue : Nat := 2 ^ 31 - 300

theorem maxValue_eq : maxValue = 2147483348 := rfl

/-- The item is `key` and `body` and CR LF. -/
structure Holds (x : Item) (key : Key) (body : List UInt8) : Prop where
  data : x.data = key ++ (body ++ crlf)
  keylen : x.keylen = key.length
  valuelen : x.valuelen = body.length + 2
  key_le : key.length ≤ kLongestKeySize
  body_lt : body.length + 2 < maxValue

variable {x y : Item} {key : Key} {body : List UInt8}

theorem Holds.key_eq (h : x.Holds key body) : x.key = key := by
  rw [Item.key, h.data, h.keylen, take_left]

theorem Holds.value_eq (h : x.Holds key body) : x.value = body ++ crlf := by
  rw [value, h.data, h.keylen, drop_left]

theorem Holds.valueLength_eq (h : x.Holds key body) : x.valueLength = body.length + 2 := by
  have hlt := h.body_lt
  rw [maxValue_eq] at hlt
  have hcast : x.valuelen = ((body.length + 2 : Nat) : Int) := by rw [h.valuelen]; rfl
  rw [valueLength, hcast, sizeOfInt_natCast (by omega)]

theorem Holds.take_value (h : x.Holds key body) : x.value.take x.valueLength = body ++ crlf := by
  rw [h.value_eq, h.valueLength_eq, take_of_length_le]
  simp [crlf]

theorem Holds.take_body (h : x.Holds key body) : x.value.take (subSize x.valueLength 2) = body := by
  have hlt := h.body_lt
  rw [maxValue_eq] at hlt
  rw [h.value_eq, h.valueLength_eq, show subSize (body.length + 2) 2 = body.length by
    unfold subSize; omega, take_left]

theorem Holds.length_data (h : x.Holds key body) : (x.data.length : Int) = x.totalLen := by
  rw [h.data, totalLen, h.keylen, h.valuelen]
  simp only [length_append, crlf, length_cons, length_nil]
  omega

theorem Holds.neededBytes_eq (h : x.Holds key body) : x.neededBytes = 0 := by
  rw [neededBytes, h.length_data, Int.sub_self]
  rfl

theorem Holds.endsWithCRLF (h : x.Holds key body) : x.endsWithCRLF := by
  have hlen := h.length_data
  have hdata : x.data = (key ++ body) ++ crlf := by rw [h.data, append_assoc]
  have hsize : x.data.length = (key ++ body).length + 2 := by rw [hdata, length_append]; rfl
  simp only [Item.endsWithCRLF, decide_eq_true_eq]
  refine ⟨hlen, ?_, ?_⟩
  · rw [hsize, hdata, Nat.add_sub_cancel, List.getElem?_append_right (Nat.le_refl _), Nat.sub_self]
    rfl
  · rw [hsize, hdata, List.getElem?_append_right (by omega)]
    rw [show (key ++ body).length + 2 - 1 - (key ++ body).length = 1 by omega]
    rfl

theorem Holds.setCas (h : x.Holds key body) (cas : Nat) : (x.setCas cas).Holds key body :=
  ⟨h.data, h.keylen, h.valuelen, h.key_le, h.body_lt⟩

/-! ## building an item -/

/-- The item has the key and the bytes `received` of its value, of which there will
be `valuelen`. -/
structure Receives (x : Item) (key : Key) (received : List UInt8) : Prop where
  data : x.data = key ++ received
  keylen : x.keylen = key.length
  room : (received.length : Int) ≤ x.valuelen
  small : x.valuelen ≤ maxValue
  key_le : key.length ≤ kLongestKeySize

theorem Receives.neededBytes_eq {received : List UInt8} (h : x.Receives key received) :
    (x.neededBytes : Int) = x.valuelen - received.length := by
  have hroom := h.room
  have hsmall := h.small
  rw [maxValue_eq] at hsmall
  rw [neededBytes, totalLen, h.data, h.keylen, length_append]
  unfold sizeOfInt
  omega

/-- What stays the same while the value arrives. -/
structure SameHead (x y : Item) : Prop where
  flags : y.flags = x.flags
  rel_exptime : y.rel_exptime = x.rel_exptime
  valuelen : y.valuelen = x.valuelen
  cas : y.cas = x.cas

/-- The item with more bytes of its value. -/
def grown (x : Item) (more : List UInt8) : Item := { x with data := x.data ++ more }

theorem Receives.append_eq {received more : List UInt8} (h : x.Receives key received)
    (hmore : (received.length : Int) + more.length ≤ x.valuelen) :
    x.append more = .ok (x.grown more) := by
  have hneeded := h.neededBytes_eq
  have hfits : ((x.data ++ more).length : Int) ≤ x.totalLen := by
    rw [totalLen, h.data, h.keylen]
    simp only [length_append]
    omega
  rw [Item.append, check_of (by omega), ok_bind]
  dsimp only
  rw [check_of (by exact hfits)]
  rfl

theorem Receives.grown {received more : List UInt8} (h : x.Receives key received)
    (hmore : (received.length : Int) + more.length ≤ x.valuelen) :
    (x.grown more).Receives key (received ++ more) where
  data := by rw [Item.grown, h.data, append_assoc]
  keylen := h.keylen
  room := by
    rw [length_append]
    exact_mod_cast hmore
  small := h.small
  key_le := h.key_le

theorem Receives.append {received more : List UInt8} (h : x.Receives key received)
    (hmore : (received.length : Int) + more.length ≤ x.valuelen) :
    ∃ y, x.append more = .ok y ∧ y.Receives key (received ++ more) ∧ SameHead x y :=
  ⟨_, h.append_eq hmore, h.grown hmore, ⟨rfl, rfl, rfl, rfl⟩⟩

theorem Receives.holds (h : x.Receives key (body ++ crlf)) (hlen : x.valuelen = body.length + 2)
    (hlt : body.length + 2 < maxValue) : x.Holds key body :=
  ⟨h.data, h.keylen, hlen, h.key_le, hlt⟩

theorem makeItem_spec (hkey : key.length ≤ kLongestKeySize) (flags : UInt32) (exptime : Int)
    {valuelen : Int} (htwo : 2 ≤ valuelen) (hsmall : valuelen ≤ maxValue) (cas : Nat) :
    ∃ y, makeItem key flags exptime valuelen cas = .ok y ∧ y.Receives key [] ∧ y.flags = flags ∧
      y.rel_exptime = exptime ∧ y.valuelen = valuelen ∧ y.cas = cas := by
  have hpos : 0 < (⟨key.length, flags, exptime, valuelen, cas, []⟩ : Item).totalLen := by
    simp only [totalLen]
    omega
  have hneeded : key.length ≤ (⟨key.length, flags, exptime, valuelen, cas, []⟩ : Item).neededBytes := by
    unfold kLongestKeySize at hkey
    rw [maxValue_eq] at hsmall
    simp only [neededBytes, totalLen, sizeOfInt, length_nil]
    omega
  have hfits : (([] ++ key : List UInt8).length : Int) ≤
      (⟨key.length, flags, exptime, valuelen, cas, [] ++ key⟩ : Item).totalLen := by
    simp only [totalLen, nil_append]
    omega
  refine ⟨⟨key.length, flags, exptime, valuelen, cas, key⟩, ?_, ?_, rfl, rfl, rfl, rfl⟩
  · rw [makeItem]
    dsimp only
    rw [check_of htwo, ok_bind, check_of hpos, ok_bind, Item.append, check_of hneeded, ok_bind]
    dsimp only
    rw [check_of (by exact hfits)]
    rfl
  · exact ⟨(append_nil _).symm, rfl, by simp only [length_nil]; omega, hsmall, hkey⟩

end Item

end Muduo.Memcached
