import Mathlib.Tactic.Ring

/-!
# Muduo.Lib.Word

Machine words on natural numbers: 64-bit unsigned arithmetic with its
wrap-around, the narrowing conversion to a 32-bit `int`, and the bytes of a
fixed-width integer in memory.

A host stores an integer in one of two byte orders; `hostToNetwork` is the
conversion whose result, stored on the same host, has its bytes in network
(big-endian) order (`objectBytes_hostToNetwork`).
-/

namespace Lib

open List

/-! ## 64-bit unsigned arithmetic -/

/-- `a + b` on 64-bit unsigned integers. -/
def addSize (a b : Nat) : Nat := (a + b) % 2 ^ 64

/-- `a - b` on 64-bit unsigned integers. -/
def subSize (a b : Nat) : Nat := (a + (2 ^ 64 - b)) % 2 ^ 64

theorem addSize_of_lt {a b : Nat} (h : a + b < 2 ^ 64) : addSize a b = a + b :=
  Nat.mod_eq_of_lt h

theorem addSize_of_ge {a b : Nat} (ha : a < 2 ^ 64) (hb : b < 2 ^ 64) (h : 2 ^ 64 ≤ a + b) :
    addSize a b = a + b - 2 ^ 64 := by
  unfold addSize
  omega

theorem subSize_of_le {a b : Nat} (ha : a < 2 ^ 64) (h : b ≤ a) : subSize a b = a - b := by
  unfold subSize
  omega

/-! ## narrowing -/

/-- `static_cast<int>` of an unsigned 64-bit value: the low 32 bits read as
a two's complement number. -/
def intOfSize (n : Nat) : Int := Int.bmod n (2 ^ 32)

/-- The conversion of an `int` to an unsigned 64-bit value. -/
def sizeOfInt (i : Int) : Nat := (i % 2 ^ 64).toNat

theorem intOfSize_of_lt {n : Nat} (h : n < 2 ^ 31) : intOfSize n = n :=
  Int.bmod_eq_of_le (by omega) (by omega)

theorem emod_intOfSize (n : Nat) : intOfSize n % 2 ^ 32 = n % 2 ^ 32 := Int.bmod_emod

theorem sizeOfInt_natCast {n : Nat} (h : n < 2 ^ 64) : sizeOfInt n = n := by
  unfold sizeOfInt
  omega

theorem sizeOfInt_intOfSize {n : Nat} (h : n < 2 ^ 31) : sizeOfInt (intOfSize n) = n := by
  rw [intOfSize_of_lt h, sizeOfInt_natCast (by omega)]

/-! ## bytes of an integer -/

/-- The `n` low bytes of `x`, least significant first. -/
def leBytes : Nat → Nat → List UInt8
  | 0, _ => []
  | n + 1, x => UInt8.ofNat x :: leBytes n (x / 256)

/-- The number whose bytes, least significant first, are given. -/
def leValue : List UInt8 → Nat
  | [] => 0
  | b :: bs => b.toNat + 256 * leValue bs

@[simp] theorem length_leBytes (n x : Nat) : (leBytes n x).length = n := by
  induction n generalizing x with
  | zero => rfl
  | succ n ih => rw [leBytes, length_cons, ih]

theorem leValue_lt (bs : List UInt8) : leValue bs < 256 ^ bs.length := by
  induction bs with
  | nil => simp [leValue]
  | cons b bs ih =>
    have hb : b.toNat < 256 := b.toNat_lt
    rw [leValue, length_cons, Nat.pow_succ]
    omega

theorem leValue_leBytes (n x : Nat) : leValue (leBytes n x) = x % 256 ^ n := by
  induction n generalizing x with
  | zero => simp [leBytes, leValue, Nat.mod_one]
  | succ n ih =>
    have hb : (UInt8.ofNat x).toNat = x % 256 := by simp
    rw [leBytes, leValue, ih, hb, Nat.pow_succ, Nat.mul_comm (256 ^ n) 256, Nat.mod_mul]

theorem leBytes_leValue (bs : List UInt8) : leBytes bs.length (leValue bs) = bs := by
  induction bs with
  | nil => rfl
  | cons b bs ih =>
    have hb : b.toNat < 256 := b.toNat_lt
    have hhead : UInt8.ofNat (b.toNat + 256 * leValue bs) = b := by
      apply UInt8.toNat.inj
      rw [UInt8.toNat_ofNat']
      omega
    have htail : (b.toNat + 256 * leValue bs) / 256 = leValue bs := by omega
    rw [length_cons, leValue, leBytes, hhead, htail, ih]

/-- The `n` low bytes of `x` in network order, most significant first. -/
def beBytes (n x : Nat) : List UInt8 := (leBytes n x).reverse

/-- The number whose bytes in network order are given. -/
def beValue (bs : List UInt8) : Nat := leValue bs.reverse

@[simp] theorem length_beBytes (n x : Nat) : (beBytes n x).length = n := by
  simp [beBytes]

theorem beValue_lt (bs : List UInt8) : beValue bs < 256 ^ bs.length := by
  rw [← length_reverse]
  exact leValue_lt bs.reverse

theorem beValue_beBytes {n x : Nat} (h : x < 256 ^ n) : beValue (beBytes n x) = x := by
  rw [beValue, beBytes, reverse_reverse, leValue_leBytes, Nat.mod_eq_of_lt h]

theorem beBytes_beValue (bs : List UInt8) : beBytes bs.length (beValue bs) = bs := by
  rw [beBytes, beValue, ← length_reverse, leBytes_leValue, reverse_reverse]

/-! ## host byte order -/

/-- The byte order of the machine. -/
inductive ByteOrder
  | little
  | big
deriving DecidableEq, Repr

/-- The bytes of an `n`-byte integer in the memory of the machine. -/
def objectBytes (host : ByteOrder) (n x : Nat) : List UInt8 :=
  match host with
  | .little => leBytes n x
  | .big => beBytes n x

/-- The `n`-byte integer whose bytes in the memory of the machine are given. -/
def objectValue (host : ByteOrder) (bs : List UInt8) : Nat :=
  match host with
  | .little => leValue bs
  | .big => beValue bs

/-- `htobe16`, `htobe32`, `htobe64`: swap the bytes on a little-endian
machine, do nothing on a big-endian one. -/
def hostToNetwork (host : ByteOrder) (n x : Nat) : Nat :=
  match host with
  | .little => leValue (leBytes n x).reverse
  | .big => x

/-- `be16toh`, `be32toh`, `be64toh`. -/
def networkToHost (host : ByteOrder) (n x : Nat) : Nat := hostToNetwork host n x

/-- Stored after the conversion, an integer has its bytes in network order. -/
theorem objectBytes_hostToNetwork (host : ByteOrder) (n x : Nat) :
    objectBytes host n (hostToNetwork host n x) = beBytes n x := by
  cases host with
  | big => rfl
  | little =>
    have h := leBytes_leValue (leBytes n x).reverse
    rw [length_reverse, length_leBytes] at h
    rw [objectBytes, hostToNetwork, h, beBytes]

/-- Loaded and converted, bytes are read in network order. -/
theorem networkToHost_objectValue (host : ByteOrder) (bs : List UInt8) :
    networkToHost host bs.length (objectValue host bs) = beValue bs := by
  cases host with
  | big => rfl
  | little =>
    rw [networkToHost, hostToNetwork, objectValue, leBytes_leValue]
    rfl

end Lib
