import Muduo.Lib.FlatArray
import Muduo.Lib.Outcome

/-!
# Muduo.FakeTcp

The echo replies of `recipes/faketcp/faketcp.cc`, on a little-endian machine.

`icmp_input` turns an echo request into a reply in place, and corrects the checksum for the
change of the type instead of computing it again.  The sum is one's complement, and the
correction is not: it is off by one when it wraps around.
-/

namespace Muduo.FakeTcp

open Lib List

/-- An assertion that fails, a sum that `int` does not hold, a byte outside of the packet or
behind the buffer, or a loop without end. -/
inductive Fault
  | assertion
  | overflow
  | outOfBounds
  | diverges
deriving DecidableEq, Repr

def ETH_FRAME_LEN : Nat := 1514

def ICMP_ECHOREPLY : UInt8 := 0

def ICMP_ECHO : UInt8 := 8

/-- A `uint16_t` in memory. -/
def word (lo hi : UInt8) : Nat := lo.toNat + 256 * hi.toNat

/-- The loop over the words. -/
def addWords : List UInt8 → Nat → Except Fault Nat
  | lo :: hi :: bytes, sum => do
    check .overflow (sum + word lo hi < 2 ^ 31)
    addWords bytes (sum + word lo hi)
  | _, sum => .ok sum

/-- `while (sum >> 16)`.  An `int` has no more bits than there are iterations. -/
def foldCarries : Nat → Nat → Except Fault Nat
  | 0, _ => .error .diverges
  | fuel + 1, sum =>
    if sum / 2 ^ 16 ≠ 0 then foldCarries fuel (sum % 2 ^ 16 + sum / 2 ^ 16) else .ok sum

def inChecksum (bytes : List UInt8) : Except Fault Nat := do
  check .assertion (bytes.length % 2 = 0)
  let sum ← addWords bytes 0
  let sum ← foldCarries 32 sum
  check .assertion (sum ≤ 0xFFFF)
  return 0xFFFF - sum

/-- The packet in `output`, after the assignments and the swap. -/
def echoReply (output : List UInt8) : List UInt8 :=
  let checksum := (word (output.getD 22 0) (output.getD 23 0) + ICMP_ECHO.toNat) % 2 ^ 16
  let output := overwrite output 20 [ICMP_ECHOREPLY]
  let output := overwrite output 22 [UInt8.ofNat checksum, UInt8.ofNat (checksum / 256)]
  let saddr := slice output 12 16
  overwrite (overwrite output 12 (slice output 16 20)) 16 saddr

/-- What `icmp_input` writes, for the packet `input` with its ICMP part at `payload`. -/
def icmpInput (input payload : List UInt8) : Except Fault (Option (List UInt8)) :=
  match payload with
  | [] => .error .outOfBounds
  | type :: _ =>
    if type = ICMP_ECHO then do
      check .outOfBounds (24 ≤ input.length ∧ input.length ≤ ETH_FRAME_LEN)
      return some (echoReply input)
    else .ok none

/-! ## checksums -/

/-- The sum of the words. -/
def total : List UInt8 → Nat
  | lo :: hi :: bytes => word lo hi + total bytes
  | _ => 0

section
variable {bytes bytes' : List UInt8} {sum : Nat}

theorem word_lt (lo hi : UInt8) : word lo hi < 2 ^ 16 := by
  have hlo := lo.toNat_lt
  have hhi := hi.toNat_lt
  unfold word
  omega

theorem total_append (h : bytes.length % 2 = 0) : total (bytes ++ bytes') = total bytes + total bytes' := by
  fun_induction total bytes with
  | case1 lo hi bytes ih => grind [total]
  | case2 bytes hnot =>
    cases bytes with
    | nil => simp
    | cons b bytes => cases bytes <;> grind

theorem total_le (bytes : List UInt8) : total bytes ≤ 2 ^ 15 * bytes.length := by
  fun_induction total bytes with
  | case1 lo hi bytes ih =>
    have hword := word_lt lo hi
    grind
  | case2 => omega

theorem addWords_eq (h : sum + total bytes < 2 ^ 31) : addWords bytes sum = .ok (sum + total bytes) := by
  fun_induction addWords bytes sum with
  | case1 lo hi bytes sum ih =>
    rw [total] at h ⊢
    rw [check_of (by omega), ok_bind, ih (by omega), Nat.add_assoc]
  | case2 bytes sum hnot => grind [total]

/-- The sum in one's complement, where 0 is the sum of no words or of words that are all 0. -/
theorem foldCarries_eq (h : sum < 2 ^ 31) :
    foldCarries 32 sum = .ok (if sum = 0 then 0 else (sum - 1) % 65535 + 1) := by
  have hround (fuel n : Nat) (hn : n < 2 ^ 16) : foldCarries (fuel + 1) n = .ok n := by
    rw [foldCarries, if_neg (by omega)]
  by_cases hsmall : sum < 2 ^ 16
  · rw [hround 31 sum hsmall]
    split
    · congr 1
    · congr 1
      omega
  · rw [foldCarries, if_pos (by omega), if_neg (by omega)]
    by_cases hnext : sum % 2 ^ 16 + sum / 2 ^ 16 < 2 ^ 16
    · rw [hround 30 _ hnext]
      congr 1
      omega
    · rw [foldCarries, if_pos (by omega), hround 29 _ (by omega)]
      congr 1
      omega

theorem inChecksum_eq (heven : bytes.length % 2 = 0) (h : bytes.length ≤ ETH_FRAME_LEN) :
    inChecksum bytes =
      .ok (65535 - if total bytes = 0 then 0 else (total bytes - 1) % 65535 + 1) := by
  have hle := total_le bytes
  unfold ETH_FRAME_LEN at h
  have hfold := foldCarries_eq (show total bytes < 2 ^ 31 by omega)
  rw [inChecksum, check_of heven, ok_bind, addWords_eq (by omega), ok_bind, Nat.zero_add, hfold,
    ok_bind, check_of (by split <;> omega), ok_bind]
  rfl

end

/-! ## replies -/

section
variable {ip saddr daddr data : List UInt8} {code lo hi : UInt8}

theorem echoReply_eq (hip : ip.length = 12) (hsaddr : saddr.length = 4) (hdaddr : daddr.length = 4) :
    echoReply (ip ++ (saddr ++ (daddr ++ ICMP_ECHO :: code :: lo :: hi :: data))) =
      ip ++ (daddr ++ (saddr ++ ICMP_ECHOREPLY :: code ::
        UInt8.ofNat ((word lo hi + 8) % 2 ^ 16) ::
        UInt8.ofNat ((word lo hi + 8) % 2 ^ 16 / 256) :: data)) := by
  simp [echoReply, overwrite, slice, take_append, drop_append, List.getElem?_append,
    take_of_length_le, drop_eq_nil_of_le, hip, hsaddr, hdaddr, ICMP_ECHO]

theorem word_bytes {n : Nat} (h : n < 2 ^ 16) :
    word (UInt8.ofNat n) (UInt8.ofNat (n / 256)) = n := by
  simp only [word, UInt8.toNat_ofNat']
  omega

/-- **An echo reply.**  The IP header has the sum of that of the request.  The ICMP part of a
request with a valid checksum is answered by one with a valid checksum, unless the addition to
the checksum field wraps around. -/
theorem echo_reply_exact (header data : List UInt8) (code lo hi : UInt8)
    (hheader : header.length = 20) (heven : data.length % 2 = 0)
    (hlen : header.length + (4 + data.length) ≤ ETH_FRAME_LEN)
    (hvalid : inChecksum (ICMP_ECHO :: code :: lo :: hi :: data) = .ok 0) :
    ∃ header' icmp, icmpInput (header ++ ICMP_ECHO :: code :: lo :: hi :: data)
        (ICMP_ECHO :: code :: lo :: hi :: data) = .ok (some (header' ++ icmp)) ∧
      header'.length = 20 ∧ slice header' 10 12 = slice header 10 12 ∧
      inChecksum header' = inChecksum header ∧
      (inChecksum icmp = .ok 0 ↔ word lo hi < 0xFFF8) := by
  obtain ⟨ip, saddr, daddr, rfl, hip, hsaddr, hdaddr⟩ : ∃ ip saddr daddr : List UInt8,
      header = ip ++ (saddr ++ daddr) ∧ ip.length = 12 ∧ saddr.length = 4 ∧ daddr.length = 4 :=
    ⟨header.take 12, (header.drop 12).take 4, (header.drop 12).drop 4,
      by rw [take_append_drop, take_append_drop], by simp [hheader],
      by simp [hheader], by simp [hheader]⟩
  have hframe : (ip ++ (saddr ++ daddr)).length ≤ ETH_FRAME_LEN := by omega
  refine ⟨ip ++ (daddr ++ saddr), ICMP_ECHOREPLY :: code :: UInt8.ofNat ((word lo hi + 8) % 2 ^ 16) ::
    UInt8.ofNat ((word lo hi + 8) % 2 ^ 16 / 256) :: data, ?_, ?_, ?_, ?_, ?_⟩
  · simp only [append_assoc] at hlen ⊢
    rw [icmpInput, if_pos rfl, check_of, ok_bind, echoReply_eq hip hsaddr hdaddr]
    · rfl
    · simp [hip, hsaddr, hdaddr] at hlen ⊢
      omega
  · simp [hip, hsaddr, hdaddr]
  · rw [slice_append_right _ _ (by omega), slice_append_right _ _ (by omega)]
  · have hswap : total (ip ++ (daddr ++ saddr)) = total (ip ++ (saddr ++ daddr)) := by
      rw [total_append (by omega), total_append (by omega), total_append (by omega),
        total_append (by omega), Nat.add_comm (total daddr)]
    rw [inChecksum_eq (by simp [*]) (by simpa [*] using hframe), hswap,
      inChecksum_eq (by simp [*]) hframe]
  · have hword := word_lt lo hi
    have htype : word ICMP_ECHO code = word ICMP_ECHOREPLY code + 8 := by
      simp [word, ICMP_ECHO, ICMP_ECHOREPLY]
      omega
    have hsmall : (ICMP_ECHO :: code :: lo :: hi :: data).length ≤ ETH_FRAME_LEN := by
      simp only [length_cons]
      omega
    rw [inChecksum_eq (by simp; omega) hsmall] at hvalid
    rw [inChecksum_eq (by simp; omega) (by exact hsmall)]
    simp only [total, htype, word_bytes (Nat.mod_lt (word lo hi + 8) (by decide : 0 < 2 ^ 16)),
      Except.ok.injEq] at hvalid ⊢
    split_ifs at hvalid ⊢ <;> omega

end

/-- A request with the identifier 0 and no payload, and one whose checksum field is `0xFFF8`. -/
theorem echo_reply_exact_empty :
    inChecksum [8, 0, 247, 255, 0, 0, 0, 0] = .ok 0 ∧
    ∃ header' icmp, icmpInput (List.replicate 20 0 ++ [8, 0, 247, 255, 0, 0, 0, 0])
        [8, 0, 247, 255, 0, 0, 0, 0] = .ok (some (header' ++ icmp)) ∧
      header'.length = 20 ∧ slice header' 10 12 = slice (List.replicate 20 0) 10 12 ∧
      inChecksum header' = inChecksum (List.replicate 20 0) ∧
      (inChecksum icmp = .ok 0 ↔ word 247 255 < 0xFFF8) :=
  ⟨by decide, echo_reply_exact (List.replicate 20 0) [0, 0, 0, 0] 0 247 255 (by decide) (by decide)
    (by decide) (by decide)⟩

/-- **The reply is wrong** when the checksum field of the request is `0xFFF8`. -/
theorem echo_reply_wraps :
    inChecksum [8, 0, 0xF8, 0xFF, 0xFE, 0xFF, 0, 0] = .ok 0 ∧
    icmpInput (List.replicate 20 0 ++ [8, 0, 0xF8, 0xFF, 0xFE, 0xFF, 0, 0])
      [8, 0, 0xF8, 0xFF, 0xFE, 0xFF, 0, 0] =
      .ok (some (List.replicate 20 0 ++ [0, 0, 0, 0, 0xFE, 0xFF, 0, 0])) ∧
    inChecksum [0, 0, 0, 0, 0xFE, 0xFF, 0, 0] = .ok 1 := by
  decide

end Muduo.FakeTcp
