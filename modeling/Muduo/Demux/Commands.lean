import Muduo.Demux

/-!
# Muduo.Demux.Commands

`doCommand` understands what the multiplexer says.
-/

namespace Muduo

open Lib Multiplexer List

/-! ## numbers -/

theorem toNat_toUInt8 (ch : Char) (h : ch.toNat < 256) : ch.toUInt8.toNat = ch.toNat := by
  rw [Char.toUInt8, UInt32.toNat_toUInt8]
  exact Nat.mod_eq_of_lt h

variable {ch : Char}

theorem digit_bounds (h : ch.isDigit) :
    48 ≤ ch.toUInt8.toNat ∧ ch.toUInt8.toNat ≤ 57 ∧ ch.toUInt8.toNat = ch.toNat := by
  have hbounds : 48 ≤ ch.toNat ∧ ch.toNat ≤ 57 := Char.isDigit_iff_toNat.mp h
  rw [toNat_toUInt8 ch (by omega)]
  omega

/-- The text goes on with something that is not a digit. -/
def NoDigit (bs : List UInt8) : Prop := ∀ b ∈ bs.head?, ¬ (48 ≤ b ∧ b ≤ 57)

theorem atoiDigits_append {cs : List Char} (hcs : ∀ ch ∈ cs, ch.isDigit) {bs : List UInt8}
    (hbs : NoDigit bs) (n : Nat) :
    atoiDigits n (cs.map Char.toUInt8 ++ bs) = Nat.ofDigitChars 10 cs n := by
  induction cs generalizing n with
  | nil =>
    cases bs with
    | nil => rfl
    | cons b bs => exact if_neg (hbs b rfl)
  | cons ch cs ih =>
    obtain ⟨hlow, hhigh, hval⟩ := digit_bounds (hcs ch mem_cons_self)
    have hdigit : 48 ≤ ch.toUInt8 ∧ ch.toUInt8 ≤ 57 :=
      ⟨UInt8.le_iff_toNat_le.mpr hlow, UInt8.le_iff_toNat_le.mpr hhigh⟩
    rw [map_cons, cons_append, atoiDigits, if_pos hdigit, Nat.ofDigitChars_cons, hval]
    exact ih (fun d hd => hcs d (mem_cons_of_mem _ hd)) _

theorem atoi_eq_atoiDigits {b : UInt8} {bs : List UInt8} (hlow : 48 ≤ b.toNat)
    (hhigh : b.toNat ≤ 57) : atoi (b :: bs) = atoiDigits 0 (b :: bs) := by
  have hspace : isSpace b = false := by
    simp only [isSpace, UInt8.le_iff_toNat_le, ← UInt8.toNat_inj, decide_eq_false_iff_not]
    simp
    omega
  rw [atoi, dropWhile_cons_of_neg (by simp [hspace])]
  split
  · next h => cases h; simp at hlow
  · next h => cases h; simp at hlow
  · rfl

theorem isDigit_of_mem_decimal {n : Nat} (h : ch ∈ decimal n) : ch.isDigit :=
  Nat.isDigit_of_mem_toDigits (by decide) (by decide) h

theorem atoi_decimal (n : Nat) {bs : List UInt8} (h : NoDigit bs) :
    atoi ((decimal n).map Char.toUInt8 ++ bs) = n := by
  have hdigits := atoiDigits_append (fun ch => isDigit_of_mem_decimal (n := n)) h 0
  have hvalue : Nat.ofDigitChars 10 (decimal n) 0 = n := Nat.ofDigitChars_ten_toDigits
  rw [hvalue] at hdigits
  cases hd : decimal n with
  | nil => exact absurd hd Nat.toDigits_ne_nil
  | cons ch cs =>
    rw [hd] at hdigits
    obtain ⟨hlow, hhigh, -⟩ := digit_bounds (isDigit_of_mem_decimal (n := n) (hd ▸ mem_cons_self))
    rw [map_cons, cons_append] at hdigits ⊢
    rw [atoi_eq_atoiDigits hlow hhigh, hdigits]

/-! ## words -/

theorem contains_append (pattern bs more : List UInt8) :
    contains pattern (bs ++ (pattern ++ more)) := by
  induction bs with
  | nil =>
    cases pattern with
    | nil => cases more <;> rfl
    | cons b bs => simp [contains]
  | cons b bs ih => simp [contains, ih]

/-- The bytes of a word: no blank, and no letter that `pattern` goes on with. -/
def Word (letter : UInt8) (w : List UInt8) : Prop := ∀ b ∈ w, b ≠ 32 ∧ b ≠ letter

variable {letter : UInt8} {pattern w bs : List UInt8}

/-- What begins with a blank does not begin inside a word. -/
theorem contains_word (h : Word letter w) :
    contains (32 :: pattern) (w ++ bs) = contains (32 :: pattern) bs := by
  induction w with
  | nil => rfl
  | cons b w ih =>
    have hne : (32 : UInt8) ≠ b := fun heq => (h b mem_cons_self).1 heq.symm
    have hrest : Word letter w := fun b' hb' => h b' (mem_cons_of_mem _ hb')
    simp [contains, hne, ih hrest]

/-- Nor does it begin at the blank in front of such a word. -/
theorem contains_space_word (h : Word letter w) (hletter : letter ≠ 32) :
    contains (32 :: letter :: pattern) (32 :: (w ++ 32 :: bs)) =
      contains (32 :: letter :: pattern) (32 :: bs) := by
  have hhead : (letter :: pattern).isPrefixOf (w ++ 32 :: bs) = false := by
    cases w with
    | nil => simp [List.isPrefixOf, hletter]
    | cons b w =>
      have hne : letter ≠ b := fun heq => (h b mem_cons_self).2 heq.symm
      simp [List.isPrefixOf, hne]
  have hcons : (32 :: letter :: pattern).isPrefixOf (32 :: (w ++ 32 :: bs)) =
      (letter :: pattern).isPrefixOf (w ++ 32 :: bs) := by simp [List.isPrefixOf]
  rw [contains, hcons, hhead, Bool.false_or, contains_word h]

/-! ## messages -/

namespace DemuxServer

variable {id : Nat} {addr : PeerAddress} {d : DemuxServer}

theorem length_toIpPort_le (addr : InetAddress) : addr.toIpPort.length ≤ 63 := by
  have hip := addr.ip_length
  unfold INET6_ADDRSTRLEN at hip
  simp only [InetAddress.toIpPort, snprintf, length_append, length_take]
  omega

variable {status : String}

theorem connMessage_eq (h : id < 2 ^ 16) (hstatus : status.length ≤ 4) :
    MultiplexServer.connMessage id addr.toInetAddress status =
      ascii "CONN " ++ ((decimal id).map Char.toUInt8 ++ (ascii " FROM " ++
        (addr.toIpPort.map Char.toUInt8 ++ (ascii " IS " ++ (ascii status ++ ascii "\r\n"))))) := by
  have hid : (decimal id).length ≤ 5 := length_decimal_le (by decide) (by omega)
  have haddr := length_toIpPort_le addr.toInetAddress
  have hconst : "CONN ".toList.length = 5 ∧ " FROM ".toList.length = 6 ∧ " IS ".toList.length = 4 ∧
      "\r\n".toList.length = 2 := by decide
  rw [MultiplexServer.connMessage, snprintf_of_length]
  · simp only [ascii, map_append, append_assoc]
  · simp only [length_append, String.length_toList, hconst]
    rw [String.length_toList] at hconst
    omega

theorem word_of_isDigit {cs : List Char} (h : ∀ ch ∈ cs, ch.isDigit) :
    Word 73 (cs.map Char.toUInt8) := by
  intro b hb
  obtain ⟨ch, hch, rfl⟩ := mem_map.mp hb
  obtain ⟨hlow, hhigh, -⟩ := digit_bounds (h ch hch)
  constructor
  all_goals
    intro heq
    rw [heq] at hlow hhigh
    simp at hlow hhigh

theorem word_of_isInetChar (h : isInetChar ch) : ch.toUInt8 ≠ 32 ∧ ch.toUInt8 ≠ 73 := by
  simp only [isInetChar, Bool.or_eq_true, Bool.and_eq_true, decide_eq_true_eq, beq_iff_eq] at h
  have hval := toNat_toUInt8 ch (by omega)
  constructor
  all_goals
    intro heq
    rw [heq] at hval
    simp at hval
    omega

theorem word_toIpPort : Word 73 (addr.toIpPort.map Char.toUInt8) := by
  intro b hb
  obtain ⟨ch, hch, rfl⟩ := mem_map.mp hb
  rw [InetAddress.toIpPort, mem_append] at hch
  obtain hip | hport := hch
  · exact word_of_isInetChar (all_eq_true.mp addr.ip_chars ch hip)
  · obtain rfl | hdigit := mem_cons.mp (mem_of_mem_take hport)
    · decide
    · exact word_of_isDigit (fun _ => isDigit_of_mem_decimal) _ (mem_map_of_mem hdigit)

theorem contains_up (h : id < 2 ^ 16) :
    contains (ascii " IS UP") (MultiplexServer.connMessage id addr.toInetAddress "UP") := by
  rw [connMessage_eq h (by decide)]
  have hpattern : ascii " IS " ++ (ascii "UP" ++ ascii "\r\n") = ascii " IS UP" ++ ascii "\r\n" := by
    decide
  rw [hpattern]
  simp only [← append_assoc]
  rw [append_assoc]
  exact contains_append _ _ _

theorem contains_down (h : id < 2 ^ 16) :
    contains (ascii " IS UP") (MultiplexServer.connMessage id addr.toInetAddress "DOWN") = false := by
  have hconn : ascii "CONN " = ascii "CONN" ++ [32] := by decide
  have hfrom : ascii " FROM " = 32 :: (ascii "FROM" ++ [32]) := by decide
  have his : ascii " IS " = 32 :: ascii "IS " := by decide
  have hpattern : ascii " IS UP" = 32 :: 73 :: ascii "S UP" := by decide
  have hword : Word 73 (ascii "CONN") ∧ Word 73 (ascii "FROM") := by
    constructor <;> unfold Word <;> decide +kernel
  rw [connMessage_eq h (by decide), hconn, hfrom, his, hpattern]
  simp only [append_assoc, cons_append, nil_append]
  rw [contains_word hword.1, contains_space_word (word_of_isDigit fun _ => isDigit_of_mem_decimal)
    (by decide), contains_space_word hword.2 (by decide), contains_space_word word_toIpPort (by decide)]
  decide

theorem atoi_connMessage (h : id < 2 ^ 16) (hstatus : status.length ≤ 4) :
    atoi ((MultiplexServer.connMessage id addr.toInetAddress status).drop (ascii "CONN ").length) =
      id := by
  rw [connMessage_eq h hstatus, drop_left]
  exact atoi_decimal id fun b hb => by
    cases (Option.mem_some.mp hb : _ = b)
    decide

theorem doCommand_up (addr : PeerAddress) (h : id < 2 ^ 16) :
    d.doCommand (MultiplexServer.connMessage id addr.toInetAddress "UP") = d.commandUp id := by
  rw [doCommand, atoi_connMessage h (by decide), contains_up h]
  rfl

theorem doCommand_down (addr : PeerAddress) (h : id < 2 ^ 16) :
    d.doCommand (MultiplexServer.connMessage id addr.toInetAddress "DOWN") = d.commandDown id := by
  rw [doCommand, atoi_connMessage h (by decide), contains_down h]
  rfl

/-! ## the message that goes back -/

theorem disconnectMessage_eq (id : Nat) : disconnectMessage id =
    ascii "DISCONNECT " ++ ((decimal id).map Char.toUInt8 ++ ascii "\r\n") := by
  unfold disconnectMessage
  simp only [ascii, map_append, append_assoc]

theorem length_disconnectMessage_le (h : id < 2 ^ 16) :
    (disconnectMessage id).length ≤ kMaxPacketLen := by
  have hid : (decimal id).length ≤ 5 := length_decimal_le (by decide) (by omega)
  have hconst : (ascii "DISCONNECT ").length = 11 ∧ (ascii "\r\n").length = 2 := by decide
  rw [disconnectMessage_eq, length_append, length_append, length_map, hconst.1,
    hconst.2]
  unfold kMaxPacketLen
  omega

theorem disconnectMessage_ne_nil (id : Nat) : disconnectMessage id ≠ [] := by
  rw [disconnectMessage_eq]
  exact append_ne_nil_of_left_ne_nil (by decide) _

end DemuxServer

end Muduo
