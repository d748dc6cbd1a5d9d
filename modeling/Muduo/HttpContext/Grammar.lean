import Muduo.HttpContext.Parse

/-!
# Muduo.HttpContext.Grammar

The lines that `processRequestLine` accepts.

The line is cut at its first blank, the rest of it at the next one, and the target
between them at its first question mark; `idxOf_append_cons` is what each of these
searches finds.  `requestLine_grammar` says that exactly the lines of the grammar are
accepted, and what becomes of their parts.
-/

namespace Muduo.HttpContext

open List

open HttpRequest

/-! ## searches -/

theorem idxOf_append_cons {a : UInt8} {pre : List UInt8} (h : a ∉ pre) (post : List UInt8) :
    (pre ++ a :: post).idxOf a = pre.length := by
  rw [idxOf_append_of_notMem h, idxOf_cons_self, Nat.add_zero]

theorem length_ne_append_cons (pre : List UInt8) (a : UInt8) (post : List UInt8) :
    pre.length ≠ (pre ++ a :: post).length := by
  rw [length_append, length_cons]
  omega

theorem drop_length_succ (pre : List UInt8) (a : UInt8) (post : List UInt8) :
    (pre ++ a :: post).drop (pre.length + 1) = post := by
  rw [← drop_drop, drop_left, drop_one, tail_cons]

/-! ## the grammar -/

inductive IsMethod : List UInt8 → Method → Prop
  | get : IsMethod (ascii "GET") .kGet
  | post : IsMethod (ascii "POST") .kPost
  | head : IsMethod (ascii "HEAD") .kHead
  | put : IsMethod (ascii "PUT") .kPut
  | delete : IsMethod (ascii "DELETE") .kDelete

inductive IsMinor : UInt8 → Version → Prop
  | zero : IsMinor '0'.toUInt8 .kHttp10
  | one : IsMinor '1'.toUInt8 .kHttp11

/-- The line is `m`, a blank, the target `t`, and `HTTP/1.d` behind another blank. -/
structure IsLine (line m t : List UInt8) (d : UInt8) (method : Method) (version : Version) : Prop where
  line_eq : line = m ++ ascii " " ++ t ++ ascii " HTTP/1." ++ [d]
  isMethod : IsMethod m method
  no_blank : ' '.toUInt8 ∉ t
  isMinor : IsMinor d version

variable {m : List UInt8} {method : Method} {version : Version} {r : HttpRequest}
  {line : List UInt8}

theorem isMethod_iff : IsMethod m method ↔ methodOf m = method ∧ method ≠ .kInvalid := by
  constructor
  · intro h
    cases h <;> decide
  · rintro ⟨rfl, hvalid⟩
    unfold methodOf at hvalid ⊢
    split_ifs at hvalid ⊢ with hget hpost hhead hput hdelete
    · exact hget ▸ .get
    · exact hpost ▸ .post
    · exact hhead ▸ .head
    · exact hput ▸ .put
    · exact hdelete ▸ .delete
    · exact absurd rfl hvalid

theorem not_mem_of_isMethod (h : IsMethod m method) : ' '.toUInt8 ∉ m := by
  cases h <;> decide

theorem isMinor_iff {d : UInt8} :
    IsMinor d version ↔ d = '1'.toUInt8 ∧ version = .kHttp11 ∨ d = '0'.toUInt8 ∧ version = .kHttp10 := by
  constructor
  · rintro (_ | _)
    · exact .inr ⟨rfl, rfl⟩
    · exact .inl ⟨rfl, rfl⟩
  · rintro (⟨rfl, rfl⟩ | ⟨rfl, rfl⟩)
    · exact .one
    · exact .zero

theorem eq_concat_of_getLast? {tail pre : List UInt8} {d : UInt8} {n : Nat}
    (hlen : tail.length = n + 1) (htake : tail.take n = pre) (hlast : tail.getLast? = some d) :
    tail = pre ++ [d] := by
  obtain ⟨front, rfl⟩ := List.getLast?_eq_some_iff.1 hlast
  rw [length_append, length_singleton] at hlen
  rw [← htake, take_append_of_le_length (by omega), take_of_length_le (by omega)]

/-- The version is read from exactly eight bytes. -/
theorem versionOf_eq_some_iff {tail : List UInt8} :
    versionOf tail = some version ↔ ∃ d, tail = ascii "HTTP/1." ++ [d] ∧ IsMinor d version := by
  simp only [isMinor_iff]
  constructor
  · intro h
    unfold versionOf at h
    split_ifs at h with htail hone hzero
    · exact ⟨_, eq_concat_of_getLast? htail.1 htail.2 hone, .inl ⟨rfl, (Option.some.inj h).symm⟩⟩
    · exact ⟨_, eq_concat_of_getLast? htail.1 htail.2 hzero, .inr ⟨rfl, (Option.some.inj h).symm⟩⟩
  · rintro ⟨d, rfl, ⟨rfl, rfl⟩ | ⟨rfl, rfl⟩⟩
    · decide
    · decide

/-! ## the target -/

/-- The request after `setPath` and `setQuery`. -/
def withTarget (r : HttpRequest) (target : List UInt8) : HttpRequest :=
  if target.idxOf '?'.toUInt8 ≠ target.length then
    (r.setPath (target.take (target.idxOf '?'.toUInt8))).setQuery
      (target.drop (target.idxOf '?'.toUInt8))
  else r.setPath target

/-- The path is what is in front of the first question mark, and the query the rest. -/
structure SplitsTarget (r : HttpRequest) (target : List UInt8) : Prop where
  path_query : r.path ++ r.query = target
  path : '?'.toUInt8 ∉ r.path
  query : r.query = [] ∨ r.query.head? = some '?'.toUInt8

theorem splitsTarget_withTarget (h : r.query = []) (target : List UInt8) :
    SplitsTarget (withTarget r target) target := by
  by_cases hmem : '?'.toUInt8 ∈ target
  · obtain ⟨path, query, rfl, hpath⟩ := eq_append_cons_of_mem hmem
    rw [withTarget, idxOf_append_cons hpath, if_pos (length_ne_append_cons _ _ _), take_left,
      drop_left]
    exact ⟨rfl, hpath, .inr rfl⟩
  · rw [withTarget, if_neg (not_not.2 (idxOf_eq_length hmem))]
    exact ⟨by rw [setPath, h, append_nil], hmem, .inl h⟩

theorem processTarget_append {target : List UInt8} (h : ' '.toUInt8 ∉ target) (r : HttpRequest)
    (tail : List UInt8) :
    processTarget r (target ++ ' '.toUInt8 :: tail) = match versionOf tail with
      | some version => (true, (withTarget r target).setVersion version)
      | none => (false, withTarget r target) := by
  simp only [processTarget, idxOf_append_cons h, if_pos (length_ne_append_cons target _ tail),
    take_left, drop_length_succ]
  rfl

theorem processTarget_of_not_mem (h : ' '.toUInt8 ∉ line) (r : HttpRequest) :
    processTarget r line = (false, r) := by
  simp only [processTarget, if_neg (not_not.2 (idxOf_eq_length h))]

/-! ## the request line -/

theorem processRequestLine_append (h : ' '.toUInt8 ∉ m) (rest : List UInt8) :
    processRequestLine .create (m ++ ' '.toUInt8 :: rest) =
      if methodOf m = .kInvalid then .ok (false, .create)
      else .ok (processTarget { HttpRequest.create with method := methodOf m } rest) := by
  have hfresh : HttpRequest.create.method = .kInvalid := rfl
  rw [processRequestLine_eq, idxOf_append_cons h, if_neg (length_ne_append_cons _ _ _), if_pos hfresh,
    take_left, drop_length_succ]

/-- The request of a line: its parts, and nothing else. -/
structure Filled (r : HttpRequest) (t : List UInt8) (method : Method) (version : Version) : Prop where
  method : r.method = method
  version : r.version = version
  target : SplitsTarget r t
  headers : r.headers = ∅

theorem filled_setVersion (t : List UInt8) (method : Method) (version : Version) :
    Filled ((withTarget { HttpRequest.create with method } t).setVersion version) t method version := by
  have hsplit := splitsTarget_withTarget (r := { HttpRequest.create with method }) rfl t
  refine ⟨?_, rfl, ⟨hsplit.path_query, hsplit.path, hsplit.query⟩, ?_⟩
  · unfold withTarget
    split <;> rfl
  · unfold withTarget
    split <;> rfl

theorem IsLine.processRequestLine {line m t : List UInt8} {d : UInt8}
    (h : IsLine line m t d method version) :
    HttpContext.processRequestLine .create line =
      .ok (true, (withTarget { HttpRequest.create with method } t).setVersion version) := by
  obtain ⟨hmethod, hvalid⟩ := isMethod_iff.1 h.isMethod
  have hline : line = m ++ ' '.toUInt8 :: (t ++ ' '.toUInt8 :: (ascii "HTTP/1." ++ [d])) := by
    rw [h.line_eq]
    simp [ascii]
  have hversion : versionOf (ascii "HTTP/1." ++ [d]) = some version :=
    versionOf_eq_some_iff.2 ⟨d, rfl, h.isMinor⟩
  rw [hline, processRequestLine_append (not_mem_of_isMethod h.isMethod), hmethod, if_neg hvalid,
    processTarget_append h.no_blank, hversion]

theorem exists_isLine (h : processRequestLine .create line = .ok (true, r)) :
    ∃ m t d method version, IsLine line m t d method version := by
  by_cases hblank : ' '.toUInt8 ∈ line
  · obtain ⟨m, rest, rfl, hm⟩ := eq_append_cons_of_mem hblank
    rw [processRequestLine_append hm] at h
    split_ifs at h with hmethod
    · cases h
    · by_cases hrest : ' '.toUInt8 ∈ rest
      · obtain ⟨t, tail, rfl, ht⟩ := eq_append_cons_of_mem hrest
        rw [processTarget_append ht] at h
        cases hversion : versionOf tail with
        | none => rw [hversion] at h; cases h
        | some version =>
          obtain ⟨d, rfl, hd⟩ := versionOf_eq_some_iff.1 hversion
          exact ⟨m, t, d, _, version, by simp [ascii], isMethod_iff.2 ⟨rfl, hmethod⟩, ht, hd⟩
      · rw [processTarget_of_not_mem hrest] at h
        cases h
  · rw [processRequestLine_eq, if_pos (idxOf_eq_length hblank)] at h
    cases h

theorem headers_of_processRequestLine
    (h : processRequestLine .create line = .ok (true, r)) : r.headers = ∅ := by
  obtain ⟨m, t, d, method, version, hline⟩ := exists_isLine h
  obtain rfl := (Prod.mk.inj (Except.ok.inj (h.symm.trans hline.processRequestLine))).2
  exact (filled_setVersion t method version).headers

/-- **The request line.**  A line is accepted exactly if it is one of the grammar, and then its
parts are in the request. -/
theorem requestLine_grammar (line : List UInt8) :
    ∃ ok r, processRequestLine .create line = .ok (ok, r) ∧
      (ok = true ↔ ∃ m t d method version, IsLine line m t d method version) ∧
      ∀ m t d method version, IsLine line m t d method version → Filled r t method version := by
  obtain ⟨r, hr, -, -⟩ := processRequestLine_of_kInvalid (r := .create) rfl line
  refine ⟨_, r, hr, ⟨fun hok => ?_, ?_⟩, fun m t d method version hline => ?_⟩
  · rw [hok] at hr
    exact exists_isLine hr
  · rintro ⟨m, t, d, method, version, hline⟩
    have heq := hr.symm.trans hline.processRequestLine
    exact (Prod.mk.inj (Except.ok.inj heq)).1
  · have heq := hr.symm.trans hline.processRequestLine
    obtain ⟨-, rfl⟩ := Prod.mk.inj (Except.ok.inj heq)
    exact filled_setVersion t method version

end Muduo.HttpContext
