import Muduo.HttpContext.Grammar
import Muduo.HttpContext.Segmentation

/-!
# Muduo.HttpContext.Headers

Where the headers end, and what they are.

The end of the headers is a line without a colon, of which the empty line is one.
-/

namespace Muduo.HttpContext

open Lib List

/-! ## lines -/

/-- The complete lines `ls` are at the front of the bytes, and `rest` is behind them. -/
inductive ReadsLines : List UInt8 → List (List UInt8) → List UInt8 → Prop
  | nil (bs : List UInt8) : ReadsLines bs [] bs
  | cons {bs rest : List UInt8} {i : Nat} {ls : List (List UInt8)} : Buffer.searchCRLF bs = some i →
      ReadsLines (bs.drop (i + 2)) ls rest → ReadsLines bs (bs.take i :: ls) rest

namespace ReadsLines

variable {bs mid rest : List UInt8} {xs ys : List (List UInt8)} {line : List UInt8}

theorem single {i : Nat} (hi : Buffer.searchCRLF bs = some i) :
    ReadsLines bs [bs.take i] (bs.drop (i + 2)) := .cons hi (.nil _)

theorem single_inv (h : ReadsLines bs [line] rest) :
    ∃ i, Buffer.searchCRLF bs = some i ∧ line = bs.take i ∧ rest = bs.drop (i + 2) := by
  cases h with
  | cons hi hrest =>
    cases hrest
    exact ⟨_, hi, rfl, rfl⟩

theorem append (h : ReadsLines bs xs mid) (h' : ReadsLines mid ys rest) :
    ReadsLines bs (xs ++ ys) rest := by
  induction h with
  | nil => exact h'
  | cons hi _ ih => exact .cons hi (ih h')

theorem split (h : ReadsLines bs (xs ++ ys) rest) :
    ∃ mid, ReadsLines bs xs mid ∧ ReadsLines mid ys rest := by
  induction xs generalizing bs with
  | nil => exact ⟨bs, .nil bs, h⟩
  | cons x xs ih =>
    cases h with
    | cons hi hrest =>
      obtain ⟨mid, hxs, hys⟩ := ih hrest
      exact ⟨mid, .cons hi hxs, hys⟩

theorem length_le (h : ReadsLines bs xs rest) : rest.length + 2 * xs.length ≤ bs.length := by
  induction h with
  | nil => simp
  | cons hi _ ih =>
    have hle := Buffer.searchCRLF_le hi
    rw [length_drop] at ih
    rw [length_cons]
    omega

/-- The bytes that are left say how many lines have been read. -/
theorem unique (h : ReadsLines bs xs rest) (h' : ReadsLines bs ys rest) : xs = ys := by
  induction h generalizing ys with
  | nil bs =>
    cases ys with
    | nil => rfl
    | cons y ys =>
      have := h'.length_le
      rw [length_cons] at this
      omega
  | cons hi hrest ih =>
    cases h' with
    | nil =>
      have hle := Buffer.searchCRLF_le hi
      have := hrest.length_le
      rw [length_drop] at this
      omega
    | cons hi' hrest' =>
      obtain rfl := Option.some.inj (hi.symm.trans hi')
      rw [ih hrest']

end ReadsLines

/-! ## fields -/

/-- `v` is `raw` without the white space around it. -/
def Trims (raw v : List UInt8) : Prop :=
  ∃ pre post, raw = pre ++ v ++ post ∧ (∀ c ∈ pre, isspace c) ∧ (∀ c ∈ post, isspace c) ∧
    (∀ c, v.head? = some c → isspace c = false) ∧ ∀ c, v.getLast? = some c → isspace c = false

theorem Trims.eq {raw v : List UInt8} (h : Trims raw v) :
    (raw.dropWhile isspace).rdropWhile isspace = v := by
  obtain ⟨pre, post, rfl, hpre, hpost, hhead, hlast⟩ := h
  rw [append_assoc, dropWhile_append_of_pos hpre]
  cases v with
  | nil => rw [nil_append, dropWhile_eq_nil_iff.2 hpost, rdropWhile_nil]
  | cons c v =>
    have hc : ¬ isspace c = true := by simp [hhead c rfl]
    rw [cons_append, dropWhile_cons_of_neg hc, ← cons_append, List.rdropWhile,
      reverse_append, dropWhile_append_of_pos (by simpa using hpost)]
    exact rdropWhile_eq_self_iff.2 fun hne =>
      Bool.eq_false_iff.1 (hlast _ (List.getLast?_eq_some_getLast hne))

theorem trims_rdropWhile (raw : List UInt8) :
    Trims raw ((raw.dropWhile isspace).rdropWhile isspace) := by
  refine ⟨raw.takeWhile isspace, (raw.dropWhile isspace).rtakeWhile isspace, ?_,
    fun c hc => mem_takeWhile_imp hc, fun c hc => mem_rtakeWhile_imp hc, ?_, ?_⟩
  · rw [append_assoc, rdropWhile_append_rtakeWhile, takeWhile_append_dropWhile]
  · intro c hc
    obtain ⟨post, hpost⟩ := rdropWhile_prefix (p := isspace) (l := raw.dropWhile isspace)
    have hnot := List.head?_dropWhile_not isspace raw
    have hhead : (raw.dropWhile isspace).head? = some c := by
      rw [← hpost, List.head?_append, hc]
      rfl
    rwa [hhead] at hnot
  · intro c hc
    obtain ⟨front, hfront⟩ := List.getLast?_eq_some_iff.1 hc
    have hne : (raw.dropWhile isspace).rdropWhile isspace ≠ [] := by simp [hfront]
    have hnot := rdropWhile_last_not isspace _ hne
    simpa [hfront] using hnot

/-- The line has the field `field`, and the value `value`. -/
def IsField (line field value : List UInt8) : Prop :=
  ∃ raw, line = field ++ ':'.toUInt8 :: raw ∧ ':'.toUInt8 ∉ field ∧ Trims raw value

def HasColon (line : List UInt8) : Prop := ':'.toUInt8 ∈ line

/-- `addHeader` for a line with a colon. -/
def addLine (r : HttpRequest) (line : List UInt8) : HttpRequest :=
  r.addHeader line (line.idxOf ':'.toUInt8)

theorem addLine_spec {line : List UInt8} (h : HasColon line) :
    ∃ field value, (∀ f v, IsField line f v ↔ f = field ∧ v = value) ∧
      ∀ r, addLine r line = { r with headers := r.headers.insert field value } := by
  obtain ⟨field, raw, rfl, hfield⟩ := eq_append_cons_of_mem h
  refine ⟨field, (raw.dropWhile isspace).rdropWhile isspace, fun f v => ⟨?_, ?_⟩, fun r => ?_⟩
  · rintro ⟨raw', hline, hf, htrims⟩
    have hlen : field.length = f.length := by
      rw [← idxOf_append_cons hfield raw, hline, idxOf_append_cons hf]
    obtain ⟨rfl, htail⟩ := append_inj hline hlen
    obtain rfl := (List.cons.inj htail).2
    exact ⟨rfl, htrims.eq.symm⟩
  · rintro ⟨rfl, rfl⟩
    exact ⟨raw, rfl, hfield, trims_rdropWhile raw⟩
  · rw [addLine, idxOf_append_cons hfield, HttpRequest.addHeader, drop_length_succ, take_left]

/-- `value` is the value of the last line with the field `field`. -/
def LastField (headers : List (List UInt8)) (field value : List UInt8) : Prop :=
  ∃ pre line post, headers = pre ++ line :: post ∧ IsField line field value ∧
    ∀ l ∈ post, ∀ v, ¬ IsField l field v

theorem not_lastField_nil (field value : List UInt8) : ¬ LastField [] field value := by
  rintro ⟨pre, line, post, h, -⟩
  simp at h

theorem lastField_concat {headers : List (List UInt8)} {last field value : List UInt8} :
    LastField (headers ++ [last]) field value ↔
      IsField last field value ∨ (∀ v, ¬ IsField last field v) ∧ LastField headers field value := by
  constructor
  · rintro ⟨pre, line, post, heq, hfield, hpost⟩
    obtain rfl | ⟨post, l, rfl⟩ := eq_nil_or_concat post
    · obtain ⟨-, hlast⟩ := append_inj' heq rfl
      obtain rfl := (List.cons.inj hlast).1
      exact .inl hfield
    · rw [concat_eq_append, ← cons_append, ← append_assoc] at heq
      obtain ⟨rfl, hlast⟩ := append_inj' heq rfl
      obtain rfl := (List.cons.inj hlast).1
      exact .inr ⟨hpost last (by simp), pre, line, post, rfl, hfield, fun l hl =>
        hpost l (by simp [hl])⟩
  · rintro (hfield | ⟨hnot, pre, line, post, rfl, hfield, hpost⟩)
    · exact ⟨headers, last, [], rfl, hfield, nofun⟩
    · refine ⟨pre, line, post ++ [last], by simp, hfield, fun l hl => ?_⟩
      obtain hl | hl := mem_append.1 hl
      · exact hpost l hl
      · exact mem_singleton.1 hl ▸ hnot

/-- The map of the headers has the last value of each field, and nothing else. -/
def HeadersAre (r : HttpRequest) (headers : List (List UInt8)) : Prop :=
  ∀ field value, r.headers.lookup field = some value ↔ LastField headers field value

/-- **The headers** of lines that all have a colon. -/
theorem headersAre_foldl {r : HttpRequest} (hr : r.headers = ∅) {headers : List (List UInt8)}
    (h : ∀ l ∈ headers, HasColon l) : HeadersAre (headers.foldl addLine r) headers := by
  induction headers using List.reverseRecOn with
  | nil =>
    intro field value
    simp [hr, not_lastField_nil]
  | append_singleton headers last ih =>
    have ih := ih fun l hl => h l (mem_append_left _ hl)
    obtain ⟨name, content, hlast, hadd⟩ := addLine_spec (h last (by simp))
    intro field value
    rw [foldl_append, foldl_cons, foldl_nil, hadd, lastField_concat]
    simp only [hlast]
    by_cases hname : field = name
    · subst hname
      rw [AList.lookup_insert]
      simp [eq_comm]
    · rw [AList.lookup_insert_ne hname, ih field value]
      simp [hname]

/-! ## the end of the headers -/

section
variable {r : HttpRequest} {bs mid : List UInt8} {headers : List (List UInt8)}
  {d : Drained HttpContext UInt8 HttpRequest ParseEnd}

theorem scan_of_hasColon {i : Nat} (hi : Buffer.searchCRLF bs = some i) (h : HasColon (bs.take i)) :
    scan ⟨.kExpectHeaders, r⟩ bs = .next [] ⟨.kExpectHeaders, addLine r (bs.take i)⟩ (bs.drop (i + 2)) := by
  have hcolon : (bs.take i).idxOf ':'.toUInt8 ≠ (bs.take i).length := fun heq =>
    idxOf_eq_length_iff.1 heq h
  simp only [scan, hi, onLine, if_pos hcolon]
  rfl

theorem scan_of_not_hasColon {i : Nat} (hi : Buffer.searchCRLF bs = some i)
    (h : ¬ HasColon (bs.take i)) :
    scan ⟨.kExpectHeaders, r⟩ bs = .stop .complete ⟨.kGotAll, r⟩ (bs.drop (i + 2)) := by
  have hcolon : (bs.take i).idxOf ':'.toUInt8 = (bs.take i).length := idxOf_eq_length_iff.2 h
  simp only [scan, hi, onLine, if_neg (not_not.2 hcolon)]

theorem drains_of_readsLines (hreads : ReadsLines bs headers mid) (h : ∀ l ∈ headers, HasColon l)
    (hd : Drains scan ⟨.kExpectHeaders, headers.foldl addLine r⟩ mid d) :
    Drains scan ⟨.kExpectHeaders, r⟩ bs d := by
  induction hreads generalizing r with
  | nil => exact hd
  | cons hi _ ih =>
    obtain ⟨hline, hrest⟩ := forall_mem_cons.1 h
    exact .next (scan_of_hasColon hi hline) (ih hrest hd)

/-- How the reading of the headers goes: some lines have a colon, and behind them there is no
complete line, or one without a colon, which is the last. -/
theorem exists_lines_of_drains (hd : Drains scan ⟨.kExpectHeaders, r⟩ bs d) :
    ∃ headers mid, ReadsLines bs headers mid ∧ (∀ l ∈ headers, HasColon l) ∧
      (d = ⟨[], none, ⟨.kExpectHeaders, headers.foldl addLine r⟩, mid⟩ ∨
        ∃ line rest, ReadsLines mid [line] rest ∧ ¬ HasColon line ∧
          d = ⟨[], some .complete, ⟨.kGotAll, headers.foldl addLine r⟩, rest⟩) := by
  generalize hctx : (⟨.kExpectHeaders, r⟩ : HttpContext) = ctx at hd
  induction hd generalizing r with
  | @wait ctx bs hscan => exact ⟨[], bs, .nil bs, nofun, .inl (hctx ▸ rfl)⟩
  | @stop ctx ctx' bs rest e hscan =>
    subst hctx
    obtain ⟨i, hi, -⟩ := scan_stop hscan
    by_cases hcolon : HasColon (bs.take i)
    · rw [scan_of_hasColon hi hcolon] at hscan
      cases hscan
    · rw [scan_of_not_hasColon hi hcolon] at hscan
      cases hscan
      exact ⟨[], bs, .nil bs, nofun, .inr ⟨_, _, .single hi, hcolon, rfl⟩⟩
  | @next ctx ctx' bs rest out d hscan hrest ih =>
    subst hctx
    obtain ⟨i, hi, -⟩ := scan_next hscan
    by_cases hcolon : HasColon (bs.take i)
    · rw [scan_of_hasColon hi hcolon] at hscan
      cases hscan
      obtain ⟨headers, mid, hreads, hcolons, hend⟩ := ih rfl
      exact ⟨bs.take i :: headers, mid, .cons hi hreads, forall_mem_cons.2 ⟨hcolon, hcolons⟩,
        hend⟩
    · rw [scan_of_not_hasColon hi hcolon] at hscan
      cases hscan

end

/-- The bytes behind those that the parser has taken. -/
def Fed.remaining (fed : Fed) : List UInt8 := fed.buffer.content ++ bytesOf fed.unfed

/-- The parser is through at the first empty line, and nowhere else. -/
structure EndsAtEmptyLine (bs : List UInt8) (fed : Fed) : Prop where
  found : ∀ headers rest, ReadsLines bs (headers ++ [[]]) rest → [] ∉ headers →
    fed.context.gotAll = true ∧ fed.remaining = rest
  only : fed.context.gotAll = true → ∃ headers, ReadsLines bs (headers ++ [[]]) fed.remaining ∧
    [] ∉ headers

/-- Every complete line in front of the first empty line has a colon. -/
def ColonLines (bs : List UInt8) : Prop :=
  ∀ headers rest, ReadsLines bs headers rest → [] ∉ headers → ∀ l ∈ headers, HasColon l

theorem not_hasColon_nil : ¬ HasColon [] := not_mem_nil

theorem nil_not_mem {headers : List (List UInt8)} (h : ∀ l ∈ headers, HasColon l) :
    [] ∉ headers := fun hmem => not_hasColon_nil (h [] hmem)

section
variable {r : HttpRequest} {bs : List UInt8} {fed : Fed}
  {d : Drained HttpContext UInt8 HttpRequest ParseEnd}

theorem exists_first_without_colon {headers : List (List UInt8)} (h : ¬ ∀ l ∈ headers, HasColon l) :
    ∃ pre line post, headers = pre ++ line :: post ∧ (∀ l ∈ pre, HasColon l) ∧ ¬ HasColon line := by
  induction headers with
  | nil => exact absurd nofun h
  | cons line headers ih =>
    by_cases hline : HasColon line
    · obtain ⟨pre, l, post, rfl, hpre, hl⟩ := ih fun hall =>
        h (forall_mem_cons.2 ⟨hline, hall⟩)
      exact ⟨line :: pre, l, post, rfl, forall_mem_cons.2 ⟨hline, hpre⟩, hl⟩
    · exact ⟨[], line, headers, rfl, nofun, hline⟩

theorem gotAll_iff (hagrees : fed.Agrees d) : fed.context.gotAll = true ↔ d.state.gotAll = true := by
  rw [← hagrees.context]
  rfl

theorem endsAtEmptyLine_iff (hd : Drains scan ⟨.kExpectHeaders, r⟩ bs d) (hagrees : fed.Agrees d) :
    EndsAtEmptyLine bs fed ↔ ColonLines bs := by
  have hrest : fed.remaining = d.rest := hagrees.rest
  constructor
  · intro hends headers rest hreads hempty
    by_contra hnot
    obtain ⟨pre, line, post, rfl, hpre, hcolon⟩ := exists_first_without_colon hnot
    rw [append_cons] at hreads
    obtain ⟨rest, hreads, -⟩ := hreads.split
    obtain ⟨mid, hheaders, hend⟩ := hreads.split
    obtain ⟨i, hi, rfl, rfl⟩ := hend.single_inv
    -- the parser is through at the line without a colon, which is then the empty one
    have hstop : Drains scan ⟨.kExpectHeaders, pre.foldl addLine r⟩ mid _ :=
      .stop (scan_of_not_hasColon hi hcolon)
    obtain rfl := hd.unique (drains_of_readsLines hheaders hpre hstop)
    obtain ⟨headers', hreads', -⟩ := hends.only ((gotAll_iff hagrees).2 rfl)
    rw [hrest] at hreads'
    have hlast := (append_inj' (hreads.unique hreads') rfl).2
    exact hempty (by simp [(List.cons.inj hlast).1])
  · intro hcolons
    refine ⟨fun headers rest hreads hempty => ?_, fun hgot => ?_⟩
    · obtain ⟨mid, hheaders, hend⟩ := hreads.split
      obtain ⟨i, hi, hline, rfl⟩ := hend.single_inv
      have hstop : Drains scan ⟨.kExpectHeaders, headers.foldl addLine r⟩ mid _ :=
        .stop (scan_of_not_hasColon hi (hline ▸ not_hasColon_nil))
      obtain rfl := hd.unique (drains_of_readsLines hheaders (hcolons _ _ hheaders hempty) hstop)
      exact ⟨(gotAll_iff hagrees).2 rfl, hrest⟩
    · obtain ⟨headers, mid, hreads, hheaders, rfl | ⟨line, rest, hline, hcolon, rfl⟩⟩ :=
        exists_lines_of_drains hd
      · cases (gotAll_iff hagrees).1 hgot
      · have hempty : line = [] := by
          by_contra hne
          have := hcolons _ _ (hreads.append hline) (by simp [nil_not_mem hheaders, Ne.symm hne])
          exact hcolon (this line (by simp))
        subst hempty
        exact ⟨headers, hrest ▸ hreads.append hline, nil_not_mem hheaders⟩

theorem headersAre_of_drains (hr : r.headers = ∅) (hd : Drains scan ⟨.kExpectHeaders, r⟩ bs d)
    (hagrees : fed.Agrees d) {headers : List (List UInt8)} {rest : List UInt8}
    (hreads : ReadsLines bs (headers ++ [[]]) rest) (h : ∀ l ∈ headers, HasColon l) :
    HeadersAre fed.context.request headers := by
  obtain ⟨mid, hheaders, hend⟩ := hreads.split
  obtain ⟨i, hi, hline, rfl⟩ := hend.single_inv
  have hstop : Drains scan ⟨.kExpectHeaders, headers.foldl addLine r⟩ mid _ :=
    .stop (scan_of_not_hasColon hi (hline ▸ not_hasColon_nil))
  obtain rfl := hd.unique (drains_of_readsLines hheaders h hstop)
  have hcontext : fed.context.timeless.request.headers = (headers.foldl addLine r).headers := by
    rw [hagrees.context]
  intro field value
  exact (congrArg (·.lookup field = some value) hcontext).to_iff.trans (headersAre_foldl hr h field value)

end

/-- **The header section.**  A stream that begins with a request line is through at the first empty
line and nowhere else, exactly if every complete line in front of it has a colon.  The headers of
lines that all have one are in the map. -/
theorem header_section_iff (cs : List Chunk) {line bs : List UInt8} {r : HttpRequest}
    (hline : ReadsLines (bytesOf cs) [line] bs)
    (hrequest : processRequestLine .create line = .ok (true, r)) :
    Outcome (fun fed : Fed => (EndsAtEmptyLine bs fed ↔ ColonLines bs) ∧
        ∀ headers rest, ReadsLines bs (headers ++ [[]]) rest → (∀ l ∈ headers, HasColon l) →
          HeadersAre fed.context.request headers)
      (TooLong (Buffer.kNewVector + (bytesOf cs).length)) (feedNew cs) := by
  obtain ⟨i, hi, rfl, rfl⟩ := hline.single_inv
  refine (feedNew_spec cs).mono ?_ fun _ he => he
  rintro fed ⟨d, hd, hagrees⟩
  have hscan : scan create (bytesOf cs) =
      .next [] ⟨.kExpectHeaders, r⟩ ((bytesOf cs).drop (i + 2)) := by
    simp only [scan, hi, onLine, create, hrequest]
  have hs : Scanning ⟨.kExpectHeaders, r⟩ := .inr rfl
  have hrest := stable_scan.drains hs (Nat.lt_succ_self ((bytesOf cs).drop (i + 2)).length)
  obtain rfl := hd.unique (.next hscan hrest)
  exact ⟨endsAtEmptyLine_iff hrest hagrees, fun headers rest =>
    headersAre_of_drains (headers_of_processRequestLine hrequest) hrest hagrees⟩

/-- A request with one header. -/
def oneHeader : List Chunk := [⟨⟨ascii "GET / HTTP/1.1\r\nHost: a \r\n\r\n", by decide⟩, 1⟩]

theorem header_section_iff_oneHeader : ∃ fed, feedNew oneHeader = .ok fed ∧
    (EndsAtEmptyLine (ascii "Host: a \r\n\r\n") fed ↔ ColonLines (ascii "Host: a \r\n\r\n")) ∧
    HeadersAre fed.context.request [ascii "Host: a "] := by
  have hline : ReadsLines (bytesOf oneHeader) [ascii "GET / HTTP/1.1"] (ascii "Host: a \r\n\r\n") :=
    .single (i := 14) (by decide)
  have hrequest : IsLine (ascii "GET / HTTP/1.1") (ascii "GET") (ascii "/") '1'.toUInt8 .kGet .kHttp11 :=
    ⟨by decide, .get, by decide, .one⟩
  have hreads : ReadsLines (ascii "Host: a \r\n\r\n") ([ascii "Host: a "] ++ [[]]) [] :=
    .cons (i := 8) (by decide) (.single (i := 0) (by decide))
  obtain ⟨fed, hfed, hends, hheaders⟩ := (header_section_iff oneHeader hline
    hrequest.processRequestLine).exists_ok fun _ he => absurd he.2 (by decide)
  refine ⟨fed, hfed, hends, hheaders _ _ hreads ?_⟩
  simp only [mem_singleton, forall_eq, HasColon]
  decide

/-- A line without a colon in front of a header. -/
def noColon : List Chunk := [⟨⟨ascii "GET / HTTP/1.1\r\nfoo\r\nHost: a\r\n\r\n", by decide⟩, 1⟩]

/-- The parser is through at the line, and the header is left in the buffer. -/
theorem through_without_colon : ∃ fed, feedNew noColon = .ok fed ∧ fed.context.gotAll = true ∧
    fed.remaining = ascii "Host: a\r\n\r\n" ∧
    ¬ EndsAtEmptyLine (ascii "foo\r\nHost: a\r\n\r\n") fed := by
  have hfed : (feedNew noColon).map (fun fed => (fed.context.gotAll, fed.remaining)) =
      .ok (true, ascii "Host: a\r\n\r\n") := by decide +kernel
  cases hfeed : feedNew noColon with
  | error f => rw [hfeed] at hfed; cases hfed
  | ok fed =>
    rw [hfeed] at hfed
    obtain ⟨hgot, hremaining⟩ := Prod.mk.inj (Except.ok.inj hfed)
    refine ⟨fed, rfl, hgot, hremaining, fun hends => ?_⟩
    have hreads : ReadsLines (ascii "foo\r\nHost: a\r\n\r\n") ([ascii "foo", ascii "Host: a"] ++ [[]]) [] :=
      .cons (i := 3) (by decide) (.cons (i := 7) (by decide) (.single (i := 0) (by decide)))
    have := (hends.found _ _ hreads (by decide)).2
    rw [hremaining] at this
    exact absurd this (by decide)

end Muduo.HttpContext
