import Muduo.HttpContext
import Muduo.Lib.Scanner

/-!
# Muduo.HttpContext.Parse

The parser as a scanner of lines.
-/

namespace Muduo.HttpContext

open Lib

/-- How `parseRequest` ends when it does not wait for more bytes. -/
inductive ParseEnd
  | failed
  | complete
  | assertion
deriving DecidableEq, Repr

/-- The states in which the loop reads lines. -/
def Scanning (ctx : HttpContext) : Prop :=
  ctx.state = .kExpectRequestLine ∨ ctx.state = .kExpectHeaders

/-- What is made of a line.  A bad request line leaves its marks in the request. -/
inductive LineResult
  | more (ctx : HttpContext)
  | complete (ctx : HttpContext)
  | failed (ctx : HttpContext)
  | assertion

/-- One round of the loop, for the line in front of the first CR LF. -/
def onLine (ctx : HttpContext) (line : List UInt8) : LineResult :=
  match ctx.state with
  | .kExpectRequestLine => match processRequestLine ctx.request line with
    | .error _ => .assertion
    | .ok (true, request) => .more ⟨.kExpectHeaders, request⟩
    | .ok (false, request) => .failed { ctx with request }
  | .kExpectHeaders =>
    let colon := line.idxOf ':'.toUInt8
    if colon ≠ line.length then
      .more { ctx with request := ctx.request.addHeader line colon }
    else .complete { ctx with state := .kGotAll }
  | .kExpectBody | .kGotAll => .more ctx

/-- One round of the loop on the bytes `bs`. -/
def scan (ctx : HttpContext) (bs : List UInt8) : Scan HttpContext UInt8 HttpRequest ParseEnd :=
  match Buffer.searchCRLF bs with
  | none => .wait
  | some i => match ctx.onLine (bs.take i) with
    | .more ctx' => .next [] ctx' (bs.drop (i + 2))
    | .complete ctx' => .stop .complete ctx' (bs.drop (i + 2))
    | .failed ctx' => .stop .failed ctx' bs
    | .assertion => .stop .assertion ctx bs

variable {line : List UInt8} {d : Drained HttpContext UInt8 HttpRequest ParseEnd}

theorem Scanning.onLine {ctx ctx' : HttpContext} (h : ctx.Scanning)
    (hline : ctx.onLine line = .more ctx') : ctx'.state = .kExpectHeaders := by
  unfold HttpContext.onLine at hline
  obtain hs | hs := h
  · simp only [hs] at hline
    split at hline
    · cases hline
    · obtain rfl := LineResult.more.inj hline
      rfl
    · cases hline
  · simp only [hs] at hline
    split at hline
    · obtain rfl := LineResult.more.inj hline
      rfl
    · cases hline

/-- Only a request line can fail, and the parser goes on expecting one. -/
theorem state_of_onLine_failed {ctx ctx' : HttpContext} (hline : ctx.onLine line = .failed ctx') :
    ctx.state = .kExpectRequestLine ∧ ctx'.state = .kExpectRequestLine := by
  unfold HttpContext.onLine at hline
  split at hline
  · rename_i hs
    split at hline
    · cases hline
    · cases hline
    · obtain rfl := LineResult.failed.inj hline
      exact ⟨hs, hs⟩
  · dsimp only at hline
    split at hline <;> cases hline
  · cases hline
  · cases hline

theorem state_of_onLine_complete {ctx ctx' : HttpContext}
    (hline : ctx.onLine line = .complete ctx') : ctx'.state = .kGotAll := by
  unfold HttpContext.onLine at hline
  split at hline
  · split at hline <;> cases hline
  · dsimp only at hline
    split at hline
    · cases hline
    · obtain rfl := LineResult.complete.inj hline
      rfl
  · cases hline
  · cases hline

section
variable {ctx ctx' : HttpContext} {bs rest : List UInt8}

theorem scan_next {out : List HttpRequest} (h : ctx.scan bs = .next out ctx' rest) :
    ∃ i, Buffer.searchCRLF bs = some i ∧ ctx.onLine (bs.take i) = .more ctx' ∧ out = [] ∧
      rest = bs.drop (i + 2) := by
  rw [scan] at h
  cases hi : Buffer.searchCRLF bs with
  | none => simp [hi] at h
  | some i =>
    cases hline : ctx.onLine (bs.take i) with
    | more c =>
      simp only [hi, hline, Scan.next.injEq] at h
      obtain ⟨rfl, rfl, rfl⟩ := h
      exact ⟨i, rfl, hline, rfl, rfl⟩
    | complete | failed | assertion => simp [hi, hline] at h

theorem scan_stop {r : ParseEnd} (h : ctx.scan bs = .stop r ctx' rest) :
    ∃ i, Buffer.searchCRLF bs = some i ∧
      (r = .complete ∧ ctx.onLine (bs.take i) = .complete ctx' ∧ rest = bs.drop (i + 2) ∨
        r = .failed ∧ ctx.onLine (bs.take i) = .failed ctx' ∧ rest = bs ∨
        r = .assertion ∧ ctx.onLine (bs.take i) = .assertion ∧ ctx' = ctx ∧ rest = bs) := by
  rw [scan] at h
  cases hi : Buffer.searchCRLF bs with
  | none => simp [hi] at h
  | some i =>
    refine ⟨i, rfl, ?_⟩
    cases hline : ctx.onLine (bs.take i) with
    | more => simp [hi, hline] at h
    | complete | failed | assertion =>
      simp only [hi, hline, Scan.stop.injEq] at h
      simp [h]

theorem scan_append {i : Nat} (hi : Buffer.searchCRLF bs = some i) (more : List UInt8) :
    ctx.scan (bs ++ more) = match ctx.onLine (bs.take i) with
      | .more ctx' => .next [] ctx' (bs.drop (i + 2) ++ more)
      | .complete ctx' => .stop .complete ctx' (bs.drop (i + 2) ++ more)
      | .failed ctx' => .stop .failed ctx' (bs ++ more)
      | .assertion => .stop .assertion ctx (bs ++ more) := by
  have hle := Buffer.searchCRLF_le hi
  have htake : (bs ++ more).take i = bs.take i := List.take_append_of_le_length (by omega)
  simp only [scan, Buffer.searchCRLF_append hi more, htake, List.drop_append_of_le_length hle]

end

/-- **Complete lines are final.** -/
theorem stable_scan : Stable scan Scanning where
  next := by
    intro ctx bs out ctx' rest hs h
    obtain ⟨i, hi, hline, rfl, rfl⟩ := scan_next h
    have hle := Buffer.searchCRLF_le hi
    refine ⟨.inr (hs.onLine hline), ?_, fun more => ?_⟩
    · rw [List.length_drop]
      omega
    · rw [scan_append hi more, hline]
  stop := by
    intro ctx bs r ctx' rest _ h more
    obtain ⟨i, hi, ⟨rfl, hline, rfl⟩ | ⟨rfl, hline, rfl⟩ | ⟨rfl, hline, rfl, rfl⟩⟩ := scan_stop h
    · rw [scan_append hi more, hline]
    · rw [scan_append hi more, hline]
    · rw [scan_append hi more, hline]

/-- The state that the parser is left in, by how it ends. -/
def EndsIn : Option ParseEnd → HttpContext → Prop
  | none, ctx => ctx.Scanning
  | some .complete, ctx => ctx.state = .kGotAll
  | some .failed, ctx => ctx.state = .kExpectRequestLine
  | some .assertion, _ => True

theorem Scanning.drains {ctx : HttpContext} (h : ctx.Scanning) {bs : List UInt8}
    (hd : Drains scan ctx bs d) : EndsIn d.result d.state := by
  refine hd.invariant (P := Scanning) (Q := EndsIn) h (fun _ h => h) ?_ ?_
  · intro c bs out c' rest hc hscan
    exact (stable_scan.next hc hscan).1
  · intro c bs r c' rest hc hscan
    obtain ⟨i, -, ⟨rfl, hline, -⟩ | ⟨rfl, hline, -⟩ | ⟨rfl, -⟩⟩ := scan_stop hscan
    · exact state_of_onLine_complete hline
    · exact (state_of_onLine_failed hline).2
    · trivial

/-! ## the request line -/

/-- **The request line.**  The request is left alone unless the line begins with
the name of a method and a blank; then it is filled in as far as the line goes. -/
theorem processRequestLine_eq (r : HttpRequest) (line : List UInt8) :
    processRequestLine r line =
      if line.idxOf ' '.toUInt8 = line.length then .ok (false, r)
      else if r.method = .kInvalid then
        if HttpRequest.methodOf (line.take (line.idxOf ' '.toUInt8)) = .kInvalid then .ok (false, r)
        else .ok (processTarget
          { r with method := HttpRequest.methodOf (line.take (line.idxOf ' '.toUInt8)) }
          (line.drop (line.idxOf ' '.toUInt8 + 1)))
      else .error .setMethod := by
  by_cases hspace : line.idxOf ' '.toUInt8 = line.length
  · simp only [processRequestLine, hspace, ne_eq, not_true_eq_false, if_false, if_true]
  · simp only [processRequestLine, hspace, ne_eq, not_false_eq_true, if_true, if_false,
      HttpRequest.setMethod]
    by_cases hm : r.method = .kInvalid
    · rw [check_of hm, if_pos hm]
      split
      · rename_i hnone
        have hsame : { r with method := .kInvalid } = r := by rw [← hm]
        simp [hnone, hsame, bind, Except.bind, pure, Except.pure]
      · rename_i hsome
        simp [hsome, bind, Except.bind, pure, Except.pure]
    · rw [check_of_not hm, if_neg hm]
      rfl

theorem processRequestLine_error {r : HttpRequest} {f : Fault}
    (h : processRequestLine r line = .error f) : f = .setMethod := by
  rw [processRequestLine_eq] at h
  split_ifs at h
  exact (Except.error.inj h).symm

/-- The line begins with the name of a method and a blank. -/
def namesMethod (line : List UInt8) : Bool :=
  line.idxOf ' '.toUInt8 ≠ line.length &&
    HttpRequest.methodOf (line.take (line.idxOf ' '.toUInt8)) ≠ .kInvalid

def isRequestLine (line : List UInt8) : Bool :=
  namesMethod line && (processTarget .create (line.drop (line.idxOf ' '.toUInt8 + 1))).1

/-- The decision does not depend on what the request held before, and neither the
method nor the time of receipt is touched. -/
theorem processTarget_spec (line : List UInt8) :
    ∃ (ok : Bool) (fill : HttpRequest → HttpRequest), ∀ r, processTarget r line = (ok, fill r) ∧
      (fill r).method = r.method ∧ ∀ t, fill (r.setReceiveTime t) = (fill r).setReceiveTime t := by
  simp only [processTarget]
  split
  · cases versionOf (line.drop (line.idxOf ' '.toUInt8 + 1)) with
    | none =>
      dsimp only
      split <;> exact ⟨false, _, fun r => ⟨rfl, rfl, fun _ => rfl⟩⟩
    | some version =>
      dsimp only
      split <;> exact ⟨true, _, fun r => ⟨rfl, rfl, fun _ => rfl⟩⟩
  · exact ⟨false, fun r => r, fun r => ⟨rfl, rfl, fun _ => rfl⟩⟩

/-- **A request line of a new request** is accepted or not.  A line that names a
method has set it in either case. -/
theorem processRequestLine_of_kInvalid {r : HttpRequest} (h : r.method = .kInvalid)
    (line : List UInt8) :
    ∃ r', processRequestLine r line = .ok (isRequestLine line, r') ∧
      (namesMethod line = true → r'.method ≠ .kInvalid) ∧ (namesMethod line = false → r' = r) := by
  rw [processRequestLine_eq, if_pos h]
  by_cases hspace : line.idxOf ' '.toUInt8 = line.length
  · exact ⟨r, by simp [isRequestLine, namesMethod, hspace], by simp [namesMethod, hspace],
      fun _ => rfl⟩
  · rw [if_neg hspace]
    by_cases hm : HttpRequest.methodOf (line.take (line.idxOf ' '.toUInt8)) = .kInvalid
    · exact ⟨r, by simp [isRequestLine, namesMethod, hm], by simp [namesMethod, hm], fun _ => rfl⟩
    · have hnames : namesMethod line = true := by simp [namesMethod, hspace, hm]
      rw [if_neg hm, isRequestLine, hnames, Bool.true_and]
      obtain ⟨ok, fill, hfill⟩ := processTarget_spec (line.drop (line.idxOf ' '.toUInt8 + 1))
      rw [(hfill _).1, (hfill .create).1]
      refine ⟨_, rfl, fun _ => ?_, nofun⟩
      rw [(hfill _).2.1]
      exact hm

/-! ## the time of receipt -/

/-- The context without the time of receipt, which no decision depends on. -/
def timeless (ctx : HttpContext) : HttpContext :=
  { ctx with request := ctx.request.setReceiveTime 0 }

theorem scanning_timeless {ctx : HttpContext} : ctx.timeless.Scanning ↔ ctx.Scanning := Iff.rfl

theorem processTarget_setReceiveTime (r : HttpRequest) (t : Int) (line : List UInt8) :
    processTarget (r.setReceiveTime t) line =
      ((processTarget r line).1, (processTarget r line).2.setReceiveTime t) := by
  obtain ⟨ok, fill, hfill⟩ := processTarget_spec line
  rw [(hfill _).1, (hfill r).1, (hfill r).2.2]

theorem processRequestLine_setReceiveTime (r : HttpRequest) (t : Int) (line : List UInt8) :
    processRequestLine (r.setReceiveTime t) line =
      (processRequestLine r line).map fun p => (p.1, p.2.setReceiveTime t) := by
  have hmethod : (r.setReceiveTime t).method = r.method := rfl
  rw [processRequestLine_eq, processRequestLine_eq, hmethod]
  split
  · rfl
  · split
    · split
      · rfl
      · exact congrArg Except.ok (processTarget_setReceiveTime { r with method := _ } t _)
    · rfl

/-- The result without the time of receipt. -/
def LineResult.timeless : LineResult → LineResult
  | .more ctx => .more ctx.timeless
  | .complete ctx => .complete ctx.timeless
  | .failed ctx => .failed ctx.timeless
  | .assertion => .assertion

theorem onLine_timeless (ctx : HttpContext) (line : List UInt8) :
    ctx.timeless.onLine line = (ctx.onLine line).timeless := by
  have hstate : ctx.timeless.state = ctx.state := rfl
  have hrequest : ctx.timeless.request = ctx.request.setReceiveTime 0 := rfl
  unfold onLine
  rw [hstate, hrequest]
  cases ctx.state with
  | kExpectRequestLine =>
    simp only [processRequestLine_setReceiveTime]
    cases processRequestLine ctx.request line with
    | error f => rfl
    | ok p =>
      obtain ⟨ok, request⟩ := p
      cases ok <;> rfl
  | kExpectHeaders =>
    dsimp only
    split <;> rfl
  | kExpectBody | kGotAll => rfl

/-! ## `parseRequest` -/

/-- The context and the buffer that a call leaves for a state of the scanner. -/
structure Leaves (buf : Buffer) (s : HttpContext) (rest : List UInt8) (ctx' : HttpContext)
    (buf' : Buffer) : Prop where
  context : ctx'.timeless = s
  wf : buf'.WF
  content : buf'.content = rest
  buffer : buf'.buffer = buf.buffer

section
variable {ctx : HttpContext} {buf : Buffer}

theorem line_spec (h : buf.WF) {i : Nat} (hi : Buffer.searchCRLF buf.content = some i) :
    lineOf buf (buf.peek + i) = .ok (buf.content.take i) ∧
      ∃ buf', buf.retrieveUntil (buf.peek + i + 2) = .ok buf' ∧ buf'.WF ∧
        buf'.content = buf.content.drop (i + 2) ∧ buf'.buffer = buf.buffer := by
  have hle := Buffer.searchCRLF_le hi
  refine ⟨?_, Buffer.retrieveUntil_spec h hle⟩
  rw [lineOf, Nat.add_sub_cancel_left, h.chars_take (by omega)]
  rfl

/-- **A round of the loop** does what `onLine` does for the line. -/
theorem parseRound_spec (h : buf.WF) (hs : ctx.Scanning) (t : Int) {i : Nat}
    (hi : Buffer.searchCRLF buf.content = some i) :
    match ctx.onLine (buf.content.take i) with
    | .more c => ∃ ctx' buf', parseRound t ctx buf = .ok (.more ctx' buf') ∧
        Leaves buf c.timeless (buf.content.drop (i + 2)) ctx' buf'
    | .complete c => ∃ buf', parseRound t ctx buf = .ok (.done true c buf') ∧
        Leaves buf c.timeless (buf.content.drop (i + 2)) c buf'
    | .failed c => parseRound t ctx buf = .ok (.done false c buf)
    | .assertion => parseRound t ctx buf = .error .setMethod := by
  obtain ⟨hline, buf', hret, hwf, hcontent, hbuffer⟩ := line_spec h hi
  have hfind : buf.findCRLF.mapError Fault.buffer = .ok (some (buf.peek + i)) := by
    rw [h.findCRLF_eq, hi]
    rfl
  have hret' : (buf.retrieveUntil (buf.peek + i + 2)).mapError Fault.buffer = .ok buf' := by
    rw [hret]
    rfl
  unfold parseRound onLine
  obtain hs | hs := hs
  · simp only [hs, hfind, bind, Except.bind, hline]
    cases hp : processRequestLine ctx.request (buf.content.take i) with
    | error f => rw [processRequestLine_error hp]
    | ok p =>
      obtain ⟨ok, request⟩ := p
      cases ok with
      | false => rfl
      | true =>
        simp only [if_true, hret']
        exact ⟨_, buf', rfl, rfl, hwf, hcontent, hbuffer⟩
  · simp only [hs, hfind, bind, Except.bind, hline, hret']
    by_cases hcolon : (buf.content.take i).idxOf ':'.toUInt8 ≠ (buf.content.take i).length
    · simp only [if_pos hcolon]
      exact ⟨_, buf', rfl, rfl, hwf, hcontent, hbuffer⟩
    · simp only [if_neg hcolon]
      exact ⟨buf', rfl, rfl, hwf, hcontent, hbuffer⟩

/-- A call of `parseRequest` returns what was drained, or fails at the assertion. -/
inductive Returns (buf : Buffer) (d : Drained HttpContext UInt8 HttpRequest ParseEnd) :
    Except Fault (Bool × HttpContext × Buffer) → Prop
  | ok {ctx' : HttpContext} {buf' : Buffer} : d.result ≠ some .assertion →
      Leaves buf d.state d.rest ctx' buf' →
      Returns buf d (.ok (d.result ≠ some .failed, ctx', buf'))
  | assertion : d.result = some .assertion → Returns buf d (.error .setMethod)

theorem Returns.mono {buf' : Buffer} {r : Except Fault (Bool × HttpContext × Buffer)}
    (h : Returns buf' d r) (hbuffer : buf'.buffer = buf.buffer) : Returns buf d r := by
  cases h with
  | ok hd hleaves => exact .ok hd ⟨hleaves.context, hleaves.wf, hleaves.content,
      hleaves.buffer.trans hbuffer⟩
  | assertion hd => exact .assertion hd

theorem parseLoop_spec (h : buf.WF) (hs : ctx.Scanning) (t : Int) {fuel : Nat}
    (hfuel : buf.content.length < fuel) :
    Returns buf (drain scan fuel ctx.timeless buf.content) (parseLoop t fuel ctx buf) := by
  induction fuel generalizing ctx buf with
  | zero => omega
  | succ fuel ih =>
    rw [drain, parseLoop, scan]
    cases hi : Buffer.searchCRLF buf.content with
    | none =>
      have hround : parseRound t ctx buf = .ok (.done true ctx buf) := by
        unfold parseRound
        obtain hs | hs := hs <;> simp [hs, h.findCRLF_eq, hi, Except.mapError, bind, Except.bind]
        all_goals rfl
      rw [hround]
      exact .ok (by simp) ⟨rfl, h, rfl, rfl⟩
    | some i =>
      have hspec := parseRound_spec h hs t hi
      simp only [onLine_timeless]
      cases hline : ctx.onLine (buf.content.take i) with
      | more c =>
        simp only [hline] at hspec
        obtain ⟨ctx', buf', hround, hleaves⟩ := hspec
        have hle := Buffer.searchCRLF_le hi
        have hlen : buf'.content.length < fuel := by
          rw [hleaves.content, List.length_drop]
          omega
        have hs' : ctx'.timeless.Scanning := by
          rw [hleaves.context]
          exact scanning_timeless.mpr (.inr (hs.onLine hline))
        have hrest := ih hleaves.wf (scanning_timeless.mp hs') hlen
        rw [hleaves.context, hleaves.content] at hrest
        rw [hround]
        exact hrest.mono hleaves.buffer
      | complete c =>
        simp only [hline] at hspec
        obtain ⟨buf', hround, hleaves⟩ := hspec
        rw [hround]
        exact .ok (by simp [LineResult.timeless]) hleaves
      | failed c =>
        simp only [hline] at hspec
        rw [hspec]
        exact .ok (by simp [LineResult.timeless]) ⟨rfl, h, rfl, rfl⟩
      | assertion =>
        simp only [hline] at hspec
        rw [hspec]
        exact .assertion rfl

/-- **`parseRequest` returns**, with what was drained from the readable bytes. -/
theorem parseRequest_spec (h : buf.WF) (hs : ctx.Scanning) (t : Int) :
    ∃ d, Drains scan ctx.timeless buf.content d ∧ Returns buf d (parseRequest ctx buf t) := by
  refine ⟨drain scan (buf.content.length + 1) ctx.timeless buf.content,
    stable_scan.drains (scanning_timeless.mpr hs) (Nat.lt_succ_self _), ?_⟩
  rw [parseRequest, h.readableBytes_eq_length]
  exact parseLoop_spec h hs t (Nat.lt_succ_self _)

end

/-! ## clean parsers -/

/-- The state of a parser at the beginning of a request or behind its first line. -/
structure Clean (ctx : HttpContext) : Prop where
  scanning : ctx.Scanning
  method : ctx.state = .kExpectRequestLine → ctx.request.method = .kInvalid

theorem clean_create : create.Clean := ⟨.inl rfl, fun _ => rfl⟩

/-- How the parser is left, by how it ends. -/
def LeftAs : Option ParseEnd → HttpContext → Prop
  | none, ctx => ctx.Clean
  | some .complete, ctx => ctx.state = .kGotAll
  | some .failed, _ => True
  | some .assertion, _ => False

section
variable {ctx : HttpContext} {buf : Buffer}

theorem clean_of_kExpectHeaders (h : ctx.state = .kExpectHeaders) : ctx.Clean :=
  ⟨.inr h, fun hs => nomatch h.symm.trans hs⟩

theorem Clean.onLine_ne_assertion (h : ctx.Clean) (line : List UInt8) :
    ctx.onLine line ≠ .assertion := by
  intro hline
  unfold HttpContext.onLine at hline
  obtain hs | hs := h.scanning
  · simp only [hs] at hline
    cases hp : processRequestLine ctx.request line with
    | error f =>
      rw [processRequestLine_eq, if_pos (h.method hs)] at hp
      split_ifs at hp
    | ok p =>
      obtain ⟨ok, request⟩ := p
      cases ok <;> simp [hp] at hline
  · simp only [hs] at hline
    split at hline <;> cases hline

/-- **A clean parser never fails its assertion**, and waits in a clean state. -/
theorem Clean.drains (h : ctx.Clean) {bs : List UInt8} (hd : Drains scan ctx bs d) :
    LeftAs d.result d.state := by
  refine hd.invariant (P := Clean) (Q := LeftAs) h (fun _ h => h) ?_ ?_
  · intro c bs out c' rest hc hscan
    obtain ⟨i, -, hline, -⟩ := scan_next hscan
    exact clean_of_kExpectHeaders (hc.scanning.onLine hline)
  · intro c bs r c' rest hc hscan
    obtain ⟨i, -, ⟨rfl, hline, -⟩ | ⟨rfl, -⟩ | ⟨rfl, hline, -⟩⟩ := scan_stop hscan
    · exact state_of_onLine_complete hline
    · trivial
    · exact hc.onLine_ne_assertion _ hline

theorem clean_timeless : ctx.timeless.Clean ↔ ctx.Clean :=
  ⟨fun h => ⟨h.scanning, h.method⟩, fun h => ⟨h.scanning, h.method⟩⟩

theorem leftAs_timeless {r : Option ParseEnd} : LeftAs r ctx.timeless ↔ LeftAs r ctx := by
  cases r with
  | none => exact clean_timeless
  | some e => cases e <;> exact Iff.rfl

/-- **`parseRequest` of a clean parser** returns. -/
theorem Clean.parseRequest (hclean : ctx.Clean) (h : buf.WF) (t : Int) :
    ∃ d ctx' buf', Drains scan ctx.timeless buf.content d ∧
      ctx.parseRequest buf t = .ok (d.result ≠ some .failed, ctx', buf') ∧
      Leaves buf d.state d.rest ctx' buf' ∧ LeftAs d.result ctx' := by
  obtain ⟨d, hd, hreturns⟩ := parseRequest_spec h hclean.scanning t
  have hleft := (clean_timeless.mpr hclean).drains hd
  generalize hr : ctx.parseRequest buf t = r at hreturns
  cases hreturns with
  | assertion hassert =>
    rw [hassert] at hleft
    exact hleft.elim
  | @ok ctx' buf' _ hleaves =>
    rw [← hleaves.context] at hleft
    exact ⟨d, ctx', buf', hd, rfl, hleaves, leftAs_timeless.mp hleft⟩

/-! ## bad request lines -/

/-- Behind the request line nothing fails. -/
theorem result_ne_failed (hs : ctx.state = .kExpectHeaders) {bs : List UInt8}
    (hd : Drains scan ctx bs d) : d.result ≠ some .failed := by
  refine hd.invariant (P := fun c => c.state = .kExpectHeaders)
    (Q := fun r _ => r ≠ some .failed) hs (fun _ _ => nofun) ?_ ?_
  · intro c bs out c' rest hc hscan
    obtain ⟨i, -, hline, -⟩ := scan_next hscan
    exact Scanning.onLine (.inr hc) hline
  · intro c bs r c' rest hc hscan hr
    obtain rfl := Option.some.inj hr
    obtain ⟨i, -, ⟨hr, -⟩ | ⟨-, hline, -⟩ | ⟨hr, -⟩⟩ := scan_stop hscan
    · cases hr
    · exact nomatch hc.symm.trans (state_of_onLine_failed hline).1
    · cases hr

/-- A line that is no request line is refused in place of one. -/
theorem Clean.onLine_not_isRequestLine (h : ctx.Clean) (hs : ctx.state = .kExpectRequestLine)
    (hline : isRequestLine line = false) : ∃ ctx', ctx.onLine line = .failed ctx' := by
  obtain ⟨r', hprocess, -⟩ := processRequestLine_of_kInvalid (h.method hs) line
  rw [hline] at hprocess
  unfold HttpContext.onLine
  simp only [hs, hprocess]
  exact ⟨_, rfl⟩

/-- What a line that fails does to a clean parser: nothing, unless it names a
method. -/
theorem Clean.onLine_failed (h : ctx.Clean) {ctx' : HttpContext}
    (hline : ctx.onLine line = .failed ctx') :
    isRequestLine line = false ∧ (namesMethod line = true → ¬ ctx'.Clean) ∧
      (namesMethod line = false → ctx' = ctx) := by
  have hs := (state_of_onLine_failed hline).1
  obtain ⟨r', hprocess, hnames, hnot⟩ := processRequestLine_of_kInvalid (h.method hs) line
  unfold HttpContext.onLine at hline
  simp only [hs, hprocess] at hline
  cases hacc : isRequestLine line with
  | true => simp [hacc] at hline
  | false =>
    simp only [hacc, LineResult.failed.injEq] at hline
    subst hline
    refine ⟨rfl, fun hn hc => hnames hn (hc.method rfl), fun hn => ?_⟩
    rw [hnot hn, ← hs]

/-- **A call that fails** fails at the first line of the buffer, and consumes
nothing. -/
theorem parseRequest_failed (hs : ctx.Scanning) (h : buf.WF) {t : Int} {ctx' : HttpContext}
    {buf' : Buffer} (hfail : ctx.parseRequest buf t = .ok (false, ctx', buf')) :
    buf' = buf ∧ ∃ i, Buffer.searchCRLF buf.content = some i ∧
      ctx.onLine (buf.content.take i) = .failed ctx' := by
  obtain ⟨d, hd, hreturns⟩ := parseRequest_spec h hs t
  have hresult : d.result = some .failed := by
    rw [hfail] at hreturns
    generalize hr : Except.ok (false, ctx', buf') = r at hreturns
    cases hreturns with
    | ok =>
      simp only [Except.ok.injEq, Prod.mk.injEq] at hr
      simpa using hr.1.symm
    | assertion => cases hr
  cases hd with
  | wait => cases hresult
  | next hscan hrest =>
    obtain ⟨i, -, hline, -⟩ := scan_next hscan
    exact (result_ne_failed ((scanning_timeless.mpr hs).onLine hline) hrest hresult).elim
  | stop hscan =>
    obtain rfl := Option.some.inj hresult
    obtain ⟨i, hi, ⟨hr, -⟩ | ⟨-, hline, -⟩ | ⟨hr, -⟩⟩ := scan_stop hscan
    · cases hr
    · rw [onLine_timeless] at hline
      have hround := parseRound_spec h hs t hi
      cases hc : ctx.onLine (buf.content.take i) with
      | failed c =>
        simp only [hc] at hround
        rw [parseRequest, parseLoop, hround] at hfail
        simp only [bind, Except.bind, pure, Except.pure, Except.ok.injEq, Prod.mk.injEq,
          true_and] at hfail
        obtain ⟨rfl, rfl⟩ := hfail
        exact ⟨rfl, i, hi, hc⟩
      | more | complete | assertion => simp [hc, LineResult.timeless] at hline
    · cases hr

end

end Muduo.HttpContext
