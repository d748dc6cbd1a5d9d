import Muduo.HttpServer

/-!
# Muduo.HttpServer.Spec

What `onMessage` does with a read: the parser drains the bytes at hand, and the
connection waits for more, is shut down, or has a request served.
-/

namespace Muduo.HttpConn

open Lib HttpContext

/-- The bytes that `parseRequest` sees after a read. -/
def pending (s : HttpConn) (c : Chunk) : List UInt8 := s.inputBuffer.content ++ c.bytes.data

/-- The connection after a read, by what the parser comes to. -/
inductive Handled (httpCallback : HttpRequest → Bool → Bool) (s : HttpConn) (c : Chunk)
    (d : Drained HttpContext UInt8 HttpRequest ParseEnd) : HttpConn → Prop
  | waits {context : HttpContext} {inputBuffer : Buffer} : d.result = none →
      context.timeless = d.state → inputBuffer.content = d.rest →
      Handled httpCallback s c d
        { s with context, inputBuffer, received := s.received ++ c.bytes.data }
  | fails {context : HttpContext} {inputBuffer : Buffer} {i : Nat} : d.result = some .failed →
      Buffer.searchCRLF (s.pending c) = some i →
      s.context.onLine ((s.pending c).take i) = .failed context →
      inputBuffer.content = s.pending c →
      Handled httpCallback s c d
        { s with
          context, inputBuffer, connected := false,
          received := s.received ++ c.bytes.data,
          failures := s.failures ++ [(s.context, context)] }
  | serves {context : HttpContext} {inputBuffer : Buffer} : d.result = some .complete →
      context.timeless = d.state → inputBuffer.content = d.rest →
      Handled httpCallback s c d
        { s with
          context := .create, inputBuffer,
          connected := if httpCallback context.request (wantsClose context.request) then false
            else s.connected,
          received := s.received ++ c.bytes.data,
          requests := s.requests ++ [context.request] }

section
variable {httpCallback : HttpRequest → Bool → Bool} {s s' : HttpConn} {c : Chunk}
  {d : Drained HttpContext UInt8 HttpRequest ParseEnd}

theorem onParsed_waits (before : HttpContext) (h : s.context.gotAll = false) :
    s.onParsed httpCallback before true = s := by
  rw [onParsed, if_pos rfl, h]
  rfl

theorem onParsed_fails (before : HttpContext) (h : s.context.gotAll = false) :
    s.onParsed httpCallback before false =
      { s with connected := false, failures := s.failures ++ [(before, s.context)] } := by
  rw [onParsed, if_neg Bool.false_ne_true]
  exact if_neg (ne_true_of_eq_false h)

theorem onParsed_serves (before : HttpContext) (h : s.context.gotAll = true) :
    s.onParsed httpCallback before true =
      { s with
        context := .create,
        connected := if httpCallback s.context.request (wantsClose s.context.request) then false
          else s.connected,
        requests := s.requests ++ [s.context.request] } := by
  rw [onParsed, if_pos rfl, h, if_pos rfl, onRequest]
  cases httpCallback s.context.request (wantsClose s.context.request) <;> rfl

theorem Handled.received (h : Handled httpCallback s c d s') :
    s'.received = s.received ++ c.bytes.data := by
  cases h <;> rfl

theorem Handled.scanning (h : Handled httpCallback s c d s') (hs : s.context.Scanning)
    (hd : Drains scan s.context.timeless (s.pending c) d) : s'.context.Scanning := by
  have hends := (scanning_timeless.mpr hs).drains hd
  cases h with
  | waits hr hcontext =>
    rw [hr, ← hcontext] at hends
    exact scanning_timeless.mp hends
  | fails _ _ hline => exact .inl (state_of_onLine_failed hline).2
  | serves => exact clean_create.scanning

/-- **A read is handled.** The parser terminates.  It fails its assertion only when
a bad request line has left a method behind. -/
theorem onMessage_spec (hwf : s.inputBuffer.WF) (hs : s.context.Scanning) :
    Outcome (fun s' => s'.inputBuffer.WF ∧
        s'.inputBuffer.buffer.length ≤ s.inputBuffer.buffer.length + c.bytes.data.length ∧
        ∃ d, Drains scan s.context.timeless (s.pending c) d ∧ Handled httpCallback s c d s')
      (fun f => TooLong (s.inputBuffer.buffer.length + c.bytes.data.length) f ∨
        f = .setMethod ∧ ¬ s.context.Clean)
      (s.onMessage httpCallback c) := by
  unfold onMessage
  refine Outcome.bind (Buffer.outcome_append_mapError hwf c.bytes.length_le
    fun hlong => .inl ⟨rfl, hlong⟩) ?_
  intro buf ⟨hbuf, hcontent, hlen⟩
  obtain ⟨d, hd, hreturns⟩ := parseRequest_spec hbuf hs c.receiveTime
  have hends := (scanning_timeless.mpr hs).drains hd
  generalize hp : s.context.parseRequest buf c.receiveTime = p at hreturns
  cases hreturns with
  | assertion hassert =>
    refine .error (.inr ⟨rfl, fun hclean => ?_⟩)
    have hleft := (clean_timeless.mpr hclean).drains hd
    rw [hassert] at hleft
    exact hleft
  | @ok ctx buf' hne hleaves =>
    have hlen' : buf'.buffer.length ≤ s.inputBuffer.buffer.length + c.bytes.data.length := by
      rwa [hleaves.buffer]
    rw [hcontent] at hd
    rw [← hleaves.context] at hends
    refine .ok ?_
    cases hr : d.result with
    | none =>
      rw [hr] at hends
      have hgot : ctx.gotAll = false := by
        obtain hs | hs := scanning_timeless.mp hends <;> simp [gotAll, hs]
      simp only [ne_eq, reduceCtorEq, not_false_eq_true, decide_true]
      rw [onParsed_waits]
      · exact ⟨hleaves.wf, hlen', d, hd, .waits hr hleaves.context hleaves.content⟩
      · exact hgot
    | some e =>
      rw [hr] at hends
      cases e with
      | failed =>
        have hgot : ctx.gotAll = false := by simp [gotAll, show ctx.state = _ from hends]
        obtain ⟨rfl, i, hi, hline⟩ := parseRequest_failed hs hbuf (by rw [hp, hr]; rfl)
        rw [hcontent] at hi hline
        simp only [ne_eq, not_true_eq_false, decide_false]
        rw [onParsed_fails]
        · exact ⟨hleaves.wf, hlen', d, hd, .fails hr hi hline hcontent⟩
        · exact hgot
      | complete =>
        have hgot : ctx.gotAll = true := decide_eq_true hends
        simp only [ne_eq, Option.some.injEq, reduceCtorEq, not_false_eq_true, decide_true]
        rw [onParsed_serves]
        · exact ⟨hleaves.wf, hlen', d, hd, .serves hr hleaves.context hleaves.content⟩
        · exact hgot
      | assertion => exact absurd hr hne

/-- **The run rule for reads.** `R` relates the connection to the bytes it has been
given; the buffer grows by no more than these. -/
theorem outcome_run_reads {R : HttpConn → List UInt8 → Prop} {E : Nat → Fault → Prop}
    {allowed : HttpConn → Chunk → Prop} (hmono : ∀ {m n f}, m ≤ n → E m f → E n f)
    (hstep : ∀ s bs c, R s bs → allowed s c →
      Outcome (fun s' => R s' (bs ++ c.bytes.data) ∧
          s'.inputBuffer.buffer.length ≤ s.inputBuffer.buffer.length + c.bytes.data.length)
        (E (s.inputBuffer.buffer.length + c.bytes.data.length)) (s.onMessage httpCallback c))
    (hcreate : R create []) {cs : List Chunk}
    (hcs : Meets (onMessage httpCallback) allowed create cs) :
    Outcome (fun s => R s (bytesOf cs)) (E (Buffer.kNewVector + (bytesOf cs).length))
      (run (onMessage httpCallback) create cs) := by
  have hrun := Outcome.run_sim_cost (E := E) (fun bs (c : Chunk) => bs ++ c.bytes.data)
    (fun s : HttpConn => s.inputBuffer.buffer.length) (fun c => c.bytes.data.length) hmono hstep
    hcreate hcs
  have hsize : create.inputBuffer.buffer.length = Buffer.kNewVector := Buffer.length_newBuffer
  have hcost : (cs.map fun c => c.bytes.data.length).sum = (bytesOf cs).length :=
    List.length_flatMap.symm
  have hbytes : cs.foldl (fun bs c => bs ++ c.bytes.data) [] = bytesOf cs :=
    List.flatMap_eq_foldl.symm
  rwa [hsize, hcost, hbytes] at hrun

end

end Muduo.HttpConn
