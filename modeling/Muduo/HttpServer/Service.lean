import Muduo.HttpServer.Spec

/-!
# Muduo.HttpServer.Service

The requests of a stream, and those that are served.

`onMessage` calls `parseRequest` once, and `parseRequest` returns at the end of a
request.  What follows in the same read stays in the buffer until more bytes
arrive.  `serve` is the scanner that does not stop there: it reads off one request
after the other.  `Served` says that as long as no read holds more than the rest of
one request, the connection has served what `serve` finds in the stream.
-/

namespace Muduo.HttpConn

open Lib HttpContext List

/-! ## the requests of a stream -/

/-- The parser, started again behind each request. -/
def serve (ctx : HttpContext) (bs : List UInt8) : Scan HttpContext UInt8 HttpRequest ParseEnd :=
  match scan ctx bs with
  | .wait => .wait
  | .next out ctx' rest => .next out ctx' rest
  | .stop .complete ctx' rest => .next [ctx'.request] .create rest
  | .stop r ctx' rest => .stop r ctx' rest

section
variable {ctx ctx' : HttpContext} {bs rest : List UInt8}

theorem serve_of_complete (h : scan ctx bs = .stop .complete ctx' rest) :
    serve ctx bs = .next [ctx'.request] .create rest := by
  rw [serve, h]

theorem serve_of_stop {r : ParseEnd} (h : scan ctx bs = .stop r ctx' rest) (hr : r ≠ .complete) :
    serve ctx bs = .stop r ctx' rest := by
  rw [serve, h]
  cases r with
  | complete => exact absurd rfl hr
  | failed | assertion => rfl

theorem stable_serve : Stable serve Scanning where
  next := by
    intro ctx bs out ctx' rest hs h
    cases hscan : scan ctx bs with
    | wait => simp [serve, hscan] at h
    | next out₁ ctx₁ rest₁ =>
      simp only [serve, hscan, Scan.next.injEq] at h
      obtain ⟨rfl, rfl, rfl⟩ := h
      obtain ⟨hs', hlt, hmore⟩ := stable_scan.next hs hscan
      refine ⟨hs', hlt, fun more => ?_⟩
      rw [serve, hmore more]
    | stop r ctx₁ rest₁ =>
      cases r with
      | complete =>
        rw [serve_of_complete hscan, Scan.next.injEq] at h
        obtain ⟨rfl, rfl, rfl⟩ := h
        refine ⟨clean_create.scanning, ?_, fun more => ?_⟩
        · obtain ⟨i, hi, ⟨-, -, rfl⟩ | ⟨hr, -⟩ | ⟨hr, -⟩⟩ := scan_stop hscan
          · have hle := Buffer.searchCRLF_le hi
            rw [length_drop]
            omega
          · cases hr
          · cases hr
        · exact serve_of_complete (stable_scan.stop hs hscan more)
      | failed | assertion => simp [serve, hscan] at h
  stop := by
    intro ctx bs r ctx' rest hs h more
    cases hscan : scan ctx bs with
    | wait | next => simp [serve, hscan] at h
    | stop r₁ ctx₁ rest₁ =>
      cases r₁ with
      | complete => simp [serve, hscan] at h
      | failed | assertion =>
        rw [serve_of_stop hscan nofun, Scan.stop.injEq] at h
        obtain ⟨rfl, rfl, rfl⟩ := h
        exact serve_of_stop (stable_scan.stop hs hscan more) nofun

variable {d : Drained HttpContext UInt8 HttpRequest ParseEnd}

theorem out_eq_nil (hd : Drains scan ctx bs d) : d.out = [] := by
  induction hd with
  | wait | stop => rfl
  | next hscan _ ih =>
    obtain ⟨-, -, -, rfl, -⟩ := scan_next hscan
    exact ih

theorem drains_serve (hd : Drains scan ctx bs d) (hr : d.result ≠ some .complete) :
    Drains serve ctx bs d := by
  induction hd with
  | wait hscan => exact .wait (by rw [serve, hscan])
  | stop hscan => exact .stop (serve_of_stop hscan fun h => hr (congrArg some h))
  | next hscan _ ih => exact .next (by rw [serve, hscan]) (ih hr)

/-- Behind a complete request the scanner begins anew. -/
theorem drains_serve_complete (hd : Drains scan ctx bs d) (hr : d.result = some .complete)
    {d' : Drained HttpContext UInt8 HttpRequest ParseEnd} (hd' : Drains serve .create d.rest d') :
    Drains serve ctx bs { d' with out := d.state.request :: d'.out } := by
  induction hd with
  | wait => cases hr
  | stop hscan =>
    obtain rfl := Option.some.inj hr
    exact .next (serve_of_complete hscan) hd'
  | next hscan _ ih =>
    obtain ⟨-, -, -, rfl, -⟩ := scan_next hscan
    exact .next (by rw [serve, hscan]) (ih hr hd')

end

/-- The complete requests in the bytes, for a parser that has come to `ctx`. -/
def requestsIn (ctx : HttpContext) (bs : List UInt8) : List HttpRequest :=
  (drain serve (bs.length + 1) ctx.timeless bs).out

/-- The requests that were served, without the times of receipt. -/
def served (s : HttpConn) : List HttpRequest := s.requests.map (·.setReceiveTime 0)

/-! ## reads with one request -/

/-- The read completes at most one request, and no bad request line has left its
method behind. -/
structure OneAtATime (s : HttpConn) (c : Chunk) : Prop where
  one : (requestsIn s.context (s.pending c)).length ≤ 1
  clean : s.context.state = .kExpectRequestLine → s.context.request.method = .kInvalid

instance (s : HttpConn) (c : Chunk) : Decidable (s.OneAtATime c) :=
  decidable_of_iff (_ ∧ _) ⟨fun h => ⟨h.1, h.2⟩, fun h => ⟨h.one, h.clean⟩⟩

/-- The parser does not come to the end of a request in what the buffer holds, as
long as the connection is open. -/
def AtRest (s : HttpConn) : Prop :=
  s.connected = true → ∀ t ctx buf, s.context.parseRequest s.inputBuffer t = .ok (true, ctx, buf) →
    ctx.gotAll = false

/-- What has been served is what `serve` gives for the stream.  `resume` is what
makes this an invariant: whatever arrives next, the scanner goes on from where the
connection is. -/
structure Served (s : HttpConn) : Prop where
  wf : s.inputBuffer.WF
  scanning : s.context.Scanning
  clean : s.connected = true → s.context.Clean
  resume : s.context.Clean → ∀ {more : List UInt8}
    {d : Drained HttpContext UInt8 HttpRequest ParseEnd},
    Drains serve s.context.timeless (s.inputBuffer.content ++ more) d →
    Drains serve .create (s.received ++ more) { d with out := s.served ++ d.out }
  stream : ∃ d, Drains serve .create s.received d ∧ d.out = s.served
  idle : s.context.Clean →
    ∃ d, Drains serve s.context.timeless s.inputBuffer.content d ∧ d.out = []

theorem served_create : create.Served where
  wf := Buffer.wf_newBuffer
  scanning := clean_create.scanning
  clean := fun _ => clean_create
  resume := fun _ _ _ hd => hd
  stream := ⟨_, .wait rfl, rfl⟩
  idle := fun _ => ⟨_, .wait rfl, rfl⟩

section
variable {httpCallback : HttpRequest → Bool → Bool} {s s' : HttpConn} {c : Chunk}
  {d : Drained HttpContext UInt8 HttpRequest ParseEnd}

theorem Served.resume_of (h : s.Served) (hclean : s.context.Clean) {more : List UInt8}
    (hd : Drains serve s.context.timeless (s.pending c ++ more) d) :
    Drains serve .create (s.received ++ c.bytes.data ++ more)
      { d with out := s.served ++ d.out } := by
  rw [pending, append_assoc] at hd
  rw [append_assoc]
  exact h.resume hclean hd

/-- **A read that completes at most one request.** -/
theorem Served.handled (h : s.Served) (hone : s.OneAtATime c)
    (hd : Drains scan s.context.timeless (s.pending c) d) (hhandled : Handled httpCallback s c d s')
    (hwf : s'.inputBuffer.WF) : s'.Served := by
  have hclean : s.context.Clean := ⟨h.scanning, hone.clean⟩
  have hleft := (clean_timeless.mpr hclean).drains hd
  have hscanning := hhandled.scanning h.scanning hd
  have hout := out_eq_nil hd
  cases hhandled with
  | waits hr hcontext hcontent =>
    have hserve := drains_serve hd (by rw [hr]; nofun)
    rw [hr, ← hcontext] at hleft
    refine ⟨hwf, hscanning, fun _ => clean_timeless.mp hleft, fun _ more d' hd' => ?_,
      ⟨_, h.resume hclean hserve, by rw [hout, append_nil]; rfl⟩, fun _ => ?_⟩
    · rw [hcontext, hcontent] at hd'
      have happend := stable_serve.drains_append (scanning_timeless.mpr h.scanning) hserve hr hd'
      rw [hout] at happend
      exact h.resume_of hclean happend
    · rw [hcontext, hcontent]
      exact ⟨_, .wait (hserve.scan_eq_wait hr), rfl⟩
  | @fails ctx' _ i hr hi hline hcontent =>
    have hserve := drains_serve hd (by rw [hr]; nofun)
    -- a parser that is still clean is where it was
    have hsame : ctx'.Clean → ctx' = s.context := by
      intro hclean'
      obtain ⟨-, hnames, hnot⟩ := hclean.onLine_failed hline
      exact hnot (by simpa using fun hn => hnames hn hclean')
    refine ⟨hwf, hscanning, nofun, fun hclean' more d' hd' => ?_,
      ⟨_, h.resume hclean hserve, by rw [hout, append_nil]; rfl⟩, fun hclean' => ?_⟩
    · rw [hsame hclean', hcontent] at hd'
      exact h.resume_of hclean hd'
    · rw [hsame hclean', hcontent]
      exact ⟨d, hserve, hout⟩
  | @serves ctx' _ hr hcontext hcontent =>
    have hrequest : d.state.request = ctx'.request.setReceiveTime 0 := by rw [← hcontext]; rfl
    have hserved : (s.requests ++ [ctx'.request]).map (·.setReceiveTime 0) =
        s.served ++ [d.state.request] := by
      rw [map_append, hrequest]
      rfl
    -- the rest of the read holds no complete request
    have hrest : Drains serve .create d.rest (drain serve (d.rest.length + 1) .create d.rest) :=
      stable_serve.drains clean_create.scanning (Nat.lt_succ_self _)
    have hserve := drains_serve_complete hd hr hrest
    have hnil : (drain serve (d.rest.length + 1) .create d.rest).out = [] := by
      have hone := hone.one
      rw [requestsIn, (stable_serve.drains (scanning_timeless.mpr h.scanning)
        (Nat.lt_succ_self _)).unique hserve, length_cons] at hone
      exact eq_nil_of_length_eq_zero (by omega)
    refine ⟨hwf, hscanning, fun _ => clean_create, fun _ more d' hd' => ?_,
      ⟨_, h.resume hclean hserve, ?_⟩, fun _ => ?_⟩
    · rw [hcontent] at hd'
      have hstop := stable_scan.drains_of_stop (scanning_timeless.mpr h.scanning) hd hr more
      have hresume := h.resume_of hclean (drains_serve_complete hstop hr hd')
      rw [served, hserved, append_assoc s.served]
      exact hresume
    · rw [hnil]
      exact hserved.symm
    · rw [hcontent]
      exact ⟨_, hrest, hnil⟩

/-- No complete request is left in the buffer of an open connection. -/
theorem Served.atRest (h : s.Served) : s.AtRest := by
  intro hopen t ctx buf hparse
  have hclean := h.clean hopen
  obtain ⟨d, ctx', buf', hd, hok, -, hleft⟩ := hclean.parseRequest h.wf t
  obtain ⟨d₀, hidle, hnil⟩ := h.idle hclean
  rw [hparse] at hok
  simp only [Except.ok.injEq, Prod.mk.injEq] at hok
  obtain ⟨hresult, rfl, -⟩ := hok
  cases hr : d.result with
  | none =>
    rw [hr] at hleft
    obtain hs | hs := hleft.scanning <;> simp [gotAll, hs]
  | some e =>
    cases e with
    | failed => simp [hr] at hresult
    | assertion => rw [hr] at hleft; exact hleft.elim
    | complete =>
      have hserve := drains_serve_complete hd hr
        (stable_serve.drains clean_create.scanning (Nat.lt_succ_self _))
      rw [hidle.unique hserve] at hnil
      cases hnil

end

theorem Served.onMessage {httpCallback : HttpRequest → Bool → Bool} (s : HttpConn)
    (bs : List UInt8) (c : Chunk) (h : s.Served ∧ s.received = bs) (hone : s.OneAtATime c) :
    Outcome (fun s' => (s'.Served ∧ s'.received = bs ++ c.bytes.data) ∧
        s'.inputBuffer.buffer.length ≤ s.inputBuffer.buffer.length + c.bytes.data.length)
      (TooLong (s.inputBuffer.buffer.length + c.bytes.data.length))
      (s.onMessage httpCallback c) := by
  obtain ⟨h, rfl⟩ := h
  refine (onMessage_spec h.wf h.scanning).mono ?_ fun f hf =>
    hf.resolve_right fun hassert => hassert.2 ⟨h.scanning, hone.clean⟩
  rintro s' ⟨hwf, hlen, d, hd, hhandled⟩
  exact ⟨⟨h.handled hone hd hhandled hwf, hhandled.received⟩, hlen⟩

/-- **What is served** is what is in the stream. -/
theorem outcome_run_served {httpCallback : HttpRequest → Bool → Bool} {cs : List Chunk}
    (hcs : Meets (onMessage httpCallback) OneAtATime create cs) :
    Outcome (fun s : HttpConn => s.AtRest ∧ ∃ d, Drains serve .create (bytesOf cs) d ∧
        d.out = s.served)
      (TooLong (Buffer.kNewVector + (bytesOf cs).length))
      (run (onMessage httpCallback) create cs) := by
  have hrun := outcome_run_reads (R := fun s bs => s.Served ∧ s.received = bs) (E := TooLong)
    TooLong.mono Served.onMessage ⟨served_create, rfl⟩ hcs
  refine hrun.mono ?_ fun _ he => he
  rintro s ⟨hserved, hreceived⟩
  obtain ⟨d, hd, hout⟩ := hserved.stream
  rw [hreceived] at hd
  exact ⟨hserved.atRest, d, hd, hout⟩

/-- **Service and segmentation.** Two ways of cutting a stream into reads that each
complete at most one request have the same requests served, up to their times of
receipt, and leave no complete request behind in the buffer of an open connection. -/
theorem service_segmentation (httpCallback : HttpRequest → Bool → Bool) (cs cs' : List Chunk)
    (h : bytesOf cs = bytesOf cs') (hcs : Meets (onMessage httpCallback) OneAtATime create cs)
    (hcs' : Meets (onMessage httpCallback) OneAtATime create cs') :
    Outcome (fun s : HttpConn => s.AtRest ∧ Outcome (fun s' : HttpConn => s'.served = s.served)
        (TooLong (Buffer.kNewVector + (bytesOf cs).length))
        (run (onMessage httpCallback) create cs'))
      (TooLong (Buffer.kNewVector + (bytesOf cs).length))
      (run (onMessage httpCallback) create cs) := by
  refine (outcome_run_served hcs).mono ?_ fun _ he => he
  rintro s ⟨hrest, d, hd, hout⟩
  refine ⟨hrest, ?_⟩
  rw [h]
  refine (outcome_run_served hcs').mono ?_ fun _ he => he
  rintro s' ⟨-, d', hd', hout'⟩
  obtain rfl := hd.unique (h ▸ hd')
  exact hout'.symm.trans hout

/-- Two requests on a connection that is kept open. -/
def pipelined : List Chunk := [⟨⟨ascii "GET /a HTTP/1.1\r\n\r\nGET /b HTTP/1.1\r\n\r\n", by decide⟩, 1⟩]

/-- The same bytes, cut inside the second request. -/
def oneByOne : List Chunk :=
  [⟨⟨ascii "GET /a HTTP/1.1\r\n\r\nGET /b", by decide⟩, 1⟩,
    ⟨⟨ascii " HTTP/1.1\r\n\r\n", by decide⟩, 2⟩]

/-- The same bytes, cut between the requests. -/
def apart : List Chunk :=
  [⟨⟨ascii "GET /a HTTP/1.1\r\n\r\n", by decide⟩, 1⟩,
    ⟨⟨ascii "GET /b HTTP/1.1\r\n\r\n", by decide⟩, 2⟩]

theorem service_segmentation_apart :
    ∃ s s', run (onMessage fun _ close => close) create oneByOne = .ok s ∧
      run (onMessage fun _ close => close) create apart = .ok s' ∧ s.AtRest ∧
      s'.served = s.served := by
  have hone := service_segmentation (fun _ close => close) oneByOne apart (by decide)
    (by decide +kernel) (by decide +kernel)
  obtain ⟨s, hs, hrest, hapart⟩ := hone.exists_ok fun _ he => absurd he.2 (by decide)
  obtain ⟨s', hs', hserved⟩ := hapart.exists_ok fun _ he => absurd he.2 (by decide)
  exact ⟨s, s', hs, hs', hrest, hserved⟩

/-- **A request is left behind** when two of them arrive in one read. -/
theorem second_request_left :
    bytesOf pipelined = bytesOf apart ∧
    (run (onMessage fun _ close => close) create pipelined).map
      (fun s => (s.connected, s.requests.map (·.path), s.inputBuffer.content)) =
        .ok (true, [ascii "/a"], ascii "GET /b HTTP/1.1\r\n\r\n") ∧
    (run (onMessage fun _ close => close) create apart).map
      (fun s => (s.connected, s.requests.map (·.path), s.inputBuffer.content)) =
        .ok (true, [ascii "/a", ascii "/b"], []) := by
  refine ⟨by decide, ?_, ?_⟩
  · decide +kernel
  · decide +kernel

end Muduo.HttpConn
