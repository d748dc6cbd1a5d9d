import Muduo.HttpContext.Parse

/-!
# Muduo.HttpContext.Segmentation

A request that arrives in pieces.

`parseRequest` looks at the buffer afresh on every call, and keeps its state in
the context.  `feed_spec` says that feeding chunks drains their concatenation, and
so `parse_segmentation` that it does not matter where the stream is cut.
-/

namespace Muduo.HttpContext

open Lib

/-! ## chunks -/

/-- How far the chunks have brought the parser. -/
inductive Progress
  | waiting
  | error
  | complete
deriving DecidableEq, Repr

/-- The bytes of one read, and the time of it. -/
structure Chunk where
  bytes : Buffer.CharRange
  receiveTime : Int
deriving DecidableEq

/-- What the parser has come to, and the chunks that it did not need. -/
structure Fed where
  progress : Progress
  context : HttpContext
  buffer : Buffer
  unfed : List Chunk
deriving DecidableEq

/-- The chunks are appended one by one, and `parseRequest` is called after each,
until it returns false or a request is complete. -/
def feed (ctx : HttpContext) (buf : Buffer) : List Chunk → Except Fault Fed
  | [] => .ok ⟨.waiting, ctx, buf, []⟩
  | c :: cs => do
    let buf ← (buf.append c.bytes.data).mapError .buffer
    let (ok, ctx, buf) ← parseRequest ctx buf c.receiveTime
    if !ok then return ⟨.error, ctx, buf, cs⟩
    else if ctx.gotAll then return ⟨.complete, ctx, buf, cs⟩
    else feed ctx buf cs

def bytesOf (cs : List Chunk) : List UInt8 := cs.flatMap (·.bytes.data)

/-- The chunks are fed to a new parser. -/
def feedNew (cs : List Chunk) : Except Fault Fed := do
  let buf ← (Buffer.create Buffer.kInitialSize).mapError .buffer
  feed create buf cs

/-! ## feeding is draining -/

def Progress.of : Option ParseEnd → Progress
  | none => .waiting
  | some .complete => .complete
  | some .failed | some .assertion => .error

/-- The parser has come to where the scanner comes. -/
structure Fed.Agrees (fed : Fed) (d : Drained HttpContext UInt8 HttpRequest ParseEnd) : Prop where
  progress : fed.progress = .of d.result
  context : fed.context.timeless = d.state
  rest : fed.buffer.content ++ bytesOf fed.unfed = d.rest

/-- The failure of a buffer that would have to hold more than a vector can. -/
def TooLong (n : Nat) (f : Fault) : Prop := f = .buffer .lengthError ∧ Buffer.maxSize < n

theorem TooLong.mono {m n : Nat} {f : Fault} (hmn : m ≤ n) (h : TooLong m f) : TooLong n f :=
  ⟨h.1, Nat.lt_of_lt_of_le h.2 hmn⟩

section
variable {ctx : HttpContext} {buf : Buffer}

/-- **Feeding is draining.** -/
theorem feed_spec (h : buf.WF) (hclean : ctx.Clean) (hwait : scan ctx.timeless buf.content = .wait)
    (cs : List Chunk) :
    Outcome (fun fed : Fed => ∃ d, Drains scan ctx.timeless (buf.content ++ bytesOf cs) d ∧
        fed.Agrees d)
      (TooLong (buf.buffer.length + (bytesOf cs).length)) (feed ctx buf cs) := by
  induction cs generalizing ctx buf with
  | nil =>
    refine .ok ⟨_, .wait ?_, rfl, rfl, rfl⟩
    rwa [bytesOf, List.flatMap_nil, List.append_nil]
  | cons c cs ih =>
    have hbytes : bytesOf (c :: cs) = c.bytes.data ++ bytesOf cs := List.flatMap_cons ..
    rw [feed, hbytes, ← List.append_assoc, List.length_append, ← Nat.add_assoc]
    refine Outcome.bind (Buffer.outcome_append_mapError h c.bytes.length_le
      fun hlong => ⟨rfl, by omega⟩) ?_
    intro buf₁ ⟨hwf, hcontent, hlen⟩
    obtain ⟨d, ctx', buf', hd, hok, hleaves, hleft⟩ := hclean.parseRequest hwf c.receiveTime
    rw [hcontent] at hd
    rw [hok]
    cases hr : d.result with
    | none =>
      rw [hr] at hleft
      have hgot : ctx'.gotAll = false := by
        obtain hs | hs := hleft.scanning <;> simp [gotAll, hs]
      have hwait' := hd.scan_eq_wait hr
      rw [← hleaves.context, ← hleaves.content] at hwait'
      have hrest := ih hleaves.wf hleft hwait'
      simp only [bind, Except.bind, hgot]
      refine hrest.mono ?_ fun f hf => hf.mono ?_
      · rintro fed ⟨d', hd', hagrees⟩
        rw [hleaves.context, hleaves.content] at hd'
        exact ⟨_, stable_scan.drains_append (scanning_timeless.mpr hclean.scanning) hd hr hd',
          hagrees.progress, hagrees.context, hagrees.rest⟩
      · rw [hleaves.buffer]
        omega
    | some e =>
      have hstop := stable_scan.drains_of_stop (scanning_timeless.mpr hclean.scanning) hd hr
        (bytesOf cs)
      rw [hr] at hleft
      cases e with
      | failed =>
        refine .ok ⟨_, hstop, by rw [hr]; rfl, hleaves.context, ?_⟩
        rw [hleaves.content]
      | complete =>
        have hgot : ctx'.gotAll = true := decide_eq_true hleft
        simp only [bind, Except.bind, hgot]
        refine .ok ⟨_, hstop, by rw [hr]; rfl, hleaves.context, ?_⟩
        rw [hleaves.content]
      | assertion => exact hleft.elim

end

/-- The same, but for the time of receipt; the chunks that were not needed are put
behind the buffer. -/
structure Fed.Same (fed fed' : Fed) : Prop where
  progress : fed.progress = fed'.progress
  context : fed.context.timeless = fed'.context.timeless
  rest : fed.buffer.content ++ bytesOf fed.unfed = fed'.buffer.content ++ bytesOf fed'.unfed

theorem feedNew_spec (cs : List Chunk) :
    Outcome (fun fed : Fed => ∃ d, Drains scan create (bytesOf cs) d ∧ fed.Agrees d)
      (TooLong (Buffer.kNewVector + (bytesOf cs).length)) (feedNew cs) := by
  have hfeed := feed_spec Buffer.wf_newBuffer clean_create
    (by rw [Buffer.content_newBuffer]; rfl) cs
  rw [feedNew, Buffer.create_default]
  rwa [Buffer.content_newBuffer, Buffer.length_newBuffer] at hfeed

/-- **Segmentation does not matter.** Two ways of cutting a stream, one of them
into a single chunk for instance, bring a new parser to the same outcome, the same
state, the same request and the same remaining bytes.  The only failure is that of
a vector that would exceed `max_size()`. -/
theorem parse_segmentation (cs cs' : List Chunk) (h : bytesOf cs = bytesOf cs') :
    Outcome (fun fed : Fed => Outcome (fun fed' : Fed => fed.Same fed')
        (TooLong (Buffer.kNewVector + (bytesOf cs).length)) (feedNew cs'))
      (TooLong (Buffer.kNewVector + (bytesOf cs).length)) (feedNew cs) := by
  refine (feedNew_spec cs).mono ?_ fun _ he => he
  rintro fed ⟨d, hd, hagrees⟩
  rw [h]
  refine (feedNew_spec cs').mono ?_ fun _ he => he
  rintro fed' ⟨d', hd', hagrees'⟩
  obtain rfl := hd.unique (h ▸ hd')
  exact ⟨hagrees.progress.trans hagrees'.progress.symm, hagrees.context.trans hagrees'.context.symm,
    hagrees.rest.trans hagrees'.rest.symm⟩

/-- A request that is cut between CR and LF. -/
def cutRequest : List Chunk :=
  [⟨⟨ascii "GET /index?q HTTP/1.1\r", by decide⟩, 1⟩, ⟨⟨ascii "\nHost: a\r\n\r", by decide⟩, 2⟩,
    ⟨⟨ascii "\nGET", by decide⟩, 3⟩]

/-- The same request in one piece. -/
def wholeRequest : List Chunk :=
  [⟨⟨ascii "GET /index?q HTTP/1.1\r\nHost: a\r\n\r\nGET", by decide⟩, 4⟩]

theorem parse_segmentation_cutRequest :
    ∃ fed fed', feedNew cutRequest = .ok fed ∧ feedNew wholeRequest = .ok fed' ∧ fed.Same fed' := by
  have hcut := parse_segmentation cutRequest wholeRequest (by decide)
  obtain ⟨fed, hfed, hwhole⟩ := hcut.exists_ok fun _ he => absurd he.2 (by decide)
  obtain ⟨fed', hfed', hsame⟩ := hwhole.exists_ok fun _ he => absurd he.2 (by decide)
  exact ⟨fed, fed', hfed, hfed', hsame⟩

end Muduo.HttpContext
