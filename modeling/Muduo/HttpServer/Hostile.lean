import Muduo.HttpServer.Spec

/-!
# Muduo.HttpServer.Hostile

Arbitrary bytes on a connection.

`parseRequest` refuses a bad request line without consuming it.  When the line
names a method, the refused request keeps it, and the next read fails the
assertion of `setMethod` on the same line.  `hostile_input` says that this is the
only way: without such a line the assertion holds, and what was refused has left
the context as it was.
-/

namespace Muduo.HttpConn

open Lib HttpContext

/-- Every call of `parseRequest` that returned false left the context as it was. -/
def Unspoiled (s : HttpConn) : Prop := ∀ p ∈ s.failures, p.2 = p.1

/-- The bytes do not offer, as a request line, a line that names a method and is
none. -/
def Harmless (s : HttpConn) (c : Chunk) : Prop :=
  s.context.state = .kExpectRequestLine → ∀ i ∈ Buffer.searchCRLF (s.pending c),
    namesMethod ((s.pending c).take i) = true → isRequestLine ((s.pending c).take i) = true

instance (s : HttpConn) (c : Chunk) : Decidable (s.Harmless c) :=
  inferInstanceAs (Decidable (_ → ∀ i ∈ Buffer.searchCRLF (s.pending c), _ = true → _ = true))

/-- A connection that is ready for the next read. -/
structure Ready (s : HttpConn) : Prop where
  wf : s.inputBuffer.WF
  scanning : s.context.Scanning

/-- A connection that has not met a bad request line with a method. -/
structure Orderly (s : HttpConn) : Prop where
  wf : s.inputBuffer.WF
  clean : s.context.Clean
  unspoiled : s.Unspoiled

theorem Orderly.ready {s : HttpConn} (h : s.Orderly) : s.Ready := ⟨h.wf, h.clean.scanning⟩

theorem orderly_create : create.Orderly where
  wf := Buffer.wf_newBuffer
  clean := clean_create
  unspoiled := fun _ hp => absurd hp List.not_mem_nil

section
variable {httpCallback : HttpRequest → Bool → Bool}

/-- **Any read** leaves the connection ready for the next, or fails in one of two
ways. -/
theorem outcome_onMessage (s : HttpConn) (c : Chunk) (h : s.Ready) :
    Outcome (fun s' => s'.Ready ∧
        s'.inputBuffer.buffer.length ≤ s.inputBuffer.buffer.length + c.bytes.data.length)
      (fun f => TooLong (s.inputBuffer.buffer.length + c.bytes.data.length) f ∨ f = .setMethod)
      (s.onMessage httpCallback c) := by
  refine (onMessage_spec h.wf h.scanning).mono ?_ fun f hf => hf.imp_right And.left
  rintro s' ⟨hwf, hlen, d, hd, hhandled⟩
  exact ⟨⟨hwf, hhandled.scanning h.scanning hd⟩, hlen⟩

/-- **A harmless read** keeps the connection orderly. -/
theorem Orderly.onMessage (s : HttpConn) (c : Chunk) (h : s.Orderly) (hc : s.Harmless c) :
    Outcome (fun s' => s'.Orderly ∧
        s'.inputBuffer.buffer.length ≤ s.inputBuffer.buffer.length + c.bytes.data.length)
      (TooLong (s.inputBuffer.buffer.length + c.bytes.data.length))
      (s.onMessage httpCallback c) := by
  refine (onMessage_spec h.wf h.clean.scanning).mono ?_ fun f hf =>
    hf.resolve_right fun hassert => hassert.2 h.clean
  rintro s' ⟨hwf, hlen, d, hd, hhandled⟩
  refine ⟨?_, hlen⟩
  have hleft := (clean_timeless.mpr h.clean).drains hd
  cases hhandled with
  | waits hr hcontext =>
    rw [hr, ← hcontext] at hleft
    exact ⟨hwf, clean_timeless.mp hleft, h.unspoiled⟩
  | serves => exact ⟨hwf, clean_create, h.unspoiled⟩
  | @fails _ _ i _ hi hline =>
    obtain ⟨hnot, -, hsame⟩ := h.clean.onLine_failed hline
    have hnames : namesMethod ((s.pending c).take i) = false := by
      by_contra hnames
      have hyes := hc (state_of_onLine_failed hline).1 i hi (by simpa using hnames)
      simp [hnot] at hyes
    obtain rfl := hsame hnames
    refine ⟨hwf, h.clean, fun p hp => ?_⟩
    obtain hp | hp := List.mem_append.mp hp
    · exact h.unspoiled p hp
    · rw [List.mem_singleton.mp hp]

/-- **A read that is not harmless** spoils the context. -/
theorem Orderly.spoiled (s : HttpConn) (c : Chunk) (h : s.Orderly) (hc : ¬ s.Harmless c) :
    Outcome (fun s' => s'.Ready ∧ ¬ s'.Unspoiled) (fun _ => True) (s.onMessage httpCallback c) := by
  refine (onMessage_spec h.wf h.clean.scanning).mono ?_ fun _ _ => trivial
  rintro s' ⟨hwf, -, d, hd, hhandled⟩
  refine ⟨⟨hwf, hhandled.scanning h.clean.scanning hd⟩, fun hunspoiled => ?_⟩
  simp only [Harmless, Classical.not_imp, not_forall] at hc
  obtain ⟨hs, i, hi, hnames, hnot⟩ := hc
  obtain ⟨ctx', hline⟩ := h.clean.onLine_not_isRequestLine hs (Bool.not_eq_true _ ▸ hnot)
  have hscan : scan s.context.timeless (s.pending c) =
      .stop .failed ctx'.timeless (s.pending c) := by
    rw [scan, Option.mem_def.mp hi]
    simp only [onLine_timeless, hline, LineResult.timeless]
  obtain rfl := hd.unique (.stop hscan)
  cases hhandled with
  | waits hr | serves hr => cases hr
  | @fails ctx'' _ j _ hj hline' =>
    obtain rfl : i = j := Option.some.inj (hi.symm.trans hj)
    have hsame : ctx'' = s.context :=
      hunspoiled (s.context, ctx'') (List.mem_append_right _ List.mem_cons_self)
    exact (h.clean.onLine_failed hline').2.1 hnames (hsame ▸ h.clean)

theorem spoiled_onMessage (s : HttpConn) (c : Chunk) (h : s.Ready ∧ ¬ s.Unspoiled) :
    Outcome (fun s' => s'.Ready ∧ ¬ s'.Unspoiled) (fun _ => True) (s.onMessage httpCallback c) := by
  refine (onMessage_spec h.1.wf h.1.scanning).mono ?_ fun _ _ => trivial
  rintro s' ⟨hwf, -, d, hd, hhandled⟩
  refine ⟨⟨hwf, hhandled.scanning h.1.scanning hd⟩, fun hunspoiled => h.2 fun p hp => ?_⟩
  apply hunspoiled
  cases hhandled with
  | waits | serves => exact hp
  | fails => exact List.mem_append_left _ hp

end

/-- **Hostile input.** Every read is handled, `parseRequest` terminates, and short of
a vector beyond `max_size()` the only failure is that of the assertion
`method_ == kInvalid`.  The assertion holds and no failed request line changes the
context when every read is harmless; in a run with a read that is not, the context
is changed, or the run ends at the assertion. -/
theorem hostile_input (httpCallback : HttpRequest → Bool → Bool) (cs : List Chunk) :
    Outcome (fun s : HttpConn =>
        s.Unspoiled ↔ Meets (onMessage httpCallback) Harmless create cs)
      (fun f => TooLong (Buffer.kNewVector + (bytesOf cs).length) f ∨
        f = .setMethod ∧ ¬ Meets (onMessage httpCallback) Harmless create cs)
      (run (onMessage httpCallback) create cs) := by
  by_cases hmeets : Meets (onMessage httpCallback) Harmless create cs
  · have hrun := outcome_run_reads (R := fun s _ => s.Orderly) (E := TooLong) TooLong.mono
      (fun s _ c hs hc => hs.onMessage s c hc) orderly_create hmeets
    exact hrun.mono (fun s hs => iff_of_true hs.unspoiled hmeets) fun f hf => .inl hf
  · have hall : Meets (onMessage httpCallback) (fun _ _ => True) create cs := meets_true create cs
    have hrun := outcome_run_reads (R := fun s _ => s.Ready)
      (E := fun n f => TooLong n f ∨ f = .setMethod)
      (fun hmn hf => hf.imp_left (TooLong.mono hmn)) (fun s _ c hs _ => outcome_onMessage s c hs)
      orderly_create.ready hall
    have hspoiled := Outcome.run_not_meets (E := fun _ => True)
      (fun s c hs hc => (Orderly.onMessage s c hs hc).mono (fun _ h => h.1) fun _ _ => trivial)
      Orderly.spoiled spoiled_onMessage orderly_create hmeets
    cases hr : run (onMessage httpCallback) create cs with
    | ok s => exact .ok (iff_of_false (hspoiled.of_ok hr).2 hmeets)
    | error f => exact .error ((hrun.of_error hr).imp_right fun hf => ⟨hf, hmeets⟩)

/-- A request line with a method and a version that is not known, and the data that
comes after the response to it. -/
def unknownVersion : List Chunk :=
  [⟨⟨ascii "GET / HTTP/3.0\r\n", by decide⟩, 1⟩, ⟨⟨ascii "x", by decide⟩, 2⟩]

/-- **The assertion fails.** The line is refused with its method set, and looked at
again on the next read. -/
theorem setMethod_after_unknownVersion :
    (run (onMessage fun _ close => close) create (unknownVersion.take 1)).map
        (fun s => s.failures.map fun p => (p.1.request.method, p.2.request.method)) =
      .ok [(.kInvalid, .kGet)] ∧
    run (onMessage fun _ close => close) create unknownVersion = .error .setMethod := by
  constructor
  · decide +kernel
  · decide +kernel

end Muduo.HttpConn
