import Mathlib.Data.List.Basic

/-!
# Muduo.Lib.Scanner

Reading units off the front of a stream that arrives in pieces.

A scanner looks at its state and at the bytes at hand.  It waits for more, or
reads one unit off the front and goes on, or stops.  `drain` calls it until it
waits or stops, and `Drains` says what comes of that.

A scanner is `Stable` when bytes that arrive later do not change what it has made
of the earlier ones.  Then it does not matter how the stream is cut:
`Stable.drains_append` joins what is drained before and behind a cut.
-/

namespace Lib

/-- What a scanner makes of the bytes at hand: it gives `out` and leaves `rest`. -/
inductive Scan (σ : Type u) (β : Type v) (ω : Type w) (ρ : Type x)
  | wait
  | next (out : List ω) (s : σ) (rest : List β)
  | stop (r : ρ) (s : σ) (rest : List β)

variable {σ : Type u} {β : Type v} {ω : Type w} {ρ : Type x}

/-- What is drained from a piece of the stream, and what is left.  `result` is
empty when the scanner waits. -/
structure Drained (σ : Type u) (β : Type v) (ω : Type w) (ρ : Type x) where
  out : List ω
  result : Option ρ
  state : σ
  rest : List β

/-- The scanner is called until it waits or stops, at most `fuel` times. -/
def drain (scan : σ → List β → Scan σ β ω ρ) : Nat → σ → List β → Drained σ β ω ρ
  | 0, s, bs => ⟨[], none, s, bs⟩
  | fuel + 1, s, bs => match scan s bs with
    | .wait => ⟨[], none, s, bs⟩
    | .stop r s' rest => ⟨[], some r, s', rest⟩
    | .next out s' rest =>
      let d := drain scan fuel s' rest
      { d with out := out ++ d.out }

/-- The scanner is called until it waits or stops. -/
inductive Drains (scan : σ → List β → Scan σ β ω ρ) : σ → List β → Drained σ β ω ρ → Prop
  | wait {s : σ} {bs : List β} : scan s bs = .wait → Drains scan s bs ⟨[], none, s, bs⟩
  | stop {s s' : σ} {bs rest : List β} {r : ρ} : scan s bs = .stop r s' rest →
      Drains scan s bs ⟨[], some r, s', rest⟩
  | next {s s' : σ} {bs rest : List β} {out : List ω} {d : Drained σ β ω ρ} :
      scan s bs = .next out s' rest → Drains scan s' rest d →
      Drains scan s bs { d with out := out ++ d.out }

/-- More bytes change nothing of what has been read; a unit is not empty. -/
structure Stable (scan : σ → List β → Scan σ β ω ρ) (I : σ → Prop) : Prop where
  next : ∀ {s bs out s' rest}, I s → scan s bs = .next out s' rest →
    I s' ∧ rest.length < bs.length ∧ ∀ more, scan s (bs ++ more) = .next out s' (rest ++ more)
  stop : ∀ {s bs r s' rest}, I s → scan s bs = .stop r s' rest →
    ∀ more, scan s (bs ++ more) = .stop r s' (rest ++ more)

variable {scan : σ → List β → Scan σ β ω ρ} {I : σ → Prop} {s : σ} {bs : List β}
  {d d' : Drained σ β ω ρ}

theorem Drains.unique (h : Drains scan s bs d) (h' : Drains scan s bs d') : d = d' := by
  induction h generalizing d' with
  | wait hscan =>
    cases h' with
    | wait => rfl
    | stop hscan' | next hscan' => exact nomatch hscan.symm.trans hscan'
  | stop hscan =>
    cases h' with
    | stop hscan' => cases hscan.symm.trans hscan'; rfl
    | wait hscan' | next hscan' => exact nomatch hscan.symm.trans hscan'
  | next hscan _ ih =>
    cases h' with
    | next hscan' hrest =>
      cases hscan.symm.trans hscan'
      rw [ih hrest]
    | wait hscan' | stop hscan' => exact nomatch hscan.symm.trans hscan'

/-- A call for each byte is enough, and one more. -/
theorem drains_drain (hscan : ∀ {s bs out s' rest}, I s → scan s bs = .next out s' rest →
      I s' ∧ rest.length < bs.length) (hs : I s) {fuel : Nat} (hfuel : bs.length < fuel) :
    Drains scan s bs (drain scan fuel s bs) := by
  induction fuel generalizing s bs with
  | zero => omega
  | succ fuel ih =>
    rw [drain]
    cases hnext : scan s bs with
    | wait => exact .wait hnext
    | stop r s' rest => exact .stop hnext
    | next out s' rest =>
      obtain ⟨hs', hlt⟩ := hscan hs hnext
      exact .next hnext (ih hs' (by omega))

theorem Stable.drains (h : Stable scan I) (hs : I s) {fuel : Nat} (hfuel : bs.length < fuel) :
    Drains scan s bs (drain scan fuel s bs) :=
  drains_drain (fun hs hnext => ⟨(h.next hs hnext).1, (h.next hs hnext).2.1⟩) hs hfuel

theorem Stable.state (h : Stable scan I) (hs : I s) (hd : Drains scan s bs d)
    (hwait : d.result = none) : I d.state := by
  induction hd with
  | wait => exact hs
  | stop => cases hwait
  | next hscan _ ih => exact ih (h.next hs hscan).1 hwait

theorem Drains.scan_eq_wait (hd : Drains scan s bs d) (hwait : d.result = none) :
    scan d.state d.rest = .wait := by
  induction hd with
  | wait hscan => exact hscan
  | stop => cases hwait
  | next _ _ ih => exact ih hwait

theorem Drains.invariant {P : σ → Prop} {Q : Option ρ → σ → Prop} (hd : Drains scan s bs d)
    (hs : P s) (hwait : ∀ s, P s → Q none s)
    (hnext : ∀ s bs out s' rest, P s → scan s bs = .next out s' rest → P s')
    (hstop : ∀ s bs r s' rest, P s → scan s bs = .stop r s' rest → Q (some r) s') :
    Q d.result d.state := by
  induction hd with
  | wait => exact hwait _ hs
  | stop hscan => exact hstop _ _ _ _ _ hs hscan
  | next hscan _ ih => exact ih (hnext _ _ _ _ _ hs hscan)

theorem Stable.drains_of_stop (h : Stable scan I) (hs : I s) (hd : Drains scan s bs d) {r : ρ}
    (hr : d.result = some r) (more : List β) :
    Drains scan s (bs ++ more) { d with rest := d.rest ++ more } := by
  induction hd with
  | wait => cases hr
  | stop hscan => exact .stop (h.stop hs hscan more)
  | next hscan _ ih =>
    obtain ⟨hs', -, hmore⟩ := h.next hs hscan
    exact .next (hmore more) (ih hs' hr)

/-- **A cut in the stream.** What is drained before it and what is drained from
the rest and the following bytes make up what is drained from the whole. -/
theorem Stable.drains_append (h : Stable scan I) (hs : I s) (hd : Drains scan s bs d)
    (hwait : d.result = none) {more : List β} (hd' : Drains scan d.state (d.rest ++ more) d') :
    Drains scan s (bs ++ more) { d' with out := d.out ++ d'.out } := by
  induction hd with
  | wait => exact hd'
  | stop => cases hwait
  | next hscan _ ih =>
    obtain ⟨hs', -, hmore⟩ := h.next hs hscan
    rw [List.append_assoc]
    exact .next (hmore more) (ih hs' hwait hd')

/-- **A stream that is drained without a stop** can be cut anywhere. -/
theorem Stable.drains_cut (h : Stable scan I) (hs : I s) {more : List β}
    (hd : Drains scan s (bs ++ more) d) (hwait : d.result = none) :
    ∃ d₁ d₂, Drains scan s bs d₁ ∧ d₁.result = none ∧ Drains scan d₁.state (d₁.rest ++ more) d₂ ∧
      d = { d₂ with out := d₁.out ++ d₂.out } := by
  have hd₁ := h.drains hs (Nat.lt_succ_self bs.length)
  cases hr : (drain scan (bs.length + 1) s bs).result with
  | some r =>
    rw [hd.unique (h.drains_of_stop hs hd₁ hr more)] at hwait
    exact nomatch hr.symm.trans hwait
  | none =>
    have hd₂ := h.drains (h.state hs hd₁ hr)
      (Nat.lt_succ_self ((drain scan (bs.length + 1) s bs).rest ++ more).length)
    exact ⟨_, _, hd₁, hr, hd₂, hd.unique (h.drains_append hs hd₁ hr hd₂)⟩

end Lib
