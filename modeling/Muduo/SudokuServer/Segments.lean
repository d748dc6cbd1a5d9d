import Muduo.Lib.Scanner
import Muduo.SudokuServer

/-!
# Muduo.SudokuServer.Segments

When the answers of the Sudoku server depend on how the bytes of a client are cut into
reads.
-/

namespace Muduo.SudokuServer

open Lib List

/-! ## answers -/

/-- What a client can tell of an event. -/
inductive Answer
  | request (id puzzle : List UInt8)
  | reply (message : List UInt8)
deriving DecidableEq

def Event.answer : Event → Option Answer
  | .solve req => some (.request req.id req.puzzle)
  | .send message => some (.reply message)
  | .shutdown | .record _ => none

/-- The requests and the replies before the first `shutdown()`. -/
def answers (events : List Event) : List Answer :=
  (events.takeWhile (· ≠ .shutdown)).filterMap Event.answer

/-- No throttling, and the queue is not full. -/
structure Read.Calm (r : Read) : Prop where
  throttle : r.throttle = false
  queueSize : ∀ k, r.queueSize k < 1000 * 1000

def bytesOf (rs : List Read) : List UInt8 := rs.flatMap (·.bytes)

/-! ## the loop as a scanner -/

/-- The id and the puzzle of a request that is accepted. -/
def parse (numThreads : Int) (request : List UInt8) : Option (List UInt8 × List UInt8) :=
  let colon := request.idxOf ':'.toUInt8
  let (id, puzzle) := if colon ≠ request.length then
    (request.take colon, request.drop (colon + 1)) else ([], request)
  if puzzle.length = kCells ∧ (colon ≠ request.length ∨ numThreads ≤ 1) then some (id, puzzle)
  else none

inductive Refusal
  | badRequest (line : List UInt8)
  | idTooLong
deriving DecidableEq

def Refusal.message : Refusal → List UInt8
  | .badRequest _ => ascii "Bad Request!\r\n"
  | .idTooLong => ascii "Id too long!\r\n"

/-- A round, with `find` for `findCRLF`. -/
def scan (numThreads : Int) (find : List UInt8 → Option Nat) (_ : Unit) (bs : List UInt8) :
    Scan Unit UInt8 (List UInt8) Refusal :=
  if bs.length < kCells + 2 then .wait
  else match find bs with
    | some crlf =>
      if (parse numThreads (bs.take crlf)).isSome then
        .next [bs.take crlf] () (bs.drop (crlf + 2))
      else .stop (.badRequest (bs.take crlf)) () (bs.drop (crlf + 2))
    | none => if 100 < bs.length then .stop .idTooLong () bs else .wait

def findWithin (bs : List UInt8) : Option Nat := Buffer.searchCRLF (bs.take 101)

/-- The answers to what has been drained, and `later` those to what follows. -/
def answersTo (numThreads : Int) (d : Drained Unit UInt8 (List UInt8) Refusal)
    (later : List Answer) : List Answer :=
  d.out.filterMap (fun line => (parse numThreads line).map fun x => .request x.1 x.2) ++
    match d.result with
    | none => later
    | some refusal => [.reply refusal.message]

/-- The lines that have been taken, the last of them perhaps to be refused. -/
def linesOf (d : Drained Unit UInt8 (List UInt8) Refusal) : List (List UInt8) :=
  d.out ++ match d.result with
    | some (.badRequest line) => [line]
    | some .idTooLong | none => []

/-- The lines that the server takes from a stream that arrives in one read. -/
def taken (numThreads : Int) (stream : List UInt8) : List (List UInt8) :=
  linesOf (drain (scan numThreads Buffer.searchCRLF) (stream.length + 1) () stream)

section
variable {numThreads : Int} {find : List UInt8 → Option Nat} {bs rest : List UInt8}
  {out : List (List UInt8)} {refusal : Refusal}
  {d : Drained Unit UInt8 (List UInt8) Refusal}

theorem processRequest_calm {r : Read} (hr : r.Calm) (k : Nat) (line : List UInt8) :
    processRequest numThreads r k line = match parse numThreads line with
      | some x => (true, [.solve ⟨x.1, x.2, r.receiveTime⟩])
      | none => (false, []) := by
  have hqueue := hr.queueSize k
  unfold processRequest parse dispatch
  by_cases hcolon : line.idxOf ':'.toUInt8 = line.length
  · by_cases hthreads : numThreads > 1
    · simp [hcolon, hthreads, Int.not_le.mpr hthreads]
    · by_cases hcells : line.length = kCells <;>
        simp [hcolon, hthreads, hcells, hr.throttle, hqueue, Int.not_lt.mp hthreads]
  · by_cases hcells : (line.drop (line.idxOf ':'.toUInt8 + 1)).length = kCells
    · simp only [ne_eq, hcolon, not_false_eq_true, if_true, hcells, hqueue, hr.throttle, and_self,
        true_or]
    · simp only [ne_eq, hcolon, not_false_eq_true, if_true, hcells, false_and, if_false]

/-- What a round can do. -/
inductive Round (numThreads : Int) (find : List UInt8 → Option Nat) (bs : List UInt8) :
    Scan Unit UInt8 (List UInt8) Refusal → Prop
  | short : bs.length < kCells + 2 → Round numThreads find bs .wait
  | incomplete : kCells + 2 ≤ bs.length → find bs = none → bs.length ≤ 100 →
      Round numThreads find bs .wait
  | request {crlf : Nat} {x : List UInt8 × List UInt8} : kCells + 2 ≤ bs.length →
      find bs = some crlf → parse numThreads (bs.take crlf) = some x →
      Round numThreads find bs (.next [bs.take crlf] () (bs.drop (crlf + 2)))
  | badRequest {crlf : Nat} : kCells + 2 ≤ bs.length →
      find bs = some crlf → parse numThreads (bs.take crlf) = none →
      Round numThreads find bs (.stop (.badRequest (bs.take crlf)) () (bs.drop (crlf + 2)))
  | idTooLong : find bs = none → 100 < bs.length →
      Round numThreads find bs (.stop .idTooLong () bs)

theorem round_scan : Round numThreads find bs (scan numThreads find () bs) := by
  unfold scan
  split
  next hshort => exact .short hshort
  next hlen =>
    cases hfind : find bs with
    | none =>
      dsimp only
      split
      next hlong => exact .idTooLong hfind hlong
      next hlong => exact .incomplete (by omega) hfind (by omega)
    | some crlf =>
      cases hparse : parse numThreads (bs.take crlf) with
      | none => simpa [hparse] using Round.badRequest (by omega) hfind hparse
      | some x => simpa [hparse] using Round.request (by omega) hfind hparse

theorem Round.scan_eq {s : Scan Unit UInt8 (List UInt8) Refusal}
    (h : Round numThreads find bs s) : scan numThreads find () bs = s := by
  unfold scan
  cases h with
  | short hshort => rw [if_pos hshort]
  | incomplete hlen hfind hlong => simp [hfind, Nat.not_lt.mpr hlen, Nat.not_lt.mpr hlong]
  | request hlen hfind hparse => simp [hfind, hparse, Nat.not_lt.mpr hlen]
  | badRequest hlen hfind hparse => simp [hfind, hparse, Nat.not_lt.mpr hlen]
  | idTooLong hfind hlong =>
    have hlen : ¬ bs.length < kCells + 2 := by
      rw [kCells]
      omega
    simp [hfind, hlong, hlen]

theorem Round.of_eq {s : Scan Unit UInt8 (List UInt8) Refusal}
    (h : scan numThreads find () bs = s) : Round numThreads find bs s := h ▸ round_scan

variable {more : List UInt8} {crlf : Nat} {s : Unit}

theorem le_append {n : Nat} (h : n ≤ bs.length) : n ≤ (bs ++ more).length := by
  rw [length_append]
  omega

theorem scan_append (numThreads : Int) (hlen : kCells + 2 ≤ (bs ++ more).length)
    (hle : crlf + 2 ≤ bs.length) (hfind : find (bs ++ more) = some crlf) :
    scan numThreads find () (bs ++ more) =
      if (parse numThreads (bs.take crlf)).isSome then
        .next [bs.take crlf] () (bs.drop (crlf + 2) ++ more)
      else .stop (.badRequest (bs.take crlf)) () (bs.drop (crlf + 2) ++ more) := by
  rw [scan, if_neg (Nat.not_lt.mpr hlen), hfind]
  dsimp only
  rw [take_append_of_le_length (by omega), drop_append_of_le_length hle]

theorem scan_shrinks {s s' : Unit} (h : scan numThreads find s bs = .next out s' rest) :
    rest.length < bs.length := by
  cases Round.of_eq h with
  | request hlen _ _ =>
    rw [length_drop]
    rw [kCells] at hlen
    omega

theorem drains_scan (numThreads : Int) (find : List UInt8 → Option Nat) (bs : List UInt8) :
    Drains (scan numThreads find) () bs (drain (scan numThreads find) (bs.length + 1) () bs) :=
  drains_drain (I := fun _ => True) (fun _ h => ⟨trivial, scan_shrinks h⟩) trivial
    (Nat.lt_succ_self _)

/-! ## the loop drains the buffer -/

theorem answers_record (l : SudokuStat.Label) (events : List Event) :
    answers (.record l :: events) = answers events := rfl

theorem answers_solve (req : Request) (events : List Event) :
    answers (.solve req :: events) = .request req.id req.puzzle :: answers events := rfl

theorem loop_answers {r : Read} (hr : r.Calm)
    (hd : Drains (scan numThreads Buffer.searchCRLF) s bs d) {fuel : Nat} (k : Nat)
    (hfuel : bs.length ≤ fuel) :
    (loop numThreads r fuel k bs).2 = d.rest ∧ ∀ later,
      answers ((loop numThreads r fuel k bs).1 ++ later) =
        answersTo numThreads d (answers later) := by
  induction hd generalizing fuel k with
  | wait hscan =>
    cases fuel with
    | zero => exact ⟨rfl, fun later => rfl⟩
    | succ fuel =>
      rw [loop]
      cases Round.of_eq hscan with
      | short hshort =>
        rw [if_neg (by omega)]
        exact ⟨rfl, fun later => rfl⟩
      | incomplete hlen hfind hlong =>
        rw [if_pos hlen, hfind]
        dsimp only
        rw [if_neg (by omega)]
        exact ⟨rfl, fun later => rfl⟩
  | stop hscan =>
    cases Round.of_eq hscan with
    | badRequest hlen hfind hparse =>
      obtain ⟨fuel, rfl⟩ : ∃ n, fuel = n + 1 := ⟨fuel - 1, by rw [kCells] at hlen; omega⟩
      rw [loop, if_pos hlen, hfind]
      dsimp only
      rw [processRequest_calm hr, hparse]
      exact ⟨rfl, fun later => rfl⟩
    | idTooLong hfind hlong =>
      obtain ⟨fuel, rfl⟩ : ∃ n, fuel = n + 1 := ⟨fuel - 1, by omega⟩
      rw [loop, if_pos (by rw [kCells]; omega), hfind]
      dsimp only
      rw [if_pos hlong]
      exact ⟨rfl, fun later => rfl⟩
  | next hscan _ ih =>
    have hlt := scan_shrinks hscan
    obtain ⟨fuel, rfl⟩ : ∃ n, fuel = n + 1 := ⟨fuel - 1, by omega⟩
    obtain ⟨hrest, hanswers⟩ := ih (k + 1) (Nat.le_of_lt_succ (Nat.lt_of_lt_of_le hlt hfuel))
    cases Round.of_eq hscan with
    | @request crlf x hlen hfind hparse =>
      rw [loop, if_pos hlen, hfind]
      dsimp only
      rw [processRequest_calm hr, hparse]
      refine ⟨hrest, fun later => ?_⟩
      dsimp only
      rw [cons_append, cons_append, singleton_append, cons_append,
        answers_record, answers_solve, hanswers]
      simp [answersTo, hparse]

/-! ## looking at 101 bytes only -/

theorem findWithin_eq_some :
    findWithin bs = some crlf ↔ Buffer.searchCRLF bs = some crlf ∧ crlf < 100 := by
  have hsplit : bs.take 101 ++ bs.drop 101 = bs := take_append_drop 101 bs
  constructor
  · intro h
    have hle := Buffer.searchCRLF_le h
    rw [length_take] at hle
    refine ⟨?_, by omega⟩
    rw [← hsplit]
    exact Buffer.searchCRLF_append h _
  · rintro ⟨h, hlt⟩
    have hle := Buffer.searchCRLF_le h
    rw [← hsplit] at h
    refine Buffer.searchCRLF_of_append h ?_
    rw [length_take]
    omega

theorem findWithin_append (h : findWithin bs = some crlf) (more : List UInt8) :
    findWithin (bs ++ more) = some crlf := by
  rw [findWithin_eq_some] at h ⊢
  exact ⟨Buffer.searchCRLF_append h.1 more, h.2⟩

theorem findWithin_append_of_none (h : findWithin bs = none) (hlong : 100 < bs.length)
    (more : List UInt8) : findWithin (bs ++ more) = none := by
  rw [findWithin, take_append_of_le_length hlong]
  exact h

/-- A server that takes lines of fewer than 100 bytes only looks at nothing else. -/
theorem stable_within : Stable (scan numThreads findWithin) (fun _ => True) where
  next := by
    intro _ bs out _ rest _ h
    refine ⟨trivial, scan_shrinks h, fun more => ?_⟩
    cases Round.of_eq h with
    | @request crlf x hlen hfind hparse =>
      have hle := Buffer.searchCRLF_le (findWithin_eq_some.mp hfind).1
      simp [scan_append _ (le_append hlen) hle (findWithin_append hfind more), hparse]
  stop := by
    intro _ bs refusal _ rest _ h more
    cases Round.of_eq h with
    | @badRequest crlf hlen hfind hparse =>
      have hle := Buffer.searchCRLF_le (findWithin_eq_some.mp hfind).1
      simp [scan_append _ (le_append hlen) hle (findWithin_append hfind more), hparse]
    | idTooLong hfind hlong =>
      exact (Round.idTooLong (findWithin_append_of_none hfind hlong more)
        (by rw [length_append]; omega)).scan_eq

/-! ## lines of fewer than 100 bytes -/

theorem taken_eq (hd : Drains (scan numThreads Buffer.searchCRLF) () bs d) :
    taken numThreads bs = linesOf d := by
  rw [taken, (drains_scan numThreads Buffer.searchCRLF bs).unique hd]

/-- The server takes no line of 100 bytes or more. -/
def Short (numThreads : Int) (bs : List UInt8) : Prop :=
  ∀ line ∈ taken numThreads bs, line.length < 100

theorem short_of_next {line : List UInt8}
    (h : scan numThreads Buffer.searchCRLF () bs = .next [line] () rest) :
    Short numThreads bs ↔ line.length < 100 ∧ Short numThreads rest := by
  have htaken : taken numThreads bs = line :: taken numThreads rest :=
    taken_eq (.next h (drains_scan numThreads Buffer.searchCRLF rest))
  rw [Short, htaken, forall_mem_cons]
  rfl

theorem scan_within (h : ∀ crlf, Buffer.searchCRLF bs = some crlf → crlf < 100) (s : Unit) :
    scan numThreads findWithin s bs = scan numThreads Buffer.searchCRLF s bs := by
  have hfind : findWithin bs = Buffer.searchCRLF bs := by
    ext crlf
    rw [findWithin_eq_some]
    exact ⟨And.left, fun hcrlf => ⟨hcrlf, h crlf hcrlf⟩⟩
  rw [scan, scan, hfind]

theorem drains_within (hd : Drains (scan numThreads Buffer.searchCRLF) s bs d)
    (hshort : ∀ line ∈ linesOf d, line.length < 100) :
    Drains (scan numThreads findWithin) s bs d := by
  -- a line is as long as the position of its end
  have hcrlf : ∀ {bs : List UInt8} {crlf : Nat}, Buffer.searchCRLF bs = some crlf →
      (bs.take crlf).length < 100 → ∀ i, Buffer.searchCRLF bs = some i → i < 100 := by
    intro bs crlf hfind hlt i hi
    have hle := Buffer.searchCRLF_le hfind
    obtain rfl := Option.some.inj (hfind.symm.trans hi)
    rwa [length_take, Nat.min_eq_left (by omega)] at hlt
  induction hd with
  | wait hscan =>
    refine .wait ((scan_within ?_ _).trans hscan)
    intro crlf hfind
    cases Round.of_eq hscan with
    | short hlt =>
      have hle := Buffer.searchCRLF_le hfind
      rw [kCells] at hlt
      omega
    | incomplete _ hnone => exact nomatch hnone.symm.trans hfind
  | stop hscan =>
    refine .stop ((scan_within ?_ _).trans hscan)
    cases Round.of_eq hscan with
    | badRequest _ hfind _ => exact hcrlf hfind (hshort _ mem_cons_self)
    | idTooLong hnone _ => exact fun crlf hfind => nomatch hnone.symm.trans hfind
  | next hscan _ ih =>
    refine .next ((scan_within ?_ _).trans hscan) (ih ?_)
    · cases Round.of_eq hscan with
      | request _ hfind _ => exact hcrlf hfind (hshort _ mem_cons_self)
    · cases Round.of_eq hscan with
      | request => exact fun line hline => hshort line (mem_cons_of_mem _ hline)

theorem Short.cut (hd : Drains (scan numThreads Buffer.searchCRLF) s bs d)
    (hshort : Short numThreads (bs ++ more)) :
    (∀ line ∈ linesOf d, line.length < 100) ∧
      (d.result = none → Short numThreads (d.rest ++ more)) := by
  induction hd with
  | wait => exact ⟨nofun, fun _ => hshort⟩
  | stop hscan =>
    refine ⟨?_, nofun⟩
    cases Round.of_eq hscan with
    | @badRequest crlf hlen hfind hparse =>
      have hscan' := scan_append numThreads (le_append hlen) (Buffer.searchCRLF_le hfind)
        (Buffer.searchCRLF_append hfind more)
      simp only [hparse, Option.isSome_none, Bool.false_eq_true, if_false] at hscan'
      rw [Short, taken_eq (.stop hscan')] at hshort
      exact hshort
    | idTooLong => exact nofun
  | next hscan _ ih =>
    cases Round.of_eq hscan with
    | @request crlf x hlen hfind hparse =>
      have hscan' := scan_append numThreads (le_append hlen) (Buffer.searchCRLF_le hfind)
        (Buffer.searchCRLF_append hfind more)
      simp only [hparse, Option.isSome_some, if_true] at hscan'
      rw [short_of_next hscan'] at hshort
      obtain ⟨hlines, hrest⟩ := ih hshort.2
      exact ⟨forall_mem_cons.mpr ⟨hshort.1, hlines⟩, hrest⟩

theorem serve_cons {r : Read} (hr : r.Calm) (buf : List UInt8) (rs : List Read)
    (hd : Drains (scan numThreads Buffer.searchCRLF) () (buf ++ r.bytes) d) :
    answers (serve numThreads buf (r :: rs)) =
      answersTo numThreads d (answers (serve numThreads d.rest rs)) := by
  obtain ⟨hrest, hanswers⟩ := loop_answers hr hd 0 (Nat.le_refl _)
  rw [serve, onMessage]
  dsimp only
  rw [hrest, hanswers]

theorem bytesOf_cons (r : Read) (rs : List Read) : bytesOf (r :: rs) = r.bytes ++ bytesOf rs :=
  flatMap_cons ..

/-- **Short lines**: the answers are those to the bytes, in one piece. -/
theorem serve_answers {buf : List UInt8} {rs : List Read} (hcalm : ∀ r ∈ rs, r.Calm)
    (hwait : scan numThreads findWithin () buf = .wait)
    (hshort : Short numThreads (buf ++ bytesOf rs))
    (hd : Drains (scan numThreads findWithin) () (buf ++ bytesOf rs) d) :
    answers (serve numThreads buf rs) = answersTo numThreads d [] := by
  induction rs generalizing buf d with
  | nil =>
    rw [bytesOf, flatMap_nil, append_nil] at hd
    rw [hd.unique (.wait hwait)]
    rfl
  | cons r rs ih =>
    obtain ⟨hr, hrs⟩ := forall_mem_cons.mp hcalm
    rw [bytesOf_cons, ← append_assoc] at hshort hd
    have hd₁ := drains_scan numThreads Buffer.searchCRLF (buf ++ r.bytes)
    obtain ⟨hlines, hrest⟩ := hshort.cut hd₁
    have hwithin := drains_within hd₁ hlines
    rw [serve_cons hr buf rs hd₁]
    generalize drain (scan numThreads Buffer.searchCRLF) ((buf ++ r.bytes).length + 1) ()
      (buf ++ r.bytes) = d₁ at *
    cases hresult : d₁.result with
    | none =>
      have hd₂ := drains_scan numThreads findWithin (d₁.rest ++ bytesOf rs)
      rw [ih hrs (hwithin.scan_eq_wait hresult) (hrest hresult) hd₂,
        hd.unique (stable_within.drains_append trivial hwithin hresult hd₂)]
      simp [answersTo, hresult]
    | some refusal =>
      rw [hd.unique (stable_within.drains_of_stop trivial hwithin hresult (bytesOf rs))]
      simp [answersTo, hresult]

/-! ## longer lines -/

/-- The first bytes of a long line, without its end, are refused. -/
theorem drains_take (hfind : Buffer.searchCRLF bs = some crlf) (hlong : 100 ≤ crlf) :
    Drains (scan numThreads Buffer.searchCRLF) () (bs.take 101)
      ⟨[], some .idTooLong, (), bs.take 101⟩ := by
  have hle := Buffer.searchCRLF_le hfind
  refine .stop (Round.idTooLong ?_ ?_).scan_eq
  · refine Option.eq_none_iff_forall_ne_some.mpr fun i hi => ?_
    have hwithin := findWithin_eq_some.mp hi
    obtain rfl := Option.some.inj (hfind.symm.trans hwithin.1)
    omega
  · rw [length_take]
    omega

/-- A stream with a long line can be cut so that it is answered otherwise. -/
theorem exists_cut (hd : Drains (scan numThreads Buffer.searchCRLF) s bs d)
    (hlong : ∃ line ∈ linesOf d, 100 ≤ line.length) :
    ∃ a b d', bs = a ++ b ∧ 100 < a.length ∧ Drains (scan numThreads Buffer.searchCRLF) () a d' ∧
      d'.result = some .idTooLong ∧ answersTo numThreads d' [] ≠ answersTo numThreads d [] := by
  -- the long line is the first one
  have hhead : ∀ {bs : List UInt8} {crlf : Nat}, Buffer.searchCRLF bs = some crlf →
      100 ≤ (bs.take crlf).length → 100 < (bs.take 101).length ∧ 100 ≤ crlf := by
    intro bs crlf hfind hlen
    have hle := Buffer.searchCRLF_le hfind
    rw [length_take] at hlen ⊢
    omega
  induction hd with
  | wait => simp [linesOf] at hlong
  | @stop _ _ bs _ _ hscan =>
    cases Round.of_eq hscan with
    | idTooLong => simp [linesOf] at hlong
    | badRequest _ hfind _ =>
      simp only [linesOf, nil_append, mem_singleton, exists_eq_left] at hlong
      obtain ⟨hlen, hcrlf⟩ := hhead hfind hlong
      refine ⟨_, _, _, (take_append_drop 101 bs).symm, hlen, drains_take hfind hcrlf, rfl, ?_⟩
      simp only [answersTo, Refusal.message, filterMap_nil, nil_append]
      decide
  | @next _ _ bs _ _ d hscan _ ih =>
    cases Round.of_eq hscan with
    | @request crlf x hlen hfind hparse =>
      by_cases hline : 100 ≤ (bs.take crlf).length
      · obtain ⟨hlen, hcrlf⟩ := hhead hfind hline
        refine ⟨_, _, _, (take_append_drop 101 bs).symm, hlen, drains_take hfind hcrlf, rfl, ?_⟩
        simp [answersTo, hparse]
      · obtain ⟨a, b, d', hrest, ha, hd', hresult, hne⟩ := ih (by
          obtain ⟨line, hmem, hlong⟩ := hlong
          refine ⟨line, (mem_cons.mp hmem).resolve_left ?_, hlong⟩
          rintro rfl
          exact hline hlong)
        have hbs : bs = (bs.take (crlf + 2) ++ a) ++ b := by
          rw [append_assoc, ← hrest, take_append_drop]
        have hle := Buffer.searchCRLF_le hfind
        have htake : (bs.take (crlf + 2)).length = crlf + 2 := length_take_of_le hle
        have hfind' : Buffer.searchCRLF (bs.take (crlf + 2) ++ a) = some crlf :=
          Buffer.searchCRLF_of_append (by rwa [← hbs]) (le_append htake.ge)
        have hscan' := scan_append numThreads (by rw [length_append, kCells]; omega) htake.ge
          hfind'
        rw [take_take, Nat.min_eq_left (by omega), hparse, drop_take, Nat.sub_self,
          take_zero, nil_append, if_pos Option.isSome_some] at hscan'
        refine ⟨_, b, _, hbs, by rw [length_append]; omega, .next hscan' hd', hresult, ?_⟩
        simpa [answersTo, hparse] using hne

/-- A read of bytes by a server that is not busy. -/
def Read.calm (bytes : List UInt8) : Read := ⟨bytes, 0, false, fun _ => 0⟩

theorem calm_calm (bytes : List UInt8) : (Read.calm bytes).Calm :=
  ⟨rfl, fun _ => (by decide : 0 < 1000 * 1000)⟩

/-- **When the cutting does not matter.** -/
theorem segments_irrelevant_iff (numThreads : Int) (stream : List UInt8) :
    (∀ rs rs' : List Read, (∀ r ∈ rs, r.Calm) → (∀ r ∈ rs', r.Calm) →
      bytesOf rs = stream → bytesOf rs' = stream →
      answers (serve numThreads [] rs) = answers (serve numThreads [] rs')) ↔
    ∀ line ∈ taken numThreads stream, line.length < 100 := by
  constructor
  · intro hall
    by_contra hlong
    push Not at hlong
    have hd := drains_scan numThreads Buffer.searchCRLF stream
    obtain ⟨a, b, d', hstream, -, hd', hresult, hne⟩ := exists_cut hd hlong
    have hwhole := serve_cons (calm_calm stream) [] [] hd
    have hcut := serve_cons (calm_calm a) [] [.calm b] hd'
    apply hne
    calc answersTo numThreads d' []
        = answersTo numThreads d' (answers (serve numThreads d'.rest [.calm b])) := by
          simp [answersTo, hresult]
      _ = answers (serve numThreads [] [.calm a, .calm b]) := hcut.symm
      _ = answers (serve numThreads [] [.calm stream]) :=
          hall _ _ (by simp [calm_calm]) (by simp [calm_calm]) (by simp [bytesOf, Read.calm, hstream])
            (by simp [bytesOf, Read.calm])
      _ = _ := hwhole
  · intro hshort rs rs' hcalm hcalm' hrs hrs'
    have hwait : scan numThreads findWithin () [] = .wait := (Round.short (by decide)).scan_eq
    have hd := drains_scan numThreads findWithin stream
    have hanswers : ∀ rs : List Read, (∀ r ∈ rs, r.Calm) → bytesOf rs = stream →
        answers (serve numThreads [] rs) = answersTo numThreads _ [] :=
      fun rs hcalm hrs => serve_answers hcalm hwait
        (by rwa [nil_append, hrs]) (by rwa [nil_append, hrs])
    rw [hanswers rs hcalm hrs, hanswers rs' hcalm' hrs']

/-- An id of 30 bytes, and the empty grid. -/
def longId : List UInt8 :=
  List.replicate 30 'a'.toUInt8 ++ ':'.toUInt8 :: List.replicate 81 '0'.toUInt8 ++ ascii "\r\n"

/-- The request is solved if it arrives in one read, and refused if it does not. -/
theorem longId_refused :
    answers (serve 4 [] [.calm longId]) =
        [.request (List.replicate 30 'a'.toUInt8) (List.replicate 81 '0'.toUInt8)] ∧
      answers (serve 4 [] [.calm (longId.take 101), .calm (longId.drop 101)]) =
        [.reply (ascii "Id too long!\r\n")] := by
  decide +kernel

end

end Muduo.SudokuServer
