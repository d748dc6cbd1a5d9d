import Muduo.SudokuStat

/-!
# Muduo.SudokuStat.Window

The sliding window of `SudokuStat`, and `reset()`.
-/

namespace Muduo.SudokuStat

open Lib List

/-! ## sums over the history -/

/-- The number of the responses in second `t`. -/
def countAt (h : List (Int × Int)) (t : Int) : Int := (h.countP (·.1 = t) : Nat)

/-- The sum of the latencies of the responses in second `t`. -/
def latencyAt (h : List (Int × Int)) (t : Int) : Int := ((h.filter (·.1 = t)).map Prod.snd).sum

section
variable {h : List (Int × Int)} {t : Int}

theorem countAt_concat (h : List (Int × Int)) (second elapsed t : Int) :
    countAt (h ++ [(second, elapsed)]) t = countAt h t + if second = t then 1 else 0 := by
  simp only [countAt, countP_append, countP_singleton, decide_eq_true_eq]
  split <;> simp

theorem latencyAt_concat (h : List (Int × Int)) (second elapsed t : Int) :
    latencyAt (h ++ [(second, elapsed)]) t = latencyAt h t + if second = t then elapsed else 0 := by
  simp only [latencyAt, filter_append, map_append, sum_append]
  by_cases hsecond : second = t <;> simp [hsecond]

theorem countAt_eq_zero (hne : ∀ x ∈ h, x.1 ≠ t) : countAt h t = 0 := by
  rw [countAt, countP_eq_zero.2 fun x hx => by simpa using hne x hx]
  rfl

theorem latencyAt_eq_zero (hne : ∀ x ∈ h, x.1 ≠ t) : latencyAt h t = 0 := by
  rw [latencyAt, filter_eq_nil_iff.2 fun x hx => by simpa using hne x hx]
  rfl

end

/-! ## the slots -/

variable {s : SudokuStat} {h : List (Int × Int)} {last : Int} {n : Nat}

/-- The slots are the `n` seconds up to `last`. -/
structure Slots (s : SudokuStat) (h : List (Int × Int)) (last : Int) (n : Nat) : Prop where
  requests : s.requests.data = span (countAt h) last n
  latencies : s.latencies.data = span (latencyAt h) last n

theorem Slots.size_requests (hs : Slots s h last n) : s.requests.size = n :=
  CircularBuffer.size_of_span hs.requests

theorem Slots.size_latencies (hs : Slots s h last n) : s.latencies.size = n :=
  CircularBuffer.size_of_span hs.latencies

theorem slots_nil (hreq : s.requests = .empty) (hlat : s.latencies = .empty) : Slots s h last 0 := by
  refine ⟨?_, ?_⟩
  · rw [hreq]
    rfl
  · rw [hlat]
    rfl

theorem Slots.pushBack (hs : Slots s h last n) (hnone : ∀ x ∈ h, x.1 ≠ last + 1) :
    Slots s.pushBack h (last + 1) (min (n + 1) kSeconds) := by
  have hreq := CircularBuffer.pushBack_span hs.requests
  have hlat := CircularBuffer.pushBack_span hs.latencies
  rw [countAt_eq_zero hnone] at hreq
  rw [latencyAt_eq_zero hnone] at hlat
  exact ⟨hreq, hlat⟩

variable {second : Int}

theorem Slots.modify (hs : Slots s h last n) {i : Nat} (hsecond : second = last - n + 1 + i)
    (elapsed : Int) {s' : SudokuStat} (hreq : s'.requests = s.requests.modify i (· + 1))
    (hlat : s'.latencies = s.latencies.modify i (· + elapsed)) :
    Slots s' (h ++ [(second, elapsed)]) last n := by
  refine ⟨?_, ?_⟩
  · rw [hreq, CircularBuffer.data_modify, hs.requests]
    refine modify_span ?_ fun t ht => ?_
    · rw [countAt_concat, if_pos hsecond]
    · rw [countAt_concat, if_neg (by omega), Int.add_zero]
  · rw [hlat, CircularBuffer.data_modify, hs.latencies]
    refine modify_span ?_ fun t ht => ?_
    · rw [latencyAt_concat, if_pos hsecond]
    · rw [latencyAt_concat, if_neg (by omega), Int.add_zero]

theorem Slots.discard (hs : Slots s h last n) (elapsed : Int) (hlt : second < last - n + 1) :
    Slots s (h ++ [(second, elapsed)]) last n := by
  refine ⟨hs.requests.trans (span_congr fun t ht _ => ?_), hs.latencies.trans (span_congr fun t ht _ => ?_)⟩
  · rw [countAt_concat, if_neg (by omega), Int.add_zero]
  · rw [latencyAt_concat, if_neg (by omega), Int.add_zero]

theorem Slots.addBack (hs : Slots s h last n) (hn : 0 < n) (elapsed : Int) :
    ∃ s', s.addBack elapsed = .ok s' ∧ Slots s' (h ++ [(last, elapsed)]) last n ∧
      s'.lastSecond = s.lastSecond := by
  have hreq := hs.size_requests
  have hlat := hs.size_latencies
  refine ⟨{ s with
    requests := s.requests.modifyBack (· + 1)
    latencies := s.latencies.modifyBack (· + elapsed) }, ?_, ?_, rfl⟩
  · rw [SudokuStat.addBack, check_of (by omega)]
    rfl
  · refine hs.modify (i := n - 1) (by omega) elapsed ?_ ?_
    · dsimp only
      rw [CircularBuffer.modifyBack, hreq]
    · dsimp only
      rw [CircularBuffer.modifyBack, hlat]

theorem Slots.jumpAhead (hs : Slots s h s.lastSecond n) (hmax : ∀ x ∈ h, x.1 ≤ s.lastSecond)
    {fuel : Nat} (hfuel : second = s.lastSecond + fuel) (hn : 0 < n) :
    ∃ m, 0 < m ∧ Slots (jumpAhead second fuel s) h second m ∧
      (jumpAhead second fuel s).lastSecond = second := by
  induction fuel generalizing s n with
  | zero =>
    obtain rfl : second = s.lastSecond := by omega
    exact ⟨n, hn, hs, rfl⟩
  | succ fuel ih =>
    rw [SudokuStat.jumpAhead, if_pos (by omega)]
    have hnext : Slots { s.pushBack with lastSecond := s.lastSecond + 1 } h (s.lastSecond + 1)
        (min (n + 1) kSeconds) := by
      have hpush := hs.pushBack fun x hx => by have := hmax x hx; omega
      exact ⟨hpush.requests, hpush.latencies⟩
    refine ih hnext (fun x hx => ?_) ?_ ?_
    · have := hmax x hx
      dsimp only
      omega
    · dsimp only
      omega
    · unfold kSeconds
      omega

/-! ## a response -/

/-- The window is that of the history `h`. -/
structure Window (s : SudokuStat) (h : List (Int × Int)) : Prop where
  slots : Slots s h s.lastSecond s.requests.size
  positive : ∀ x ∈ h, 0 < x.1
  le_last : ∀ x ∈ h, x.1 ≤ s.lastSecond
  last : if h = [] then s.lastSecond = 0 ∧ s.requests.size = 0
    else 0 < s.requests.size ∧ ∃ x ∈ h, x.1 = s.lastSecond

theorem window_of_slots {second elapsed : Int} (hslots : Slots s (h ++ [(second, elapsed)]) s.lastSecond n)
    (hn : 0 < n) (hpositive : ∀ x ∈ h, 0 < x.1) (hsecond : 0 < second)
    (hle : ∀ x ∈ h, x.1 ≤ s.lastSecond) (hlast : second ≤ s.lastSecond)
    (hattained : second = s.lastSecond ∨ ∃ x ∈ h, x.1 = s.lastSecond) :
    Window s (h ++ [(second, elapsed)]) where
  slots := by rwa [hslots.size_requests]
  positive x hx := by
    obtain hx | hx := mem_append.1 hx
    · exact hpositive x hx
    · cases mem_singleton.1 hx
      exact hsecond
  le_last x hx := by
    obtain hx | hx := mem_append.1 hx
    · exact hle x hx
    · cases mem_singleton.1 hx
      exact hlast
  last := by
    rw [if_neg (by simp), hslots.size_requests]
    refine ⟨hn, ?_⟩
    obtain hsec | ⟨x, hx, hxlast⟩ := hattained
    · exact ⟨_, mem_append_right _ mem_cons_self, hsec⟩
    · exact ⟨x, mem_append_left _ hx, hxlast⟩

theorem Window.lastSecond_eq_zero (hs : Window s h) (hzero : s.lastSecond = 0) : h = [] := by
  by_contra hne
  have hlast := hs.last
  rw [if_neg hne] at hlast
  obtain ⟨-, x, hx, hxlast⟩ := hlast
  have := hs.positive x hx
  omega

theorem Window.size_pos (hs : Window s h) (hne : s.lastSecond ≠ 0) : 0 < s.requests.size := by
  have hlast := hs.last
  split at hlast
  · exact absurd hlast.1 hne
  · exact hlast.1

theorem Window.attained (hs : Window s h) (hne : s.lastSecond ≠ 0) : ∃ x ∈ h, x.1 = s.lastSecond := by
  have hlast := hs.last
  split at hlast
  · exact absurd hlast.1 hne
  · exact hlast.2

theorem window_push (hslots : Slots s h (second - 1) n) (hpositive : ∀ x ∈ h, 0 < x.1)
    (hlt : ∀ x ∈ h, x.1 < second) (hsecond : 0 < second) (elapsed : Int) :
    ∃ s', ({ s.pushBack with lastSecond := second } : SudokuStat).addBack elapsed = .ok s' ∧
      Window s' (h ++ [(second, elapsed)]) := by
  have hpush := hslots.pushBack fun x hx => by have := hlt x hx; omega
  rw [Int.sub_add_cancel] at hpush
  have hslots' : Slots { s.pushBack with lastSecond := second } h second (min (n + 1) kSeconds) :=
    ⟨hpush.requests, hpush.latencies⟩
  have hn : 0 < min (n + 1) kSeconds := by
    unfold kSeconds
    omega
  obtain ⟨s', hadd, hs', hlast⟩ := hslots'.addBack hn elapsed
  refine ⟨s', hadd, window_of_slots (hlast ▸ hs') hn hpositive hsecond (fun x hx => ?_) hlast.ge (.inl hlast.symm)⟩
  rw [hlast]
  exact (hlt x hx).le

theorem Window.recordSecond (hs : Window s h) (hsecond : 0 < second) (elapsed : Int) :
    ∃ s', s.recordSecond second elapsed = .ok s' ∧ Window s' (h ++ [(second, elapsed)]) := by
  have hslots := hs.slots
  unfold SudokuStat.recordSecond
  dsimp only
  split_ifs with hsame hnext hahead hshort hback
  · -- the most common case
    obtain ⟨s', hadd, hs', hlast⟩ := hslots.addBack (hs.size_pos (by omega)) elapsed
    refine ⟨s', hadd, window_of_slots ?_ (hs.size_pos (by omega)) hs.positive hsecond ?_ ?_ (.inl ?_)⟩
    · rwa [hlast, ← hsame]
    · rw [hlast]
      exact hs.le_last
    · omega
    · omega
  · -- next second
    have hlt : ∀ x ∈ h, x.1 < second := by
      intro x hx
      have hle := hs.le_last x hx
      have hpos := hs.positive x hx
      omega
    have hlast : Slots s h (second - 1) s.requests.size := by
      obtain rfl | hzero := hnext
      · rwa [Int.add_sub_cancel]
      · have hempty := hs.last
        rw [if_pos (hs.lastSecond_eq_zero hzero)] at hempty
        rw [hempty.2] at hslots ⊢
        exact ⟨hslots.requests, hslots.latencies⟩
    exact window_push hlast hs.positive hlt hsecond elapsed
  · -- jump ahead, second by second
    obtain ⟨m, hm, hjump, hlast⟩ := hslots.jumpAhead hs.le_last
      (show second = s.lastSecond + (second - s.lastSecond).toNat by omega) (hs.size_pos (by omega))
    obtain ⟨s', hadd, hs', hlast'⟩ := hjump.addBack hm elapsed
    rw [hlast] at hlast'
    refine ⟨s', hadd, window_of_slots (hlast'.symm ▸ hs') hm hs.positive hsecond (fun x hx => ?_) hlast'.ge
      (.inl hlast'.symm)⟩
    have := hs.le_last x hx
    omega
  · -- jump ahead, over the whole window
    refine window_push (s := { s with requests := .empty, latencies := .empty, lastSecond := second })
      (slots_nil rfl rfl) hs.positive (fun x hx => ?_) hsecond elapsed
    have := hs.le_last x hx
    omega
  · -- jump backwards
    have hidx : (second - (s.lastSecond - s.requests.size + 1)).toNat < s.requests.size := by omega
    rw [check_of ⟨hidx, hslots.size_latencies ▸ hidx⟩]
    exact ⟨_, rfl, window_of_slots (hslots.modify (by omega) elapsed rfl rfl) (hs.size_pos (by omega))
      hs.positive hsecond hs.le_last (show second ≤ s.lastSecond by omega)
      (.inr (hs.attained (by omega)))⟩
  · -- discard
    rw [check_of (by omega)]
    refine ⟨_, rfl, window_of_slots (hslots.discard elapsed (by omega)) (hs.size_pos (by omega)) hs.positive
      hsecond hs.le_last (by omega) (.inr (hs.attained (by omega)))⟩

/-- The history after a call. -/
def record (h : List (Int × Int)) : Label → List (Int × Int)
  | .response now receive _ =>
    if now - receive < 0 then h else h ++ [(secondsSinceEpoch now, now - receive)]
  | .reset => []
  | .request | .badRequest | .droppedRequest => h

/-- The responses with a latency that is not negative, since the last `reset()`. -/
def recorded (ls : List Label) : List (Int × Int) := ls.foldl record []

/-- The second of a response is positive. -/
def Label.Positive : Label → Prop
  | .response now _ _ => 0 < secondsSinceEpoch now
  | _ => True

instance : (l : Label) → Decidable l.Positive
  | .response _ _ _ => inferInstanceAs (Decidable (_ < _))
  | .request | .badRequest | .droppedRequest | .reset => .isTrue trivial

theorem window_create : Window create [] :=
  ⟨slots_nil rfl rfl, nofun, nofun, ⟨rfl, rfl⟩⟩

theorem Window.step (hs : Window s h) {l : Label} (hl : l.Positive) :
    ∃ s', s.step l = .ok s' ∧ Window s' (record h l) := by
  cases l with
  | response now receive solved =>
    have hsizes : s.requests.size = s.latencies.size := hs.slots.size_latencies.symm
    rw [SudokuStat.step, recordResponse, check_of hsizes, ok_bind, record]
    dsimp only
    split
    · exact ⟨_, rfl, { hs with slots := { hs.slots with } }⟩
    · obtain ⟨s', hrecord, hs'⟩ := Window.recordSecond (s := { s with
        totalResponses := s.totalResponses + 1
        totalSolved := if solved then s.totalSolved + 1 else s.totalSolved
        totalLatency := s.totalLatency + (now - receive) })
        { hs with slots := { hs.slots with } } hl (now - receive)
      refine ⟨s', ?_, hs'⟩
      rw [hrecord, ok_bind, check_of hs'.slots.size_latencies.symm]
      rfl
  | reset => exact ⟨_, rfl, ⟨slots_nil rfl rfl, nofun, nofun, ⟨rfl, rfl⟩⟩⟩
  | request | badRequest | droppedRequest => exact ⟨_, rfl, { hs with slots := { hs.slots with } }⟩

theorem run_window {ls : List Label} (hpos : ∀ l ∈ ls, l.Positive) :
    ∃ s, run step create ls = .ok s ∧ Window s (recorded ls) := by
  have hrun : Outcome (fun s => Window s (recorded ls)) (fun _ => False) (run step create ls) := by
    refine Outcome.run_sim record (fun s h l hs hl => ?_) window_create (meets_of_forall create hpos)
    obtain ⟨s', hstep, hs'⟩ := hs.step hl
    rw [hstep]
    exact .ok hs'
  exact hrun.exists_ok fun _ he => he

/-- What the comments of the class say about the window, and what its slots are. -/
structure Exact (s : SudokuStat) (h : List (Int × Int)) : Prop where
  size_eq : s.requests.size = s.latencies.size
  size_le : s.requests.size ≤ kSeconds
  empty : h = [] → s.lastSecond = 0 ∧ s.requests.size = 0
  last : h ≠ [] → 0 < s.requests.size ∧ (∃ x ∈ h, x.1 = s.lastSecond) ∧ ∀ x ∈ h, x.1 ≤ s.lastSecond
  slot : ∀ i < s.requests.size,
    s.requests.data[i]? = some (countAt h (s.lastSecond - s.requests.size + 1 + i)) ∧
      s.latencies.data[i]? = some (latencyAt h (s.lastSecond - s.requests.size + 1 + i))

theorem Window.exact (hs : Window s h) : Exact s h where
  size_eq := hs.slots.size_latencies.symm
  size_le := s.requests.size_le
  empty hempty := by
    have hlast := hs.last
    rwa [if_pos hempty] at hlast
  last hne := by
    have hlast := hs.last
    rw [if_neg hne] at hlast
    exact ⟨hlast.1, hlast.2, hs.le_last⟩
  slot i hi := by
    rw [hs.slots.requests, hs.slots.latencies]
    exact ⟨getElem?_span hi, getElem?_span hi⟩

/-- **The sliding window is exact.** -/
theorem window_exact {ls : List Label} (hpos : ∀ l ∈ ls, l.Positive) :
    ∃ s, run step create ls = .ok s ∧ Exact s (recorded ls) := by
  obtain ⟨s, hrun, hs⟩ := run_window hpos
  exact ⟨s, hrun, hs.exact⟩

/-- Back by two seconds, ahead by a hundred, and back behind the window. -/
def backAndForth : List Label :=
  [.response 5000000 4999990 true, .response 3000000 2999980 true, .response 8000000 7999970 false,
    .response 6000000 5999960 true, .response 108000000 107999950 true,
    .response 8000000 7999940 true, .response 109000000 109000001 true]

theorem window_exact_backAndForth :
    (∀ l ∈ backAndForth, l.Positive) ∧
      ∃ s, run step create backAndForth = .ok s ∧ Exact s (recorded backAndForth) :=
  ⟨by decide, window_exact (by decide)⟩

/-! ## `reset` -/

theorem jumpAhead_droppedRequests (second : Int) (fuel : Nat) (s : SudokuStat) :
    (jumpAhead second fuel s).droppedRequests = s.droppedRequests := by
  fun_induction jumpAhead second fuel s with
  | case1 s => rfl
  | case2 fuel s hlt ih => exact ih
  | case3 fuel s hge => rfl

theorem addBack_droppedRequests (s : SudokuStat) (e : Int) :
    Outcome (fun s' => s'.droppedRequests = s.droppedRequests) (fun _ => True) (s.addBack e) :=
  (outcome_check fun _ => trivial).bind fun _ _ => .ok rfl

theorem recordSecond_droppedRequests (s : SudokuStat) (second e : Int) :
    Outcome (fun s' => s'.droppedRequests = s.droppedRequests) (fun _ => True)
      (s.recordSecond second e) := by
  have hback : ∀ t : SudokuStat, t.droppedRequests = s.droppedRequests →
      Outcome (fun s' => s'.droppedRequests = s.droppedRequests) (fun _ => True) (t.addBack e) :=
    fun t ht => ht ▸ addBack_droppedRequests t e
  unfold recordSecond
  dsimp only
  split_ifs
  · exact hback _ rfl
  · exact hback _ rfl
  · exact hback _ (jumpAhead_droppedRequests _ _ _)
  · exact hback _ rfl
  · exact (outcome_check fun _ => trivial).bind fun _ _ => .ok rfl
  · exact (outcome_check fun _ => trivial).bind fun _ _ => .ok rfl

theorem step_droppedRequests {l : Label} (hl : l ≠ .droppedRequest) (s : SudokuStat) :
    Outcome (fun s' => s'.droppedRequests = s.droppedRequests) (fun _ => True) (s.step l) := by
  cases l with
  | response now receive solved =>
    refine (outcome_check fun _ => trivial).bind fun _ _ => ?_
    dsimp only
    split
    · exact .ok rfl
    · refine (recordSecond_droppedRequests _ _ _).bind fun t ht => ?_
      exact (outcome_check fun _ => trivial).bind fun _ _ => .ok ht
  | droppedRequest => exact absurd rfl hl
  | request | badRequest | reset => exact .ok rfl

/-- **`reset` erases history**, if no request was dropped. -/
theorem reset_erases {A B : List Label} (hA : ∀ l ∈ A, l.Positive) (hB : ∀ l ∈ B, l.Positive)
    (hdrop : .droppedRequest ∉ A) :
    ∃ s s', run step create (A ++ .reset :: B) = .ok s ∧ run step create B = .ok s' ∧
      ∀ garbage queueSize, s.report garbage queueSize = s'.report garbage queueSize := by
  obtain ⟨s', hrun, -⟩ := run_window hB
  have hA' : ∀ l ∈ A, l.Positive ∧ l ≠ .droppedRequest :=
    fun l hl => ⟨hA l hl, fun heq => hdrop (heq ▸ hl)⟩
  obtain ⟨sA, hrunA, -, hdropped⟩ := exists_run
    (P := fun s => (∃ h, Window s h) ∧ s.droppedRequests = 0)
    (fun s l ⟨⟨h, hs⟩, hdropped⟩ hl => by
      obtain ⟨s', hstep, hs'⟩ := hs.step hl.1
      exact ⟨s', hstep, ⟨_, hs'⟩, ((step_droppedRequests hl.2 s).of_ok hstep).trans hdropped⟩)
    ⟨⟨[], window_create⟩, rfl⟩ (meets_of_forall create hA')
  have hreset : sA.reset = create := by
    rw [reset, hdropped]
    rfl
  refine ⟨s', s', ?_, hrun, fun _ _ => rfl⟩
  rw [run_append, hrunA, ok_bind, run_cons, step, ok_bind, hreset, hrun]

theorem reset_erases_backAndForth :
    ((∀ l ∈ backAndForth, l.Positive) ∧ .droppedRequest ∉ backAndForth) ∧
      ∃ s s', run step create (backAndForth ++ .reset :: [.droppedRequest]) = .ok s ∧
        run step create [.droppedRequest] = .ok s' ∧
        ∀ garbage queueSize, s.report garbage queueSize = s'.report garbage queueSize :=
  ⟨by decide, reset_erases (by decide) (by decide) (by decide)⟩

theorem reset_keeps_dropped :
    ∃ s s', run step create ([.droppedRequest] ++ .reset :: []) = .ok s ∧
      run step create [] = .ok s' ∧ s.report (fun _ => 0) 0 ≠ s'.report (fun _ => 0) 0 :=
  ⟨_, _, rfl, rfl, by decide +kernel⟩

end Muduo.SudokuStat
