import FaultStorm.Checker.Availability
import FaultStorm.Spans.Runs
import Mathlib.Data.Finset.Union

/-!
# The ranges that the checker logs

Besides the verdict the checker logs when writes were not acknowledged and when the writes were
tried that were lost or not expected. Both loops walk over the intervals and put runs of them
together; the first one does not log the run that lasts until the end.
-/

namespace FaultStorm.Checker

open Python Spans

/-! ## Outages -/

/-- The `while` loop of `_compute_interval_availability`: what it logs as unavailable, with `from` and
`to` before they are formatted; nothing if it runs out of fuel. -/
def reportLoop (availableIntervals : Finset Int) (startTime endTime interval : ℚ) (totalIntervals : Int) :
    Nat → ℚ → Option Int → List (ℚ × ℚ) → Option (List (ℚ × ℚ))
  | 0, _, _, _ => none
  | fuel + 1, ts, unavailableSince, logged =>
    if ts < endTime then
      let idx := bucket startTime interval totalIntervals ts
      let next := reportLoop availableIntervals startTime endTime interval totalIntervals fuel (ts + interval)
      if idx ∈ availableIntervals then
        match unavailableSince with
        | some since => next none (logged ++ [(since * interval + startTime, idx * interval + startTime)])
        | none => next none logged
      else
        match unavailableSince with
        | some since => next (some since) logged
        | none => next (some idx) logged
    else some logged

/-- The ranges that `_compute_interval_availability` logs as unavailable. -/
def unavailableRanges (fuel : Nat) (writeInvokeTimes okWriteTimes : List ℚ) (interval : ℚ) :
    Option (List (ℚ × ℚ)) :=
  match writeInvokeTimes with
  | [] => some []
  | first :: rest =>
    let startTime := rest.foldl min first
    let endTime := rest.foldl max first
    let totalIntervals : Int := max 1 ⌈(endTime - startTime) / interval⌉
    if okWriteTimes = [] then some []
    else
      let availableIntervals := (okWriteTimes.map (bucket startTime interval totalIntervals)).toFinset
      reportLoop availableIntervals startTime endTime interval totalIntervals fuel startTime none []

/-- The `k`-th boundary between the intervals. -/
def boundary (start interval : ℚ) (k : Nat) : ℚ := k * interval + start

/-- The boundaries of a span of intervals. -/
def range (start interval : ℚ) (x : Nat × Nat) : ℚ × ℚ := (boundary start interval x.1, boundary start interval x.2)

section Outages

variable {start stop interval : ℚ} {total : Int} {availableIntervals : Finset Int}

theorem boundary_strictMono (pos : 0 < interval) (start : ℚ) : StrictMono (boundary start interval) := by
  apply strictMono_nat_of_lt_succ
  intro k
  unfold boundary
  push_cast
  linarith

/-- An interval without an acknowledgement. -/
def missed (availableIntervals : Finset Int) (k : Nat) : Bool := decide ((k : Int) ∉ availableIntervals)

/-- How many timestamps the loop looks at. -/
def turns (start stop interval : ℚ) : Nat := ⌈(stop - start) / interval⌉.toNat

theorem lt_turns_iff (pos : 0 < interval) (k : Nat) :
    k < turns start stop interval ↔ boundary start interval k < stop := by
  rw [turns, Int.lt_toNat, Int.lt_ceil, lt_div_iff₀ pos, boundary, Int.cast_natCast, lt_sub_iff_add_lt]

theorem bucket_boundary (pos : 0 < interval) {k : Nat} (below : (k : Int) < total) :
    bucket start interval total (boundary start interval k) = k := by
  have quotient : (boundary start interval k - start) / interval = k := by
    rw [boundary, add_sub_cancel_right, mul_div_cancel_right₀ _ pos.ne']
  rw [bucket, quotient, truncate_of_nonneg (Nat.cast_nonneg k), Int.floor_natCast]
  omega

/-- From the `k`-th boundary on, the loop goes the way of the walk over the intervals. -/
theorem reportLoop_eq (availableIntervals : Finset Int) (pos : 0 < interval) (fits : (turns start stop interval : Int) ≤ total) (left k fuel : Nat)
    (here : k + left = turns start stop interval) (enough : left < fuel) :
    reportLoop availableIntervals start stop interval total fuel (boundary start interval k)
        ((walk (missed availableIntervals) k).1.map Int.ofNat)
        ((walk (missed availableIntervals) k).2.map (range start interval)) =
      some ((walk (missed availableIntervals) (turns start stop interval)).2.map (range start interval)) := by
  obtain ⟨fuel, rfl⟩ : ∃ m, fuel = m + 1 := ⟨fuel - 1, by omega⟩
  induction left generalizing k fuel with
  | zero =>
    have done : ¬ boundary start interval k < stop := by
      rw [← lt_turns_iff pos]
      omega
    obtain rfl : k = turns start stop interval := by omega
    rw [reportLoop, if_neg done]
  | succ left ih =>
    have more : boundary start interval k < stop := by
      rw [← lt_turns_iff pos]
      omega
    have next : boundary start interval k + interval = boundary start interval (k + 1) := by
      unfold boundary
      push_cast
      ring
    obtain ⟨fuel, rfl⟩ : ∃ m, fuel = m + 1 := ⟨fuel - 1, by omega⟩
    rw [reportLoop, if_pos more, bucket_boundary pos (by omega), next, ← ih (k + 1) (by omega) fuel (by omega),
      walk_succ]
    generalize walk (missed availableIntervals) k = state
    obtain ⟨since, spans⟩ := state
    by_cases there : (k : Int) ∈ availableIntervals
    · have heard : missed availableIntervals k = false := by simp [missed, there]
      rw [if_pos there]
      cases since <;> simp [step, heard, range, boundary]
    · have unheard : missed availableIntervals k = true := by simp [missed, there]
      rw [if_neg there]
      cases since <;> simp [step, unheard]

/-- The loop ends, with the closed spans of the walk. -/
theorem unavailableRanges_eq {times okWriteTimes : List ℚ} (pos : 0 < interval) (spanned : Spanned times start stop)
    (some_ok : okWriteTimes ≠ []) (later : ∀ ts ∈ okWriteTimes, start ≤ ts) {fuel : Nat}
    (enough : turns start stop interval < fuel) :
    unavailableRanges fuel times okWriteTimes interval =
      some ((walk (missed (available start interval (totalIntervals start stop interval) okWriteTimes))
        (turns start stop interval)).2.map (range start interval)) := by
  have one := one_le_totalIntervals start stop interval
  have fits : (turns start stop interval : Int) ≤ totalIntervals start stop interval := by
    unfold turns totalIntervals
    omega
  have buckets := (buckets_eq_available_iff pos one).mpr fun ts member early => absurd (later ts member) (not_le.mpr early)
  cases times with
  | nil => exact absurd spanned.first.1 List.not_mem_nil
  | cons first rest =>
    obtain ⟨rfl, rfl⟩ := spanned.unique (spanned_cons first rest)
    have ran := fun buckets => reportLoop_eq buckets pos fits _ 0 fuel (Nat.zero_add _) enough
    have origin : boundary (rest.foldl min first) interval 0 = rest.foldl min first := by
      rw [boundary, Nat.cast_zero, zero_mul, zero_add]
    rw [origin] at ran
    rw [← buckets]
    exact (if_neg some_ok).trans (ran _)

/-- The ranges are in order and apart, and they cover the intervals without an acknowledgement. -/
structure ReportsOutages (times okWriteTimes : List ℚ) (interval : ℚ) (ranges : List (ℚ × ℚ)) : Prop where
  proper : ∀ r ∈ ranges, r.1 < r.2
  ordered : ranges.Pairwise fun r s => r.2 ≤ s.1
  covers : ∀ start stop, Spanned times start stop → ∀ t, (∃ r ∈ ranges, r.1 ≤ t ∧ t < r.2) ↔
    ∃ k : Int, (0 ≤ k ∧ k < totalIntervals start stop interval) ∧
      (¬ ∃ ts ∈ okWriteTimes, Within start interval (totalIntervals start stop interval) k ts) ∧
      start + k * interval ≤ t ∧ t < start + (k + 1) * interval

/-- There is an acknowledgement in the last interval. -/
def LastAvailable (times okWriteTimes : List ℚ) (interval : ℚ) : Prop :=
  ∀ start stop, Spanned times start stop →
    ∃ ts ∈ okWriteTimes, start + (totalIntervals start stop interval - 1) * interval ≤ ts

end Outages

section Reported

variable {times okWriteTimes : List ℚ} {start stop interval t : ℚ} {total k : Int}

/-- Some timestamp of a span comes first. -/
theorem le_of_later (spanned : Spanned times start stop) (later : ∀ ts ∈ okWriteTimes, ∃ first ∈ times, first ≤ ts) :
    ∀ ts ∈ okWriteTimes, start ≤ ts := by
  intro ts member
  obtain ⟨first, inside, le⟩ := later ts member
  exact (spanned.first.2 inside).trans le

/-- A missed interval has no acknowledgement. -/
theorem missed_iff {j : Nat} (below : (j : Int) < total) :
    missed (available start interval total okWriteTimes) j = true ↔
      ¬ ∃ ts ∈ okWriteTimes, Within start interval total j ts := by
  rw [missed, decide_eq_true_iff, mem_available, and_iff_right ⟨Int.natCast_nonneg j, below⟩]

theorem boundary_piece {j : Nat} (start interval t : ℚ) :
    (boundary start interval j ≤ t ∧ t < boundary start interval (j + 1)) ↔
      start + (j : Int) * interval ≤ t ∧ t < start + ((j : Int) + 1) * interval := by
  unfold boundary
  push_cast
  rw [add_comm _ start, add_comm _ start]

/-- The pieces that the walk has to cover. -/
theorem exists_missed_iff (fits : (turns start stop interval : Int) = total) :
    (∃ j < turns start stop interval, missed (available start interval total okWriteTimes) j = true ∧
      boundary start interval j ≤ t ∧ t < boundary start interval (j + 1)) ↔
    ∃ k : Int, (0 ≤ k ∧ k < total) ∧ (¬ ∃ ts ∈ okWriteTimes, Within start interval total k ts) ∧
      start + k * interval ≤ t ∧ t < start + (k + 1) * interval := by
  constructor
  · rintro ⟨j, below, unheard, piece⟩
    have inside : (j : Int) < total := by omega
    exact ⟨j, ⟨Int.natCast_nonneg j, inside⟩, (missed_iff inside).mp unheard, (boundary_piece start interval t).mp piece⟩
  · rintro ⟨k, ⟨low, high⟩, unheard, piece⟩
    obtain ⟨j, rfl⟩ := Int.eq_ofNat_of_zero_le low
    exact ⟨j, by omega, (missed_iff high).mpr unheard, (boundary_piece start interval t).mpr piece⟩

/-- An acknowledgement in the last interval. -/
theorem within_last (start stop interval t : ℚ) :
    Within start interval (totalIntervals start stop interval) (totalIntervals start stop interval - 1) t ↔
      start + (totalIntervals start stop interval - 1) * interval ≤ t := by
  rw [Within, and_iff_left (Or.inr rfl)]
  push_cast
  rfl

theorem turns_cases (start stop interval : ℚ) :
    (turns start stop interval = 0 ∧ totalIntervals start stop interval = 1) ∨
      (turns start stop interval : Int) = totalIntervals start stop interval := by
  unfold turns totalIntervals
  omega

/-- Every outage is logged if the last interval is available. -/
theorem reports_of_lastAvailable (pos : 0 < interval) (spanned : Spanned times start stop)
    (last : LastAvailable times okWriteTimes interval) :
    ReportsOutages times okWriteTimes interval
      ((walk (missed (available start interval (totalIntervals start stop interval) okWriteTimes))
        (turns start stop interval)).2.map (range start interval)) := by
  obtain ⟨ts, member, late⟩ := last start stop spanned
  have heard := (within_last start stop interval ts).mpr late
  rcases turns_cases start stop interval with ⟨none, one⟩ | all
  · -- the writes began at one time, and there is only one interval
    rw [none]
    refine ⟨by simp [walk], by simp [walk], fun start' stop' spanned' t => ?_⟩
    obtain ⟨rfl, rfl⟩ := spanned.unique spanned'
    refine iff_of_false (by simp [walk]) ?_
    rintro ⟨k, ⟨low, high⟩, unheard, -⟩
    have only : k = totalIntervals start stop interval - 1 := by omega
    exact unheard ⟨ts, member, only ▸ heard⟩
  · have one := one_le_totalIntervals start stop interval
    obtain ⟨n, succ⟩ : ∃ n, turns start stop interval = n + 1 := ⟨turns start stop interval - 1, by omega⟩
    have index : totalIntervals start stop interval - 1 = (n : Int) := by omega
    have closed : (walk (missed (available start interval (totalIntervals start stop interval) okWriteTimes))
        (n + 1)).1 = none := by
      rw [← Option.not_isSome_iff_eq_none, walk_open_iff, missed_iff (by omega), not_not, ← index]
      exact ⟨ts, member, heard⟩
    have covers := covers_walk (missed (available start interval (totalIntervals start stop interval) okWriteTimes))
      (turns start stop interval)
    rw [succ, closed, ← succ, trailing, Option.toList_none, List.map_nil, List.append_nil] at covers
    have tiles := covers.tiles (boundary_strictMono pos start)
    refine ⟨tiles.proper, tiles.apart.imp le_of_lt, fun start' stop' spanned' t => ?_⟩
    obtain ⟨rfl, rfl⟩ := spanned.unique spanned'
    rw [← exists_missed_iff all]
    exact tiles.covers t

/-- What is logged of the outages is complete if and only if the last interval is available. -/
theorem reportsOutages_iff (times okWriteTimes : List ℚ) (pos : 0 < interval) (some_ok : okWriteTimes ≠ [])
    (later : ∀ ts ∈ okWriteTimes, ∃ first ∈ times, first ≤ ts) :
    ∃ ranges least, (∀ fuel, least ≤ fuel → unavailableRanges fuel times okWriteTimes interval = some ranges) ∧
      (ReportsOutages times okWriteTimes interval ranges ↔ LastAvailable times okWriteTimes interval) := by
  obtain rfl | ⟨start, stop, spanned⟩ := exists_spanned times
  · obtain ⟨ts, member⟩ := List.exists_mem_of_ne_nil okWriteTimes some_ok
    obtain ⟨first, inside, -⟩ := later ts member
    exact absurd inside List.not_mem_nil
  refine ⟨_, turns start stop interval + 1,
    fun fuel enough => unavailableRanges_eq pos spanned some_ok (le_of_later spanned later) enough, ?_,
    reports_of_lastAvailable pos spanned⟩
  intro reports start' stop' spanned'
  obtain ⟨rfl, rfl⟩ := spanned.unique spanned'
  by_contra none
  have one := one_le_totalIntervals start stop interval
  -- the first point of the last interval would have to be in a range, which ends before it
  obtain ⟨r, member, -, before⟩ := (reports.covers start stop spanned
    (start + (totalIntervals start stop interval - 1) * interval)).mpr
      ⟨totalIntervals start stop interval - 1, ⟨by omega, by omega⟩, fun ⟨ts, inside, within⟩ =>
        none ⟨ts, inside, (within_last start stop interval ts).mp within⟩, by push_cast; rfl, by push_cast; linarith⟩
  obtain ⟨x, among, rfl⟩ := List.mem_map.mp member
  have closed := (walked _ _).closed x among
  rcases turns_cases start stop interval with ⟨none, -⟩ | all
  · omega
  · have edge : boundary start interval (turns start stop interval - 1) =
        start + (totalIntervals start stop interval - 1) * interval := by
      have cast : ((turns start stop interval - 1 : Nat) : Int) = totalIntervals start stop interval - 1 := by omega
      have rational : ((turns start stop interval - 1 : Nat) : ℚ) = totalIntervals start stop interval - 1 := by
        exact_mod_cast cast
      rw [boundary, rational, add_comm]
    have le := (boundary_strictMono pos start).monotone (by omega : x.2 ≤ turns start stop interval - 1)
    rw [edge] at le
    exact absurd before (not_lt.mpr le)

/-- The second of three intervals is an outage. -/
theorem secondInterval_reported : ∃ ranges least,
    (∀ fuel, least ≤ fuel → unavailableRanges fuel [10, 103 / 10] [10, 52 / 5] (1 / 10) = some ranges) ∧
      ReportsOutages [10, 103 / 10] [10, 52 / 5] (1 / 10) ranges := by
  obtain ⟨ranges, least, ran, reports⟩ := reportsOutages_iff [10, 103 / 10] [10, 52 / 5]
    (by norm_num : (0 : ℚ) < 1 / 10) (by simp) (by decide +kernel)
  refine ⟨ranges, least, ran, reports.mpr fun start stop spanned => ?_⟩
  obtain ⟨rfl, rfl⟩ := spanned.unique (spanned_cons 10 [103 / 10])
  decide +kernel

/-- The last of two intervals is one too, and nothing is logged. -/
theorem lastInterval_not_reported : unavailableRanges 4 [10, 51 / 5] [10] (1 / 10) = some [] ∧
    ¬ ReportsOutages [10, 51 / 5] [10] (1 / 10) [] := by
  refine ⟨by decide +kernel, fun reports => ?_⟩
  obtain ⟨r, member, -⟩ := (reports.covers _ _ (spanned_cons 10 [51 / 5]) (101 / 10)).mpr
    ⟨1, by decide +kernel, by decide +kernel, by decide +kernel⟩
  exact absurd member List.not_mem_nil

end Reported

/-! ## Problem writes -/

/-- One turn of the loop of `_log_problem_intervals`, with `problem_since` and what is logged so far. -/
def problemStep (problemIndices : Finset Int) (startTime interval : ℚ) (s : Option ℚ × List (ℚ × ℚ)) (idx : Nat) :
    Option ℚ × List (ℚ × ℚ) :=
  if (idx : Int) ∈ problemIndices then
    match s.1 with
    | none => (some (startTime + idx * interval), s.2)
    | some _ => s
  else
    match s.1 with
    | some since => (none, s.2 ++ [(since, startTime + idx * interval)])
    | none => s

/-- `problem_indices`. -/
def problemIndices {κ : Type} [DecidableEq κ] (problemValues : Finset κ) (valueToInvokeTs : Dict κ ℚ)
    (startTime interval : ℚ) (totalIntervals : Int) : Finset Int :=
  problemValues.biUnion fun val =>
    match valueToInvokeTs.get? val with
    | none => ∅
    | some ts => {max 0 (bucket startTime interval totalIntervals ts)}

/-- "Flush trailing range." -/
def flush (endTime : ℚ) : Option ℚ × List (ℚ × ℚ) → List (ℚ × ℚ)
  | (some since, logged) => logged ++ [(since, endTime)]
  | (none, logged) => logged

/-- The ranges that `_log_problem_intervals` logs, before they are formatted. -/
def logProblemIntervals {κ : Type} [DecidableEq κ] (problemValues : Finset κ) (valueToInvokeTs : Dict κ ℚ)
    (startTime endTime interval : ℚ) : List (ℚ × ℚ) :=
  if problemValues = ∅ then []
  else
    let totalIntervals : Int := max 1 ⌈(endTime - startTime) / interval⌉
    let indices := problemIndices problemValues valueToInvokeTs startTime interval totalIntervals
    if indices = ∅ then []
    else
      flush (startTime + totalIntervals * interval)
        ((List.range totalIntervals.toNat).foldl (problemStep indices startTime interval) (none, []))

section Problems

variable {κ : Type} [DecidableEq κ] {problemValues : Finset κ} {valueToInvokeTs : Dict κ ℚ}
  {start stop interval : ℚ} {total k : Int}

/-- An interval with a problem. -/
def troubled (indices : Finset Int) (k : Nat) : Bool := decide ((k : Int) ∈ indices)

/-- The variables of the loop after the walk over the intervals. -/
def logged (start interval : ℚ) (walk : Option Nat × List (Nat × Nat)) : Option ℚ × List (ℚ × ℚ) :=
  (walk.1.map (boundary start interval), walk.2.map (range start interval))

theorem problemStep_logged (indices : Finset Int) (start interval : ℚ) (s : Option Nat × List (Nat × Nat)) (idx : Nat) :
    problemStep indices start interval (logged start interval s) idx =
      logged start interval (step (troubled indices) s idx) := by
  obtain ⟨since, spans⟩ := s
  by_cases problem : (idx : Int) ∈ indices
  · have marked : troubled indices idx = true := by simp [troubled, problem]
    rw [problemStep, if_pos problem]
    cases since <;> simp [step, marked, logged, boundary, add_comm]
  · have unmarked : troubled indices idx = false := by simp [troubled, problem]
    rw [problemStep, if_neg problem]
    cases since <;> simp [step, unmarked, logged, range, boundary, add_comm]

theorem foldl_problemStep (indices : Finset Int) (start interval : ℚ) (n : Nat) :
    (List.range n).foldl (problemStep indices start interval) (none, []) =
      logged start interval (walk (troubled indices) n) :=
  @List.foldl_hom _ _ _ (logged start interval) _ _ (List.range n) (none, []) (problemStep_logged indices start interval)

theorem flush_logged (start interval : ℚ) (n : Nat) (walk : Option Nat × List (Nat × Nat)) :
    flush (boundary start interval n) (logged start interval walk) =
      (walk.2 ++ trailing walk.1 n).map (range start interval) := by
  obtain ⟨since, spans⟩ := walk
  cases since <;> simp [flush, logged, trailing, range]

/-- The bounds of a known timestamp. -/
theorem spanned_get (spanned : Spanned (valueToInvokeTs.items.map Prod.snd) start stop) {v : κ} {ts : ℚ}
    (known : valueToInvokeTs.get? v = some ts) : start ≤ ts :=
  spanned.first.2 (List.mem_map.mpr ⟨(v, ts), (Dict.get?_eq_some _).mp known, rfl⟩)

/-- The indices are the intervals of the known timestamps. -/
theorem mem_problemIndices (pos : 0 < interval) (one : 1 ≤ total)
    (spanned : Spanned (valueToInvokeTs.items.map Prod.snd) start stop) (high : k < total) :
    k ∈ problemIndices problemValues valueToInvokeTs start interval total ↔
      ∃ v ∈ problemValues, ∃ ts, valueToInvokeTs.get? v = some ts ∧ Within start interval total k ts := by
  rw [problemIndices, Finset.mem_biUnion]
  refine exists_congr fun v => and_congr_right fun _ => ?_
  cases known : valueToInvokeTs.get? v with
  | none => simp
  | some ts =>
    have le := spanned_get spanned known
    have low := bucket_nonneg pos le one
    simp only [Finset.mem_singleton, Option.some.injEq, exists_eq_left', within_iff pos le high, max_eq_right low]
    exact eq_comm

/-- What is logged are spans that cover the troubled intervals. -/
theorem exists_covers (start stop interval : ℚ) (problemValues : Finset κ) (valueToInvokeTs : Dict κ ℚ) :
    ∃ spans, logProblemIntervals problemValues valueToInvokeTs start stop interval = spans.map (range start interval) ∧
      Covers (troubled (problemIndices problemValues valueToInvokeTs start interval
        (totalIntervals start stop interval))) (totalIntervals start stop interval).toNat spans := by
  have untroubled : problemIndices problemValues valueToInvokeTs start interval (totalIntervals start stop interval) = ∅ →
      Covers (troubled (problemIndices problemValues valueToInvokeTs start interval
        (totalIntervals start stop interval))) (totalIntervals start stop interval).toNat [] := by
    intro empty
    rw [empty]
    exact ⟨by simp, List.Pairwise.nil, fun j => by simp [troubled]⟩
  unfold logProblemIntervals
  split
  · rename_i none
    refine ⟨[], rfl, untroubled ?_⟩
    rw [none, problemIndices, Finset.biUnion_empty]
  dsimp only
  split
  · rename_i empty
    exact ⟨[], rfl, untroubled empty⟩
  have covers := covers_walk (troubled (problemIndices problemValues valueToInvokeTs start interval
    (totalIntervals start stop interval))) (totalIntervals start stop interval).toNat
  refine ⟨_, ?_, covers⟩
  have size : ((totalIntervals start stop interval).toNat : ℚ) = totalIntervals start stop interval := by
    have one := one_le_totalIntervals start stop interval
    exact_mod_cast Int.toNat_of_nonneg (by omega : 0 ≤ totalIntervals start stop interval)
  rw [← flush_logged, ← foldl_problemStep, boundary, size, add_comm]
  rfl

/-- Ranges that are in order, pairwise apart and not adjacent, and that cover the intervals in which
problem values were tried. -/
structure ReportsProblems (problemValues : Finset κ) (valueToInvokeTs : Dict κ ℚ) (start stop interval : ℚ)
    (ranges : List (ℚ × ℚ)) : Prop where
  proper : ∀ r ∈ ranges, r.1 < r.2
  apart : ranges.Pairwise fun r s => r.2 < s.1
  covers : ∀ t, (∃ r ∈ ranges, r.1 ≤ t ∧ t < r.2) ↔
    ∃ k : Int, (0 ≤ k ∧ k < totalIntervals start stop interval) ∧
      (∃ v ∈ problemValues, ∃ ts, valueToInvokeTs.get? v = some ts ∧
        Within start interval (totalIntervals start stop interval) k ts) ∧
      start + k * interval ≤ t ∧ t < start + (k + 1) * interval

/-- The problem ranges are the maximal runs of the intervals with problems. -/
theorem reportsProblems (pos : 0 < interval) (spanned : Spanned (valueToInvokeTs.items.map Prod.snd) start stop)
    (problemValues : Finset κ) :
    ReportsProblems problemValues valueToInvokeTs start stop interval
      (logProblemIntervals problemValues valueToInvokeTs start stop interval) := by
  have one := one_le_totalIntervals start stop interval
  obtain ⟨spans, ran, covers⟩ := exists_covers start stop interval problemValues valueToInvokeTs
  have tiles := covers.tiles (boundary_strictMono pos start)
  rw [ran]
  refine ⟨tiles.proper, tiles.apart, fun t => (tiles.covers t).trans ?_⟩
  constructor
  · rintro ⟨j, below, marked, piece⟩
    have high : (j : Int) < totalIntervals start stop interval := by omega
    rw [troubled, decide_eq_true_iff, mem_problemIndices pos one spanned high] at marked
    exact ⟨j, ⟨Int.natCast_nonneg j, high⟩, marked, (boundary_piece start interval t).mp piece⟩
  · rintro ⟨k, ⟨low, high⟩, problem, piece⟩
    obtain ⟨j, rfl⟩ := Int.eq_ofNat_of_zero_le low
    refine ⟨j, by omega, ?_, (boundary_piece start interval t).mpr piece⟩
    rw [troubled, decide_eq_true_iff]
    exact (mem_problemIndices pos one spanned high).mpr problem

def fourWrites : Dict Int ℚ := Dict.ofPairs [(1, 10), (2, 203 / 20), (3, 41 / 4), (4, 52 / 5)]

theorem spanned_fourWrites : Spanned (fourWrites.items.map Prod.snd) 10 (52 / 5) := by
  have timestamps : fourWrites.items.map Prod.snd = [10, 203 / 20, 41 / 4, 52 / 5] := by decide +kernel
  have first : [203 / 20, 41 / 4, 52 / 5].foldl min (10 : ℚ) = 10 := by decide +kernel
  have last : [203 / 20, 41 / 4, 52 / 5].foldl max (10 : ℚ) = 52 / 5 := by decide +kernel
  have spanned := spanned_cons 10 [203 / 20, 41 / 4, 52 / 5]
  rwa [first, last, ← timestamps] at spanned

/-- The first, the second and the last of four intervals have problems; one of the values is not known. -/
theorem fourWrites_reported :
    ReportsProblems {1, 2, 4, 5} fourWrites 10 (52 / 5) (1 / 10) [(10, 51 / 5), (103 / 10, 52 / 5)] := by
  have ranges : logProblemIntervals {1, 2, 4, 5} fourWrites 10 (52 / 5) (1 / 10) =
      [(10, 51 / 5), (103 / 10, 52 / 5)] := by
    decide +kernel
  rw [← ranges]
  exact reportsProblems (by norm_num) spanned_fourWrites {1, 2, 4, 5}

end Problems

end FaultStorm.Checker
