import FaultStorm.Checker
import Mathlib.Algebra.Order.Floor.Ring
import Mathlib.Order.Bounds.Basic
import Mathlib.Tactic.Linarith

/-!
# The write availability

The time from the first write to the last is divided into intervals, and an interval counts as
available if an acknowledgement falls into it. What `computeIntervalAvailability` returns is that
fraction as long as the clock does not step back behind the first write.
-/

namespace FaultStorm.Checker

/-! ## The intervals -/

/-- `total_intervals`. -/
def totalIntervals (start stop interval : ℚ) : Int := max 1 ⌈(stop - start) / interval⌉

/-- The first and the last of some timestamps. -/
structure Spanned (times : List ℚ) (start stop : ℚ) : Prop where
  first : IsLeast {ts | ts ∈ times} start
  last : IsGreatest {ts | ts ∈ times} stop

/-- A timestamp in the `k`-th of the intervals; the last one takes in whatever comes later. -/
def Within (start interval : ℚ) (total k : Int) (ts : ℚ) : Prop :=
  start + k * interval ≤ ts ∧ (ts < start + (k + 1) * interval ∨ k = total - 1)

instance (start interval : ℚ) (total k : Int) (ts : ℚ) : Decidable (Within start interval total k ts) :=
  inferInstanceAs (Decidable (_ ∧ _))

/-- The intervals with an acknowledgement. -/
def available (start interval : ℚ) (total : Int) (okWriteTimes : List ℚ) : Finset Int :=
  ((Finset.range total.toNat).image Nat.cast).filter fun k => ∃ ts ∈ okWriteTimes, Within start interval total k ts

section Spanned

variable {times : List ℚ} {start stop start' stop' : ℚ}

theorem spanned_cons (first : ℚ) (rest : List ℚ) :
    Spanned (first :: rest) (rest.foldl min first) (rest.foldl max first) where
  first := by
    obtain ⟨member, least⟩ := List.min?_eq_some_iff.mp (rfl : (first :: rest).min? = some (rest.foldl min first))
    exact ⟨member, fun ts inside => least ts inside⟩
  last := by
    obtain ⟨member, greatest⟩ := List.max?_eq_some_iff.mp (rfl : (first :: rest).max? = some (rest.foldl max first))
    exact ⟨member, fun ts inside => greatest ts inside⟩

theorem Spanned.unique (h : Spanned times start stop) (h' : Spanned times start' stop') :
    start = start' ∧ stop = stop' :=
  ⟨h.first.unique h'.first, h.last.unique h'.last⟩

theorem Spanned.le (h : Spanned times start stop) : start ≤ stop := h.first.2 h.last.1

/-- What is computed of the first and the last write. -/
theorem computeIntervalAvailability_eq (spanned : Spanned times start stop) (okWriteTimes : List ℚ) (interval : ℚ) :
    computeIntervalAvailability times okWriteTimes interval =
      ((okWriteTimes.map (bucket start interval (totalIntervals start stop interval))).toFinset.card : ℚ) /
        totalIntervals start stop interval := by
  cases times with
  | nil => exact absurd spanned.first.1 List.not_mem_nil
  | cons first rest =>
    obtain ⟨rfl, rfl⟩ := spanned.unique (spanned_cons first rest)
    have computed : computeIntervalAvailability (first :: rest) okWriteTimes interval = if okWriteTimes = [] then 0
        else ((okWriteTimes.map (bucket (rest.foldl min first) interval
          (totalIntervals (rest.foldl min first) (rest.foldl max first) interval))).toFinset.card : ℚ) /
          totalIntervals (rest.foldl min first) (rest.foldl max first) interval := rfl
    rw [computed]
    split
    · rename_i none
      rw [none, List.map_nil, List.toFinset_nil, Finset.card_empty, Nat.cast_zero, zero_div]
    · rfl

theorem one_le_totalIntervals (start stop interval : ℚ) : 1 ≤ totalIntervals start stop interval := le_max_left ..

end Spanned

/-! ## The bucket of a timestamp -/

section Bucket

variable {start interval ts : ℚ} {total k : Int}

theorem truncate_of_nonneg {q : ℚ} (h : 0 ≤ q) : truncate q = ⌊q⌋ := if_pos h

theorem truncate_of_neg {q : ℚ} (h : q < 0) : truncate q = ⌈q⌉ := if_neg (not_le.mpr h)

/-- From the first write on, the bucket is the interval of the timestamp. -/
theorem within_iff (pos : 0 < interval) (le : start ≤ ts) (high : k < total) :
    Within start interval total k ts ↔ bucket start interval total ts = k := by
  have nonneg : 0 ≤ (ts - start) / interval := div_nonneg (sub_nonneg.mpr le) pos.le
  have lower : start + k * interval ≤ ts ↔ k ≤ ⌊(ts - start) / interval⌋ := by
    rw [Int.le_floor, le_div_iff₀ pos, le_sub_iff_add_le']
  have upper : ts < start + (k + 1) * interval ↔ ⌊(ts - start) / interval⌋ < k + 1 := by
    rw [Int.floor_lt, div_lt_iff₀ pos, sub_lt_iff_lt_add', Int.cast_add, Int.cast_one]
  rw [Within, bucket, truncate_of_nonneg nonneg, lower, upper]
  omega

theorem bucket_nonneg (pos : 0 < interval) (le : start ≤ ts) (one : 1 ≤ total) : 0 ≤ bucket start interval total ts := by
  have nonneg : 0 ≤ (ts - start) / interval := div_nonneg (sub_nonneg.mpr le) pos.le
  have floor := Int.floor_nonneg.mpr nonneg
  rw [bucket, truncate_of_nonneg nonneg]
  omega

theorem bucket_lt : bucket start interval total ts < total := by
  unfold bucket
  omega

/-- Before the first write, nothing is in an interval. -/
theorem Within.le (pos : 0 < interval) (low : 0 ≤ k) (h : Within start interval total k ts) : start ≤ ts := by
  have cast : (0 : ℚ) ≤ k := by exact_mod_cast low
  have shift := mul_nonneg cast pos.le
  linarith [h.1]

/-- A little before the first write, the bucket is the first one, and earlier there is no such interval. -/
theorem bucket_of_lt (pos : 0 < interval) (lt : ts < start) (one : 1 ≤ total) :
    (start - interval < ts → bucket start interval total ts = 0) ∧
      (ts ≤ start - interval → bucket start interval total ts < 0) := by
  have neg : (ts - start) / interval < 0 := div_neg_of_neg_of_pos (sub_neg.mpr lt) pos
  have ceil : ⌈(ts - start) / interval⌉ ≤ 0 := Int.ceil_le.mpr (by exact_mod_cast neg.le)
  rw [bucket, truncate_of_neg neg]
  constructor
  · intro close
    have above : -1 < ⌈(ts - start) / interval⌉ := by
      rw [Int.lt_ceil, lt_div_iff₀ pos]
      push_cast
      linarith
    omega
  · intro far
    have below : ⌈(ts - start) / interval⌉ ≤ -1 := by
      rw [Int.ceil_le, div_le_iff₀ pos]
      push_cast
      linarith
    omega

theorem mem_available {okWriteTimes : List ℚ} :
    k ∈ available start interval total okWriteTimes ↔
      (0 ≤ k ∧ k < total) ∧ ∃ ts ∈ okWriteTimes, Within start interval total k ts := by
  have among : k ∈ (Finset.range total.toNat).image (Nat.cast : Nat → Int) ↔ 0 ≤ k ∧ k < total := by
    rw [Finset.mem_image]
    constructor
    · rintro ⟨n, below, rfl⟩
      have below := Finset.mem_range.mp below
      omega
    · rintro ⟨low, high⟩
      exact ⟨k.toNat, Finset.mem_range.mpr (by omega), Int.toNat_of_nonneg low⟩
  rw [available, Finset.mem_filter, among]

theorem bucket_mem_available {okWriteTimes : List ℚ} (pos : 0 < interval) (one : 1 ≤ total)
    (member : ts ∈ okWriteTimes) (le : start ≤ ts) :
    bucket start interval total ts ∈ available start interval total okWriteTimes :=
  mem_available.mpr ⟨⟨bucket_nonneg pos le one, bucket_lt⟩, ts, member, (within_iff pos le bucket_lt).mpr rfl⟩

/-- The available intervals are among the buckets of the acknowledgements. -/
theorem available_subset_buckets (pos : 0 < interval) (okWriteTimes : List ℚ) :
    available start interval total okWriteTimes ⊆ (okWriteTimes.map (bucket start interval total)).toFinset := by
  intro k member
  obtain ⟨⟨low, high⟩, ts, inside, within⟩ := mem_available.mp member
  rw [List.mem_toFinset, List.mem_map]
  exact ⟨ts, inside, (within_iff pos (within.le pos low) high).mp within⟩

end Bucket

/-! ## A fraction -/

/-- The availability is between 0 and 1, it is the fraction of the intervals with an acknowledgement,
and more acknowledgements do not lower it. -/
structure Fraction (times okWriteTimes : List ℚ) (interval : ℚ) : Prop where
  nonneg : 0 ≤ computeIntervalAvailability times okWriteTimes interval
  le_one : computeIntervalAvailability times okWriteTimes interval ≤ 1
  counts : ∀ start stop, Spanned times start stop → computeIntervalAvailability times okWriteTimes interval =
    ((available start interval (totalIntervals start stop interval) okWriteTimes).card : ℚ) /
      totalIntervals start stop interval
  grows : ∀ more, okWriteTimes ⊆ more →
    computeIntervalAvailability times okWriteTimes interval ≤ computeIntervalAvailability times more interval

/-- An acknowledgement before the first write is less than an interval before it, and then there is
another one in the first interval. -/
def EarlyCovered (times okWriteTimes : List ℚ) (interval : ℚ) : Prop :=
  ∀ start stop, Spanned times start stop → ∀ ts ∈ okWriteTimes, ts < start →
    start - interval < ts ∧ ∃ other ∈ okWriteTimes, Within start interval (totalIntervals start stop interval) 0 other

section Fraction

variable {times okWriteTimes more : List ℚ} {start stop interval : ℚ}

theorem exists_spanned (times : List ℚ) : times = [] ∨ ∃ start stop, Spanned times start stop := by
  cases times with
  | nil => exact Or.inl rfl
  | cons first rest => exact Or.inr ⟨_, _, spanned_cons first rest⟩

theorem totalIntervals_pos (start stop interval : ℚ) : (0 : ℚ) < totalIntervals start stop interval := by
  have one := one_le_totalIntervals start stop interval
  exact_mod_cast (by omega : 0 < totalIntervals start stop interval)

theorem availability_nonneg (times okWriteTimes : List ℚ) (interval : ℚ) :
    0 ≤ computeIntervalAvailability times okWriteTimes interval := by
  obtain rfl | ⟨start, stop, spanned⟩ := exists_spanned times
  · exact le_refl 0
  · rw [computeIntervalAvailability_eq spanned]
    exact div_nonneg (Nat.cast_nonneg _) (totalIntervals_pos start stop interval).le

theorem availability_mono (subset : okWriteTimes ⊆ more) (times : List ℚ) (interval : ℚ) :
    computeIntervalAvailability times okWriteTimes interval ≤ computeIntervalAvailability times more interval := by
  obtain rfl | ⟨start, stop, spanned⟩ := exists_spanned times
  · exact le_refl 0
  · rw [computeIntervalAvailability_eq spanned, computeIntervalAvailability_eq spanned]
    refine div_le_div_of_nonneg_right ?_ (totalIntervals_pos start stop interval).le
    have buckets : (okWriteTimes.map (bucket start interval (totalIntervals start stop interval))).toFinset ⊆
        (more.map (bucket start interval (totalIntervals start stop interval))).toFinset := by
      intro k member
      rw [List.mem_toFinset] at member ⊢
      exact List.map_subset _ subset member
    exact_mod_cast Finset.card_le_card buckets

theorem card_available_le (start interval : ℚ) {total : Int} (one : 1 ≤ total) (okWriteTimes : List ℚ) :
    ((available start interval total okWriteTimes).card : ℚ) ≤ total := by
  have le : ((available start interval total okWriteTimes).card : Int) ≤ total := by
    have intervals : ((Finset.range total.toNat).image (Nat.cast : Nat → Int)).card ≤ total.toNat :=
      Finset.card_image_le.trans_eq (Finset.card_range total.toNat)
    have subset := Finset.card_filter_le ((Finset.range total.toNat).image (Nat.cast : Nat → Int))
      fun k => ∃ ts ∈ okWriteTimes, Within start interval total k ts
    unfold available
    omega
  exact_mod_cast le

/-- The buckets are the available intervals if and only if early acknowledgements are covered. -/
theorem buckets_eq_available_iff (pos : 0 < interval) {total : Int} (one : 1 ≤ total) :
    (okWriteTimes.map (bucket start interval total)).toFinset = available start interval total okWriteTimes ↔
      ∀ ts ∈ okWriteTimes, ts < start →
        start - interval < ts ∧ ∃ other ∈ okWriteTimes, Within start interval total 0 other := by
  constructor
  · intro same ts member early
    have inside : bucket start interval total ts ∈ available start interval total okWriteTimes := by
      rw [← same, List.mem_toFinset]
      exact List.mem_map_of_mem member
    obtain ⟨⟨low, -⟩, other, also, within⟩ := mem_available.mp inside
    obtain ⟨close, far⟩ := bucket_of_lt pos early one
    have near : start - interval < ts := by
      by_contra not
      have negative := far (not_lt.mp not)
      omega
    rw [close near] at within
    exact ⟨near, other, also, within⟩
  · intro covered
    apply Finset.Subset.antisymm
    · intro k member
      obtain ⟨ts, inside, rfl⟩ := List.mem_map.mp (List.mem_toFinset.mp member)
      by_cases le : start ≤ ts
      · exact bucket_mem_available pos one inside le
      · obtain ⟨near, other, also, within⟩ := covered ts inside (not_le.mp le)
        rw [(bucket_of_lt pos (not_le.mp le) one).1 near]
        exact mem_available.mpr ⟨⟨le_refl 0, by omega⟩, other, also, within⟩
    · exact available_subset_buckets pos okWriteTimes

/-- The availability is the fraction if and only if early acknowledgements are covered. -/
theorem fraction_iff (pos : 0 < interval) :
    Fraction times okWriteTimes interval ↔ EarlyCovered times okWriteTimes interval := by
  constructor
  · intro fraction start stop spanned
    have one := one_le_totalIntervals start stop interval
    rw [← buckets_eq_available_iff pos one]
    have counts := fraction.counts start stop spanned
    rw [computeIntervalAvailability_eq spanned, div_left_inj' (totalIntervals_pos start stop interval).ne'] at counts
    refine (Finset.eq_of_subset_of_card_le (available_subset_buckets pos okWriteTimes) (le_of_eq ?_)).symm
    exact_mod_cast counts
  · intro covered
    have counts : ∀ start stop, Spanned times start stop → computeIntervalAvailability times okWriteTimes interval =
        ((available start interval (totalIntervals start stop interval) okWriteTimes).card : ℚ) /
          totalIntervals start stop interval := by
      intro start stop spanned
      have one := one_le_totalIntervals start stop interval
      have buckets := (buckets_eq_available_iff pos one).mpr (covered start stop spanned)
      rw [computeIntervalAvailability_eq spanned, buckets]
    refine ⟨availability_nonneg times okWriteTimes interval, ?_, counts, fun more subset => ?_⟩
    · obtain rfl | ⟨start, stop, spanned⟩ := exists_spanned times
      · exact zero_le_one
      · rw [counts start stop spanned, div_le_one (totalIntervals_pos start stop interval)]
        exact card_available_le start interval (one_le_totalIntervals start stop interval) okWriteTimes
    · exact availability_mono subset times interval

/-- An acknowledgement a little before the first write, with another one after it. -/
theorem slightly_early_fraction : Fraction [10, 11] [199 / 20, 10, 21 / 2] (1 / 10) := by
  refine (fraction_iff (by norm_num)).mpr fun start stop spanned ts member early => ?_
  obtain ⟨rfl, rfl⟩ := spanned.unique (spanned_cons 10 [11])
  revert ts
  decide +kernel

/-- A second before the first write, it counts for an interval that does not exist: the availability is 2. -/
theorem steppedBack_not_fraction : ¬ Fraction [10] [10, 9] (1 / 10) := by
  intro fraction
  have two : computeIntervalAvailability [10] [10, 9] (1 / 10) = 2 := by decide +kernel
  have le_one := fraction.le_one
  rw [two] at le_one
  norm_num at le_one

end Fraction

end FaultStorm.Checker
