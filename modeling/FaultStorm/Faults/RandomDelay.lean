import FaultStorm.Faults.FlagFile
import FaultStorm.Faults.FreezerDaemon
import FaultStorm.Python.Float
import Mathlib.Algebra.Order.Field.Rat
import Mathlib.Data.Int.Interval

/-!
# The delays of the process freezer

`random_delay` of `process_freezer.sh` against the range it is given. A draw has 32768 values and
the arithmetic of the shell has 64 bits, so the delays span a range that is no wider than the draw
and fits into the words, and no other.
-/

namespace FaultStorm.ProcessFreezer

open Python

/-- `%03d` of `printf`. The sign takes one of the three places. -/
def threeDigits (z : Int) : List Char :=
  let digits := Nat.toDigits 10 z.natAbs
  if z < 0 then '-' :: digits.leftpad 2 '0' else digits.leftpad 3 '0'

/-- What `random_delay` prints for `delay_ms`. The shell divides towards zero. -/
def printDelay (delayMs : Int) : List Char :=
  (toString (delayMs.tdiv 1000)).toList ++ '.' :: threeDigits (delayMs.tmod 1000)

/-- A text `S.mmm` of seconds stands for a number of milliseconds. -/
def Denotes (text : List Char) (ms : Int) : Prop :=
  (∃ secs msecs, text = secs ++ '.' :: msecs ∧ msecs.length = 3) ∧ PyFloat.exact text = some (ms / 1000 : ℚ)

/-- The shell reads a whole number as a 64-bit integer, without a check for overflow. -/
def Shell.Decimal (sh : Shell) : Prop := ∀ n : Nat, sh.arith (toString (n : Int)).toList = some ((n : Int).bmod (2 ^ 64))

theorem Shell.Decimal.arith {sh : Shell} (decimal : sh.Decimal) {z : Int} (nonneg : 0 ≤ z) :
    sh.arith (toString z).toList = some (z.bmod (2 ^ 64)) := by
  obtain ⟨n, rfl⟩ := Int.eq_ofNat_of_zero_le nonneg
  exact decimal n

/-- The delays within a range of milliseconds: none is outside, each one below the upper bound is
drawn by some value of `RANDOM`, and each is printed as it is. -/
structure SpansRange (sh : Shell) (minMs maxMs : List Char) (lo hi : Int) : Prop where
  within : ∀ random < 32768, ∃ ms, randomDelay sh minMs maxMs random = some ms ∧ lo ≤ ms ∧ ms ≤ hi
  covers : ∀ ms, lo ≤ ms → ms < hi → ∃ random < 32768, randomDelay sh minMs maxMs random = some ms
  prints : ∀ random < 32768, ∀ ms, randomDelay sh minMs maxMs random = some ms → Denotes (printDelay ms) ms

/-! ## The printed text -/

theorem threeDigits_value {n : Nat} : Nat.ofDigitChars 10 (threeDigits n) 0 = n := by
  have positive : ¬ (n : Int) < 0 := by omega
  rw [threeDigits, if_neg positive, Int.natAbs_natCast, List.leftpad, Nat.ofDigitChars_append,
    Nat.ofDigitChars_replicate_zero, Nat.mul_zero, Nat.ofDigitChars_ten_toDigits]

theorem threeDigits_length {n : Nat} (small : n < 1000) : (threeDigits n).length = 3 := by
  have positive : ¬ (n : Int) < 0 := by omega
  have short : (Nat.toDigits 10 n).length ≤ 3 := (Nat.length_toDigits_le_iff (by omega) (by omega)).mpr (by omega)
  rw [threeDigits, if_neg positive, Int.natAbs_natCast, List.length_leftpad]
  omega

theorem threeDigits_digits {n : Nat} : ∀ c ∈ threeDigits n, c.isDigit := by
  have positive : ¬ (n : Int) < 0 := by omega
  intro c member
  rw [threeDigits, if_neg positive, Int.natAbs_natCast, List.leftpad] at member
  rcases List.mem_append.mp member with zero | digit
  · rw [List.eq_of_mem_replicate zero]
    decide
  · exact Nat.isDigit_of_mem_toDigits (by omega) (by omega) digit

/-- A delay that is not negative is printed as it is. -/
theorem printDelay_denotes {ms : Int} (nonneg : 0 ≤ ms) : Denotes (printDelay ms) ms := by
  obtain ⟨n, rfl⟩ := Int.eq_ofNat_of_zero_le nonneg
  have text : printDelay n = Nat.toDigits 10 (n / 1000) ++ '.' :: threeDigits (n % 1000 : Nat) := by
    have secs : (toString ((n / 1000 : Nat) : Int)).toList = Nat.toDigits 10 (n / 1000) := Nat.toList_repr
    rw [← secs]
    rfl
  have length := threeDigits_length (Nat.mod_lt n (by omega : 0 < 1000))
  have whole : ∀ c ∈ Nat.toDigits 10 (n / 1000), c.isDigit := by
    intro c member
    exact Nat.isDigit_of_mem_toDigits (by omega) (by omega) member
  have some_part : threeDigits (n % 1000 : Nat) ≠ [] := by
    intro none
    rw [none] at length
    cases length
  rw [text]
  refine ⟨⟨_, _, rfl, length⟩, ?_⟩
  rw [PyFloat.exact_point whole threeDigits_digits Nat.toDigits_ne_nil some_part, Nat.ofDigitChars_ten_toDigits,
    threeDigits_value, length]
  have split : (n : ℚ) = 1000 * (n / 1000 : Nat) + (n % 1000 : Nat) := by
    exact_mod_cast (Nat.div_add_mod n 1000).symm
  rw [Int.cast_natCast, split]
  congr 1
  ring

/-! ## The draw -/

/-- The offset from the lower bound that a draw gives. -/
def offset (range : Int) (random : Nat) : Int := if range ≤ 0 then 0 else ((random % 32768 : Nat) : Int) % range

/-- A delay is the lower bound and an offset, as a 64-bit integer. -/
theorem randomDelay_eq {sh : Shell} {minMs maxMs : List Char} {lo hi : Int} (min : sh.arith minMs = some (lo.bmod (2 ^ 64)))
    (max : sh.arith maxMs = some (hi.bmod (2 ^ 64))) (random : Nat) :
    randomDelay sh minMs maxMs random = some ((lo + offset ((hi - lo).bmod (2 ^ 64)) random).bmod (2 ^ 64)) := by
  have range : (hi.bmod (2 ^ 64) - lo.bmod (2 ^ 64)).bmod (2 ^ 64) = (hi - lo).bmod (2 ^ 64) := by
    rw [Int.bmod_sub_bmod, Int.sub_bmod_bmod]
  simp only [randomDelay, min, max, Option.bind_eq_bind, Option.bind_some, range, offset]
  split
  · rw [Int.add_zero]
    rfl
  · rw [Int.add_bmod_bmod, Int.add_comm]
    rfl

/-- An offset is below the width of the range, or zero. -/
theorem offset_bounds {width : Int} (nonneg : 0 ≤ width) (random : Nat) :
    0 ≤ offset width random ∧ offset width random ≤ width ∧ (0 < width → offset width random < width) := by
  rw [offset]
  split
  · omega
  · have below := Int.emod_lt_of_pos ((random % 32768 : Nat) : Int) (by omega : 0 < width)
    have nonneg := Int.emod_nonneg ((random % 32768 : Nat) : Int) (by omega : width ≠ 0)
    exact ⟨nonneg, below.le, fun _ => below⟩

/-- Each offset below the width is drawn, unless the range is wider than the draw. -/
theorem offset_covers {width m : Int} (narrow : width ≤ 32768) (nonneg : 0 ≤ m) (below : m < width) :
    ∃ random < 32768, offset width random = m := by
  refine ⟨m.toNat, by omega, ?_⟩
  have drawn : ((m.toNat % 32768 : Nat) : Int) = m := by omega
  rw [offset, if_neg (by omega), drawn, Int.emod_eq_of_lt nonneg below]

/-- A word that is not negative and below the sign bit is itself. -/
theorem bmod_word {z : Int} (nonneg : 0 ≤ z) (small : z < 2 ^ 63) : z.bmod (2 ^ 64) = z := by
  apply Int.bmod_eq_of_le_mul_two <;> omega

theorem bmod_word_lt (z : Int) : z.bmod (2 ^ 64) < 2 ^ 63 := by
  have below : z.bmod (2 ^ 64) < ((2 ^ 64 : Nat) + 1) / 2 := Int.bmod_lt (by omega)
  omega

/-- What takes each value of an interval at some of its first `count` arguments: the interval has no
more values than there are arguments. -/
theorem sub_le_of_covers {f : Nat → Option Int} {count : Nat} {lo hi : Int}
    (covers : ∀ m, lo ≤ m → m < hi → ∃ n < count, f n = some m) : hi - lo ≤ count := by
  have inside : (Finset.Ico lo hi).image some ⊆ (Finset.range count).image f := by
    intro value member
    obtain ⟨m, among, rfl⟩ := Finset.mem_image.mp member
    obtain ⟨low, high⟩ := Finset.mem_Ico.mp among
    obtain ⟨n, below, drawn⟩ := covers m low high
    exact Finset.mem_image.mpr ⟨n, Finset.mem_range.mpr below, drawn⟩
  have values : ((Finset.Ico lo hi).image some).card = (hi - lo).toNat := by
    rw [Finset.card_image_of_injective _ (Option.some_injective Int), Int.card_Ico]
  have arguments : ((Finset.range count).image f).card ≤ count := by
    calc ((Finset.range count).image f).card ≤ (Finset.range count).card := Finset.card_image_le
      _ = count := Finset.card_range count
  have card := Finset.card_le_card inside
  omega

/-! ## The range -/

section Range

variable {sh : Shell} {minMs maxMs : List Char} {lo hi : Int}

/-- A range that is no wider than the draw and fits into the words is spanned. -/
theorem SpansRange.of_narrow (min : sh.arith minMs = some (lo.bmod (2 ^ 64))) (max : sh.arith maxMs = some (hi.bmod (2 ^ 64)))
    (nonneg : 0 ≤ lo) (le : lo ≤ hi) (narrow : hi - lo ≤ 32768) (low : lo < 2 ^ 63) (high : hi ≤ 2 ^ 63) :
    SpansRange sh minMs maxMs lo hi := by
  have drawn : ∀ random, randomDelay sh minMs maxMs random = some (lo + offset (hi - lo) random) := by
    intro random
    have bounds := offset_bounds (by omega : 0 ≤ hi - lo) random
    rw [randomDelay_eq min max, bmod_word (by omega : 0 ≤ hi - lo) (by omega), bmod_word (by omega)]
    omega
  constructor
  · intro random _
    have bounds := offset_bounds (by omega : 0 ≤ hi - lo) random
    exact ⟨_, drawn random, by omega, by omega⟩
  · intro ms above below
    obtain ⟨random, value, same⟩ := offset_covers narrow (by omega : 0 ≤ ms - lo) (by omega)
    refine ⟨random, value, ?_⟩
    rw [drawn, same]
    congr 1
    omega
  · intro random _ ms returned
    have bounds := offset_bounds (by omega : 0 ≤ hi - lo) random
    cases (drawn random).symm.trans returned
    exact printDelay_denotes (by omega)

/-- A range that is spanned is no wider than the draw and fits into the words. -/
theorem SpansRange.narrow (min : sh.arith minMs = some (lo.bmod (2 ^ 64))) (max : sh.arith maxMs = some (hi.bmod (2 ^ 64)))
    (le : lo ≤ hi) (spans : SpansRange sh minMs maxMs lo hi) : hi - lo ≤ 32768 ∧ lo < 2 ^ 63 ∧ hi ≤ 2 ^ 63 := by
  have word : ∀ {random ms}, randomDelay sh minMs maxMs random = some ms → ms < 2 ^ 63 := by
    intro random ms returned
    cases (randomDelay_eq min max random).symm.trans returned
    exact bmod_word_lt _
  have low : lo < 2 ^ 63 := by
    obtain ⟨ms, returned, above, _⟩ := spans.within 0 (by omega)
    have small := word returned
    omega
  refine ⟨sub_le_of_covers spans.covers, low, ?_⟩
  rcases Int.lt_or_eq_of_le le with lt | eq
  · -- the last delay below the upper bound is drawn
    obtain ⟨random, _, returned⟩ := spans.covers (hi - 1) (by omega) (by omega)
    have small := word returned
    omega
  · omega

end Range

/-- `random_delay` spans the range of the two numbers it is given exactly if the range is no wider
than the 32768 values of `RANDOM` and its delays are 64-bit integers. -/
theorem randomDelay_spans_iff {sh : Shell} (decimal : sh.Decimal) {lo hi : Int} (nonneg : 0 ≤ lo) (le : lo ≤ hi) :
    SpansRange sh (toString lo).toList (toString hi).toList lo hi ↔ hi - lo ≤ 32768 ∧ lo < 2 ^ 63 ∧ hi ≤ 2 ^ 63 := by
  have min := decimal.arith nonneg
  have max := decimal.arith (nonneg.trans le)
  constructor
  · exact SpansRange.narrow min max le
  · rintro ⟨narrow, low, high⟩
    exact SpansRange.of_narrow min max nonneg le narrow low high

/-- A shell with 64-bit arithmetic. -/
def wordShell : Shell := { plainShell with arith := fun text => (Text.parseInt text).map fun n => n.bmod (2 ^ 64) }

theorem wordShell_decimal : wordShell.Decimal := by
  intro n
  show (Text.parseInt (toString (n : Int)).toList).map (fun n => n.bmod (2 ^ 64)) = _
  rw [Text.parseInt_toString]
  rfl

theorem defaultRange_spans :
    SpansRange wordShell (toString (100 : Int)).toList (toString (3000 : Int)).toList 100 3000 ↔
      (3000 : Int) - 100 ≤ 32768 ∧ (100 : Int) < 2 ^ 63 ∧ (3000 : Int) ≤ 2 ^ 63 :=
  randomDelay_spans_iff wordShell_decimal (by decide) (by decide)

/-- Up to a minute is asked for, and no delay is longer than 33767 milliseconds. -/
theorem minute_not_spanned :
    ¬ SpansRange wordShell (toString (1000 : Int)).toList (toString (60000 : Int)).toList 1000 60000 := by
  intro spans
  have min := wordShell_decimal.arith (by decide : (0 : Int) ≤ 1000)
  have max := wordShell_decimal.arith (by decide : (0 : Int) ≤ 60000)
  have narrow := spans.narrow min max (by decide)
  omega

/-! ## The ranges of an action -/

/-- A range of milliseconds that the delays can span. -/
structure Narrow (range : Int × Int) : Prop where
  nonneg : 0 ≤ range.1
  le : range.1 ≤ range.2
  width : range.2 - range.1 ≤ 32768
  low : range.1 < 2 ^ 63
  high : range.2 ≤ 2 ^ 63

theorem Narrow.spans {range : Int × Int} (narrow : Narrow range) {sh : Shell} (decimal : sh.Decimal) :
    SpansRange sh (toString range.1).toList (toString range.2).toList range.1 range.2 :=
  SpansRange.of_narrow (decimal.arith narrow.nonneg) (decimal.arith (narrow.nonneg.trans narrow.le)) narrow.nonneg
    narrow.le narrow.width narrow.low narrow.high

/-- With the bounds that the daemon reads from the flag file of an action, its holds and its pauses
span the two ranges of the action. -/
theorem flagText_spans {sh : Shell} (decimal : sh.Decimal) {a : BaseFreezeAction}
    (lines : ∀ p ∈ a.processes, PatternLine p.toList) (globals : FlagFile) (freeze : Narrow a.freezeDurationRange)
    (pause : Narrow a.freezePauseRange) :
    let f := parseFlagFileFrom globals (flagText a)
    SpansRange sh f.freezeMin f.freezeMax a.freezeDurationRange.1 a.freezeDurationRange.2 ∧
      SpansRange sh f.pauseMin f.pauseMax a.freezePauseRange.1 a.freezePauseRange.2 := by
  intro f
  have read : f = { bounds a globals with patterns := a.processes.map String.toList } :=
    parseFlagFileFrom_flagText lines globals
  rw [read]
  exact ⟨freeze.spans decimal, pause.spans decimal⟩

end FaultStorm.ProcessFreezer
