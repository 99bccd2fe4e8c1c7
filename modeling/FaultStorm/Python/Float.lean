import FaultStorm.Python.Text
import Mathlib.Data.Int.Log
import Mathlib.Data.Rat.Floor

/-!
# Floating point numbers

The non-negative doubles as rational numbers: a result is rounded to the nearest multiple of
its unit in the last place, ties to even, and is infinite from `2 ^ 1024` on. Text in decimal
notation and products and quotients of doubles are rounded once, as in IEEE 754.
-/

namespace Python.PyFloat

/-- A non-negative double; `none` is the infinity. -/
abbrev Double := Option ℚ

/-- The nearest integer, the even one of two. -/
def roundHalfEven (q : ℚ) : Int :=
  let low := ⌊q⌋
  if q - low < 1 / 2 then low
  else if 1 / 2 < q - low then low + 1
  else if low % 2 = 0 then low else low + 1

/-- The unit in the last place of the doubles around `q`. -/
def ulp (q : ℚ) : ℚ := 2 ^ max (Int.log 2 q - 52) (-1074)

/-- The double nearest to a non-negative number. -/
def round (q : ℚ) : Double :=
  let rounded := roundHalfEven (q / ulp q) * ulp q
  if rounded < 2 ^ 1024 then some rounded else none

/-- The number a run of decimal digits stands for. -/
def digits (s : List Char) : Option Nat :=
  s.foldlM (fun n c => (Text.decimalValue c).map (10 * n + ·)) 0

/-- `float(s)` of a text of digits and points; `none` is its `ValueError`. -/
def parse (s : List Char) : Option Double :=
  match s.splitOn '.' with
  | [whole] => if whole = [] then none else (digits whole).map fun (n : Nat) => round n
  | [whole, part] =>
    if whole ++ part = [] then none
    else (digits (whole ++ part)).map fun (n : Nat) => round (n / 10 ^ part.length)
  | _ => none

/-- A run of digits with single underscores between them, or nothing: its value and its length. -/
def digitRun (s : List Char) : Option (Nat × Nat) :=
  if s = [] then some (0, 0) else (Text.digitsFrom 0 false s).map fun n => (n, (s.filter (· ≠ '_')).length)

/-- A number with a sign. -/
def signed {α : Type} (parse : List Char → Option α) (negate : α → α) : List Char → Option α
  | '-' :: s => (parse s).map negate
  | '+' :: s => parse s
  | s => parse s

/-- Digits with a point among them. -/
def mantissa (s : List Char) : Option ℚ := do
  let (whole, part) ← match s.splitOn '.' with
    | [whole] => some (whole, [])
    | [whole, part] => some (whole, part)
    | _ => none
  if whole ++ part = [] then none
  let (n, _) ← digitRun whole
  let (m, places) ← digitRun part
  return n + m / 10 ^ places

/-- `float(s)` as an exact number, for a text in decimal notation. -/
def exact (s : List Char) : Option ℚ :=
  signed (fun s => do
    let isE := fun c : Char => c == 'e' || c == 'E'
    let q ← mantissa (s.takeWhile fun c => ! isE c)
    match s.dropWhile fun c => ! isE c with
    | [] => return q
    | _ :: exp =>
      let e ← signed (Text.digitsFrom 0 false · |>.map Int.ofNat) Int.neg exp
      return q * 10 ^ e) Neg.neg (Text.strip s)

/-- `x * n`. -/
def mul (x : Double) (n : Nat) : Double := x.bind fun q => round (q * n)

/-- `x / n`. -/
def div (x : Double) (n : Nat) : Double := x.bind fun q => round (q / n)

/-- `int(x)`; `none` is its `OverflowError`. -/
def toInt (x : Double) : Option Int := x.map Int.floor

theorem roundHalfEven_int (z : Int) : roundHalfEven z = z := by
  simp [roundHalfEven]

theorem log_two_le {n : Nat} (small : n < 2 ^ 53) : Int.log 2 (n : ℚ) ≤ 52 := by
  rcases Nat.eq_zero_or_pos n with rfl | pos
  · simp
  · have below : Int.log 2 (n : ℚ) < 53 := by
      rw [← Int.lt_zpow_iff_log_lt (by norm_num) (by exact_mod_cast pos)]
      exact_mod_cast small
    omega

/-- A whole number that a double can hold is not rounded. -/
theorem round_nat {n : Nat} (small : n < 2 ^ 53) : round n = some (n : ℚ) := by
  have logarithm := log_two_le small
  obtain ⟨k, exponent⟩ : ∃ k : Nat, max (Int.log 2 (n : ℚ) - 52) (-1074) = -(k : Int) :=
    ⟨(-max (Int.log 2 (n : ℚ) - 52) (-1074)).toNat, by omega⟩
  have unit : ulp n = (2 ^ k)⁻¹ := by
    rw [ulp, exponent, zpow_neg, zpow_natCast]
  have scaled : (n : ℚ) / ulp n = ((n * 2 ^ k : Nat) : Int) := by
    rw [unit, div_inv_eq_mul]
    push_cast
    rfl
  have rounded : roundHalfEven (n / ulp n) * ulp n = n := by
    rw [scaled, roundHalfEven_int, unit]
    push_cast
    rw [mul_inv_cancel_right₀ (by positivity)]
  have finite : ∀ m, 53 ≤ m → (n : ℚ) < 2 ^ m := by
    intro m le
    exact_mod_cast small.trans_le (Nat.pow_le_pow_right (by omega) le)
  rw [round, rounded, if_pos (finite 1024 (by omega))]

theorem digits_toDigits (n : Nat) : digits (Nat.toDigits 10 n) = some n := by
  have fold : ∀ (s : List Char) (m : Nat), (∀ c ∈ s, c.isDigit = true) →
      s.foldlM (fun n c => (Text.decimalValue c).map (10 * n + ·)) m = some (Nat.ofDigitChars 10 s m) := by
    intro s
    induction s with
    | nil => exact fun _ _ => rfl
    | cons c s ih =>
      intro m digit
      rw [List.foldlM_cons, Text.decimalValue_digit (digit c List.mem_cons_self)]
      exact ih _ fun d member => digit d (List.mem_cons_of_mem c member)
  rw [digits, fold _ 0 fun c member => Nat.isDigit_of_mem_toDigits (by omega) (by omega) member,
    Nat.ofDigitChars_ten_toDigits]

/-- A whole number is read back as it was printed. -/
theorem parse_toString {n : Nat} (small : n < 2 ^ 53) : parse (toString n).toList = some (some (n : ℚ)) := by
  have text : (toString n).toList = Nat.toDigits 10 n := Nat.toList_repr
  have whole : (Nat.toDigits 10 n).splitOn '.' = [Nat.toDigits 10 n] := by
    apply List.splitOn_eq_singleton
    intro point
    exact absurd (Nat.isDigit_of_mem_toDigits (by omega) (by omega) point) (by decide)
  rw [parse, text, whole]
  dsimp only
  rw [if_neg Nat.toDigits_ne_nil, digits_toDigits, Option.map_some, round_nat small]

theorem digitRun_digits {s : List Char} (digits : ∀ c ∈ s, c.isDigit) (some_digit : s ≠ []) :
    digitRun s = some (Nat.ofDigitChars 10 s 0, s.length) := by
  have all : s.filter (· ≠ '_') = s := by
    apply List.filter_eq_self.mpr
    intro c member
    have digit := digits c member
    simp only [ne_eq, decide_eq_true_eq]
    rintro rfl
    exact absurd digit (by decide)
  rw [digitRun, if_neg some_digit, Text.digitsFrom_digits digits 0 false (Or.inr some_digit), all]
  rfl

/-- Digits around a point are read as the whole number before it and the fraction after it. -/
theorem exact_point {whole part : List Char} (before : ∀ c ∈ whole, c.isDigit) (after : ∀ c ∈ part, c.isDigit)
    (some_whole : whole ≠ []) (some_part : part ≠ []) :
    exact (whole ++ '.' :: part) =
      some (Nat.ofDigitChars 10 whole 0 + Nat.ofDigitChars 10 part 0 / 10 ^ part.length : ℚ) := by
  have plain : ∀ c ∈ whole ++ '.' :: part, c.isDigit ∨ c = '.' := by
    intro c member
    rcases List.mem_append.mp member with member | member
    · exact Or.inl (before c member)
    · rcases List.mem_cons.mp member with point | member
      · exact Or.inr point
      · exact Or.inl (after c member)
  have word : Text.Word (whole ++ '.' :: part) := by
    refine ⟨List.append_ne_nil_of_left_ne_nil some_whole _, ?_⟩
    intro c member
    rcases plain c member with digit | rfl
    · exact Text.isDigit_not_space digit
    · decide
  have noExponent : ∀ c ∈ whole ++ '.' :: part, (! (c == 'e' || c == 'E')) = true := by
    intro c member
    simp only [Bool.not_eq_true', Bool.or_eq_false_iff, beq_eq_false_iff_ne]
    rcases plain c member with digit | rfl
    · constructor <;> (rintro rfl; exact absurd digit (by decide))
    · decide
  have points : (whole ++ '.' :: part).splitOn '.' = [whole, part] := by
    rw [List.splitOn_append_cons_self_of_not_mem, List.splitOn_eq_singleton]
    · exact fun point => absurd (after '.' point) (by decide)
    · exact fun point => absurd (before '.' point) (by decide)
  have value : mantissa (whole ++ '.' :: part) =
      some (Nat.ofDigitChars 10 whole 0 + Nat.ofDigitChars 10 part 0 / 10 ^ part.length : ℚ) := by
    simp [mantissa, points, digitRun_digits before some_whole, digitRun_digits after some_part, some_whole]
  rw [exact, Text.strip_word word, signed]
  · simp only [List.takeWhile_eq_self_iff.mpr noExponent, List.dropWhile_eq_nil_iff.mpr noExponent, value]
    rfl
  -- the text has no sign
  · intro rest minus
    have sign := plain '-' (minus ▸ List.mem_cons_self)
    exact absurd sign (by decide)
  · intro rest plus
    have sign := plain '+' (plus ▸ List.mem_cons_self)
    exact absurd sign (by decide)

end Python.PyFloat
