import FaultStorm.Python.Json

/-!
# What is dumped is loaded

Each reader reads its part of a dumped value and stops behind it; `valueAt_dumps` puts them
together by induction on the value, with two units of fuel for each character.
-/

namespace Python.Json

/-! ## Strings -/

theorem scanString_letter {p : Char × Nat} (member : p ∈ shortEscapes) (rest : List Char) :
    scanString ('\\' :: p.1 :: rest) = (scanString rest).map (Prod.map (p.2 :: ·) id) := by
  have known : ∀ p ∈ shortEscapes, p.1 ≠ 'u' ∧ shortEscapes.lookup p.1 = some p.2 := by decide
  obtain ⟨letter, found⟩ := known p member
  rw [scanString, found]
  · rfl
  · intro a b c d rest' eq
    exact absurd eq letter

theorem scanString_unit {n : Nat} (small : n < 0x10000) (rest : List Char) :
    scanString (escapeUnit n ++ rest) = (scanString rest).map (Prod.map (n :: ·) id) := by
  have bound : ∀ m, m % 16 < 16 := fun m => Nat.mod_lt m (by omega)
  have unit : Text.parseHex [Nat.digitChar (n / 0x1000 % 16), Nat.digitChar (n / 0x100 % 16),
      Nat.digitChar (n / 0x10 % 16), Nat.digitChar (n % 16)] = some n := by
    simp only [Text.parseHex, List.foldlM_cons, List.foldlM_nil, Text.hexValue_digitChar _ (bound _), Option.map_some,
      Option.bind_eq_bind, Option.bind_some, Option.pure_def]
    rw [if_neg (List.cons_ne_nil _ _)]
    congr 1
    omega
  simp only [escapeUnit, List.cons_append, List.nil_append, scanString, unit, Option.bind_some]

theorem scanString_plain {c : Char} (printable : ' ' ≤ c) (quote : c ≠ '"') (backslash : c ≠ '\\') (rest : List Char) :
    scanString (c :: rest) = (scanString rest).map (Prod.map (c.toNat :: ·) id) := by
  have visible : ¬ (c.toNat < 0x20 ∨ c = '\\') := by
    have le : 0x20 ≤ c.toNat := UInt32.le_iff_toNat_le.mp printable
    rintro (control | eq)
    · omega
    · exact backslash eq
  rw [scanString, if_neg visible]
  · exact fun eq => quote eq
  · exact fun _ _ _ _ _ eq => absurd eq backslash
  · exact fun _ _ eq => absurd eq backslash

theorem units_lt (c : Char) : ∀ n ∈ units c, n < 0x10000 := by
  have valid := c.valid
  have range : c.toNat < 0x110000 := by
    rcases valid with low | ⟨-, high⟩
    · have := low; show c.val.toNat < _; omega
    · exact high
  intro n member
  unfold units at member
  split at member
  · rw [List.mem_singleton] at member
    omega
  · simp only [List.mem_cons, List.not_mem_nil, or_false] at member
    omega

theorem scanString_units (ns : List Nat) (small : ∀ n ∈ ns, n < 0x10000) (rest : List Char) :
    scanString (ns.flatMap escapeUnit ++ rest) =
      (scanString rest).map (Prod.map (ns ++ ·) id) := by
  induction ns with
  | nil =>
    rw [List.flatMap_nil, List.nil_append]
    cases scanString rest with
    | none => rfl
    | some p => rfl
  | cons n ns ih =>
    rw [List.flatMap_cons, List.append_assoc, scanString_unit (small n List.mem_cons_self),
      ih fun m member => small m (List.mem_cons_of_mem n member), Option.map_map]
    rfl

/-- An escaped character gives its units. -/
theorem scanString_escape (c : Char) (rest : List Char) :
    scanString (escape c ++ rest) = (scanString rest).map (Prod.map (units c ++ ·) id) := by
  unfold escape
  split
  · rename_i slash
    subst slash
    exact scanString_plain (by decide) (by decide) (by decide) rest
  split
  · rename_i letter code found
    have same : code = c.toNat := by simpa using List.find?_some found
    have ascii : ∀ p ∈ shortEscapes, p.2 < 0x10000 := by decide
    have short := ascii _ (List.mem_of_find?_eq_some found)
    have one : units c = [code] := by
      rw [units, if_pos (by rw [← same]; exact short), same]
    rw [one]
    exact scanString_letter (List.mem_of_find?_eq_some found) rest
  · rename_i missing
    split
    · rename_i printable
      have other : ∀ p ∈ shortEscapes, p.2 ≠ c.toNat := by simpa using missing
      have quote : c ≠ '"' := fun eq => other ('"', 0x22) (by decide) (by rw [eq]; rfl)
      have backslash : c ≠ '\\' := fun eq => other ('\\', 0x5c) (by decide) (by rw [eq]; rfl)
      have short : c.toNat ≤ 0x7e := UInt32.le_iff_toNat_le.mp printable.2
      rw [units, if_pos (by omega)]
      exact scanString_plain printable.1 quote backslash rest
    · exact scanString_units _ (units_lt c) rest

theorem charOf_toNat (c : Char) : charOf c.toNat = c := by
  have plain : (isHigh c.toNat || isLow c.toNat) = false := by
    have valid := c.valid
    unfold isHigh isLow
    simp only [Bool.or_eq_false_iff, Bool.and_eq_false_iff, decide_eq_false_iff_not]
    rcases valid with low | ⟨high, -⟩
    · have : c.toNat < 0xd800 := low
      omega
    · have : 0xdfff < c.toNat := high
      omega
  rw [charOf, plain]
  exact Char.ofNat_toNat c

theorem joinUnits_units (c : Char) (later : List Nat) : joinUnits (units c ++ later) = c :: joinUnits later := by
  have valid := c.valid
  unfold units
  split
  · have plain : isHigh c.toNat = false := by
      unfold isHigh
      simp only [Bool.and_eq_false_iff, decide_eq_false_iff_not]
      rcases valid with low | ⟨high, -⟩
      · have : c.toNat < 0xd800 := low
        omega
      · have : 0xdfff < c.toNat := high
        omega
    cases later with
    | nil =>
      show [charOf c.toNat] = [c]
      rw [charOf_toNat]
    | cons n later =>
      rw [List.singleton_append, joinUnits, plain, charOf_toNat]
      rfl
  · rename_i large
    have range : c.toNat < 0x110000 := by
      rcases valid with low | ⟨-, high⟩
      · have : c.toNat < 0xd800 := low
        omega
      · exact high
    have high : isHigh (0xd800 + (c.toNat - 0x10000) / 0x400) = true := by
      simp only [isHigh, Bool.and_eq_true, decide_eq_true_eq]
      omega
    have low : isLow (0xdc00 + (c.toNat - 0x10000) % 0x400) = true := by
      simp only [isLow, Bool.and_eq_true, decide_eq_true_eq]
      omega
    have whole : 0x10000 + (0xd800 + (c.toNat - 0x10000) / 0x400 - 0xd800) * 0x400 +
        (0xdc00 + (c.toNat - 0x10000) % 0x400 - 0xdc00) = c.toNat := by
      omega
    rw [List.cons_append, List.cons_append, joinUnits, high, low, whole, Char.ofNat_toNat]
    rfl

theorem joinUnits_flatMap (s : List Char) : joinUnits (s.flatMap units) = s := by
  induction s with
  | nil => rfl
  | cons c s ih => rw [List.flatMap_cons, joinUnits_units, ih]

theorem scanString_dumped (s rest : List Char) :
    scanString (s.flatMap escape ++ '"' :: rest) = some (s.flatMap units, rest) := by
  induction s with
  | nil => rfl
  | cons c s ih =>
    rw [List.flatMap_cons, List.append_assoc, scanString_escape, ih]
    rfl

theorem stringAt_dumps (s : String) (rest : List Char) :
    stringAt (s.toList.flatMap escape ++ '"' :: rest) = some (s, rest) := by
  rw [stringAt, scanString_dumped]
  show some (String.ofList (joinUnits _), rest) = _
  rw [joinUnits_flatMap, String.ofList_toList]

/-! ## Numbers -/

/-- What may follow a number: nothing that would go on with it. -/
def Stops (rest : List Char) : Prop := ∀ c ∈ rest.head?, c.isDigit = false ∧ c ≠ '.' ∧ c ≠ 'e' ∧ c ≠ 'E'

/-- What may follow a run of digits. -/
def NoDigit (rest : List Char) : Prop := ∀ c ∈ rest.head?, c.isDigit = false

theorem noDigit_cons {c : Char} {rest : List Char} (other : c.isDigit = false) : NoDigit (c :: rest) := by
  intro d member
  rw [List.head?_cons, Option.mem_some_iff] at member
  rw [← member]
  exact other

theorem Stops.noDigit {rest : List Char} (stops : Stops rest) : NoDigit rest := fun c member => (stops c member).1

theorem digits_append {ds rest : List Char} (all : ∀ c ∈ ds, c.isDigit = true) (stops : NoDigit rest) :
    digits (ds ++ rest) = ds ∧ (ds ++ rest).dropWhile Char.isDigit = rest := by
  have none : digits rest = [] ∧ rest.dropWhile Char.isDigit = rest := by
    cases rest with
    | nil => exact ⟨rfl, rfl⟩
    | cons c rest =>
      have other := stops c rfl
      constructor
      · rw [digits, List.takeWhile_cons_of_neg (by simp [other])]
      · rw [List.dropWhile_cons_of_neg (by simp [other])]
  rw [digits, List.takeWhile_append_of_pos all, List.dropWhile_append_of_pos all, ← digits, none.1, none.2,
    List.append_nil]
  exact ⟨rfl, rfl⟩

theorem isDigit_toDigits (n : Nat) : ∀ c ∈ Nat.toDigits 10 n, c.isDigit = true :=
  fun _ member => Nat.isDigit_of_mem_toDigits (by omega) (by omega) member

theorem digitChar_facts : ∀ d < 10, (Nat.digitChar d).isDigit = true ∧ (Nat.digitChar d).toNat - '0'.toNat = d ∧
    (0 < d → Nat.digitChar d ≠ '0') := by
  decide

/-- A number other than zero is written without a leading zero. -/
theorem head_toDigits {n : Nat} (pos : 0 < n) : ∃ c s, Nat.toDigits 10 n = c :: s ∧ c ≠ '0' := by
  induction n using Nat.strongRecOn with
  | ind n ih =>
    by_cases small : n < 10
    · exact ⟨_, [], Nat.toDigits_of_lt_base small, (digitChar_facts n small).2.2 pos⟩
    · obtain ⟨c, s, front, nonzero⟩ := ih (n / 10) (by omega) (by omega)
      refine ⟨c, s ++ [Nat.digitChar (n % 10)], ?_, nonzero⟩
      rw [Nat.toDigits_of_base_le (by omega) (by omega), front]
      rfl

theorem wholeAt_toDigits (n : Nat) {rest : List Char} (stops : NoDigit rest) :
    wholeAt (Nat.toDigits 10 n ++ rest) = some (n, rest) := by
  rcases Nat.eq_zero_or_pos n with rfl | pos
  · rfl
  · obtain ⟨c, s, front, nonzero⟩ := head_toDigits pos
    obtain ⟨taken, left⟩ := digits_append (isDigit_toDigits n) stops
    have whole : Nat.ofDigitChars 10 (Nat.toDigits 10 n) 0 = n := Nat.ofDigitChars_ten_toDigits
    rw [front] at taken left whole ⊢
    rw [List.cons_append] at taken left ⊢
    rw [wholeAt, if_neg, taken, left, whole]
    · rw [taken]
      exact List.cons_ne_nil c s
    · exact fun _ eq => nonzero (List.cons.inj eq).1

theorem fracAt_digits (frac : List (Fin 10)) {rest : List Char} (stops : NoDigit rest)
    (point : rest.head? ≠ some '.') :
    fracAt (dumpsFrac frac ++ rest) = (frac, rest) := by
  unfold dumpsFrac
  split
  · rename_i empty
    rw [empty, List.nil_append]
    cases rest with
    | nil => rfl
    | cons c rest =>
      rw [fracAt]
      intro s eq
      rw [eq] at point
      exact point rfl
  · rename_i nonempty
    have all : ∀ c ∈ frac.map fun d : Fin 10 => Nat.digitChar d, c.isDigit = true := by
      intro c member
      obtain ⟨d, -, rfl⟩ := List.mem_map.mp member
      exact (digitChar_facts d d.isLt).1
    have back : (frac.map fun d : Fin 10 => Nat.digitChar d).map (fun c => Fin.ofNat 10 (c.toNat - '0'.toNat)) = frac := by
      rw [List.map_map]
      refine (List.map_congr_left fun d _ => ?_).trans (List.map_id frac)
      apply Fin.ext
      show ((Nat.digitChar d).toNat - '0'.toNat) % 10 = d
      rw [(digitChar_facts d d.isLt).2.1, Nat.mod_eq_of_lt d.isLt]
    obtain ⟨taken, left⟩ := digits_append all stops
    rw [List.cons_append, fracAt, taken, left, back, if_neg]
    rwa [List.map_eq_nil_iff]

theorem padded_digits (n : Nat) : (∀ c ∈ padded n, c.isDigit = true) ∧ padded n ≠ [] ∧
    Nat.ofDigitChars 10 (padded n) 0 = n := by
  have whole : Nat.ofDigitChars 10 (Nat.toDigits 10 n) 0 = n := Nat.ofDigitChars_ten_toDigits
  unfold padded
  split
  · refine ⟨?_, ?_, ?_⟩
    · intro c member
      rcases List.mem_append.mp member with zero | digit
      · rw [List.mem_singleton.mp zero]
        decide
      · exact isDigit_toDigits n c digit
    · simp
    · rw [List.singleton_append, Nat.ofDigitChars_cons]
      exact whole
  · rw [List.nil_append]
    exact ⟨isDigit_toDigits n, Nat.toDigits_ne_nil, whole⟩

theorem expAt_dumps (exp : Option Int) {rest : List Char} (stops : Stops rest) :
    expAt (dumpsExp exp ++ rest) = (exp, rest) := by
  cases exp with
  | none =>
    cases rest with
    | nil => rfl
    | cons c rest =>
      obtain ⟨-, -, e, E⟩ := stops c rfl
      have other : ¬ ((c = 'e' ∨ c = 'E') ∧ digits (signAt rest).2 ≠ []) := by
        rintro ⟨rfl | rfl, -⟩
        · exact e rfl
        · exact E rfl
      rw [dumpsExp, List.nil_append, expAt]
      dsimp only
      rw [if_neg other]
  | some e =>
    obtain ⟨all, nonempty, whole⟩ := padded_digits e.natAbs
    obtain ⟨taken, left⟩ := digits_append all stops.noDigit
    have sign : signAt ((if e < 0 then '-' else '+') :: (padded e.natAbs ++ rest)) =
        (decide (e < 0), padded e.natAbs ++ rest) := by
      by_cases negative : e < 0
      · rw [if_pos negative, signAt, decide_eq_true negative]
      · rw [if_neg negative, signAt, decide_eq_false negative]
    rw [dumpsExp, List.cons_append, List.cons_append, expAt, sign]
    dsimp only
    rw [taken, left, whole, if_pos ⟨Or.inl rfl, nonempty⟩]
    congr 2
    by_cases negative : e < 0
    · rw [if_pos (decide_eq_true negative)]
      omega
    · rw [if_neg (by rw [decide_eq_false negative]; nofun)]
      omega

theorem head_toDigits_append (n : Nat) (rest : List Char) :
    ∃ c s, Nat.toDigits 10 n ++ rest = c :: s ∧ c.isDigit = true := by
  obtain ⟨c, s, front⟩ := List.exists_cons_of_ne_nil (Nat.toDigits_ne_nil (n := n) (b := 10))
  refine ⟨c, s ++ rest, by rw [front, List.cons_append], ?_⟩
  apply isDigit_toDigits n
  rw [front]
  exact List.mem_cons_self

/-- A number behind its sign. -/
theorem numberAt_parts (negative : Bool) (whole : Nat) (frac : List (Fin 10)) (exp : Option Int) {rest : List Char}
    (stops : Stops rest) :
    numberAt ((if negative then ['-'] else []) ++ Nat.toDigits 10 whole ++ dumpsFrac frac ++ dumpsExp exp ++ rest) =
      some (if float : frac ≠ [] ∨ exp.isSome then .float ⟨negative, whole, frac, exp, float⟩
        else .int (if negative then -whole else whole), rest) := by
  have behindFrac : NoDigit (dumpsExp exp ++ rest) ∧ (dumpsExp exp ++ rest).head? ≠ some '.' := by
    cases exp with
    | none =>
      refine ⟨stops.noDigit, fun point => ?_⟩
      exact (stops '.' point).2.1 rfl
    | some e => exact ⟨noDigit_cons (by decide), by simp [dumpsExp]⟩
  have behindWhole : NoDigit (dumpsFrac frac ++ (dumpsExp exp ++ rest)) := by
    unfold dumpsFrac
    split
    · exact behindFrac.1
    · exact noDigit_cons (by decide)
  have unsigned : ∀ s, (if (Nat.toDigits 10 whole ++ s).head? = some '-' then (true, (Nat.toDigits 10 whole ++ s).tail)
      else (false, Nat.toDigits 10 whole ++ s)) = (false, Nat.toDigits 10 whole ++ s) := by
    intro s
    obtain ⟨c, t, front, digit⟩ := head_toDigits_append whole s
    rw [front, List.head?_cons, if_neg]
    intro minus
    rw [Option.some.inj minus] at digit
    exact absurd digit (by decide)
  have sign : ∀ s, (if ((if negative then ['-'] else []) ++ (Nat.toDigits 10 whole ++ s)).head? = some '-'
      then (true, ((if negative then ['-'] else []) ++ (Nat.toDigits 10 whole ++ s)).tail)
      else (false, (if negative then ['-'] else []) ++ (Nat.toDigits 10 whole ++ s))) =
        (negative, Nat.toDigits 10 whole ++ s) := by
    intro s
    cases negative with
    | true => rfl
    | false => exact unsigned s
  simp only [List.append_assoc]
  rw [numberAt, sign]
  dsimp only [bind]
  rw [wholeAt_toDigits whole behindWhole, Option.bind_some]
  dsimp only
  rw [fracAt_digits frac behindFrac.1 behindFrac.2]
  dsimp only
  rw [expAt_dumps exp stops]
  dsimp only
  split <;> rfl

theorem numberAt_dumpsFloat (lit : FloatLit) {rest : List Char} (stops : Stops rest) :
    numberAt (dumpsFloat lit ++ rest) = some (.float lit, rest) := by
  rw [dumpsFloat, numberAt_parts lit.negative lit.whole lit.frac lit.exp stops, dif_pos lit.float]

theorem toList_toString (z : Int) :
    (toString z).toList = (if z < 0 then ['-'] else []) ++ Nat.toDigits 10 z.natAbs := by
  cases z with
  | ofNat n =>
    have sign : ¬ Int.ofNat n < 0 := (Int.natCast_nonneg n).not_gt
    rw [if_neg sign]
    exact Nat.toList_repr
  | negSucc n =>
    rw [if_pos (by omega)]
    show ("-" ++ (n + 1).repr).toList = _
    rw [String.toList_append, Nat.toList_repr]
    rfl

theorem numberAt_toString (z : Int) {rest : List Char} (stops : Stops rest) :
    numberAt ((toString z).toList ++ rest) = some (.int z, rest) := by
  have parts := numberAt_parts (decide (z < 0)) z.natAbs [] none stops
  simp only [dumpsFrac, dumpsExp, if_pos, List.append_nil, decide_eq_true_eq] at parts
  rw [toList_toString, parts, dif_neg (by simp)]
  congr 3
  split
  · omega
  · omega

/-! ## Values -/

/-- How a value starts. -/
def Front (c : Char) : Prop := isBlank c = false ∧ c ≠ ']' ∧ c ≠ '\x7d'

/-- How a number starts. -/
def Numeral (c : Char) : Prop := c.isDigit = true ∨ c = '-'

instance (c : Char) : Decidable (Numeral c) := inferInstanceAs (Decidable (_ ∨ _))

theorem Numeral.ne {c d : Char} (numeral : Numeral c) (other : ¬ Numeral d) : c ≠ d := by
  rintro rfl
  exact other numeral

theorem Numeral.front {c : Char} (numeral : Numeral c) : Front c := by
  refine ⟨?_, numeral.ne (by decide), numeral.ne (by decide)⟩
  simp only [isBlank, Bool.or_eq_false_iff, beq_eq_false_iff_ne]
  exact ⟨⟨⟨numeral.ne (by decide), numeral.ne (by decide)⟩, numeral.ne (by decide)⟩, numeral.ne (by decide)⟩

/-- A digit is in front, or behind a minus. -/
def Leads (c : Char) (s : List Char) : Prop := c.isDigit = true ∨ c = '-' ∧ ∃ d t, s = d :: t ∧ d.isDigit = true

theorem Leads.numeral {c : Char} {s : List Char} (leads : Leads c s) : Numeral c := leads.imp_right And.left

theorem Leads.append {c : Char} {s : List Char} (leads : Leads c s) (q : List Char) : Leads c (s ++ q) := by
  rcases leads with digit | ⟨minus, d, t, rfl, digit⟩
  · exact Or.inl digit
  · exact Or.inr ⟨minus, d, t ++ q, rfl, digit⟩

/-- A number starts with a digit, or with a minus and a digit. -/
theorem signed_front (negative : Bool) (whole : Nat) (s : List Char) :
    ∃ c t, (if negative then ['-'] else []) ++ Nat.toDigits 10 whole ++ s = c :: t ∧ Leads c t := by
  obtain ⟨c, t, front, digit⟩ := head_toDigits_append whole s
  cases negative with
  | true => exact ⟨'-', _, rfl, Or.inr ⟨rfl, c, t, front, digit⟩⟩
  | false => exact ⟨c, t, front, Or.inl digit⟩

theorem float_front (lit : FloatLit) : ∃ c s, dumpsFloat lit = c :: s ∧ Leads c s := by
  rw [dumpsFloat, List.append_assoc]
  exact signed_front lit.negative lit.whole _

theorem int_front (z : Int) : ∃ c s, (toString z).toList = c :: s ∧ Leads c s := by
  obtain ⟨c, s, front, number⟩ := signed_front (decide (z < 0)) z.natAbs []
  rw [List.append_nil] at front
  simp only [decide_eq_true_eq] at front
  exact ⟨c, s, (toList_toString z).trans front, number⟩

theorem dumps_front (j : Json) : ∃ c s, dumps j = c :: s ∧ Front c := by
  have quote : Front '"' := ⟨by decide, by decide, by decide⟩
  have bracket : Front '[' := ⟨by decide, by decide, by decide⟩
  have brace : Front '\x7b' := ⟨by decide, by decide, by decide⟩
  have letter : Front 'n' ∧ Front 't' ∧ Front 'f' :=
    ⟨⟨by decide, by decide, by decide⟩, ⟨by decide, by decide, by decide⟩, by decide, by decide, by decide⟩
  have capital : Front 'N' ∧ Front 'I' ∧ Front '-' :=
    ⟨⟨by decide, by decide, by decide⟩, ⟨by decide, by decide, by decide⟩, by decide, by decide, by decide⟩
  cases j with
  | null => exact ⟨'n', ['u', 'l', 'l'], rfl, letter.1⟩
  | bool b =>
    cases b with
    | true => exact ⟨'t', ['r', 'u', 'e'], rfl, letter.2.1⟩
    | false => exact ⟨'f', ['a', 'l', 's', 'e'], rfl, letter.2.2⟩
  | int z =>
    obtain ⟨c, s, front, leads⟩ := int_front z
    exact ⟨c, s, by rw [dumps, front], leads.numeral.front⟩
  | float lit =>
    obtain ⟨c, s, front, leads⟩ := float_front lit
    exact ⟨c, s, by rw [dumps, front], leads.numeral.front⟩
  | special c =>
    cases c with
    | nan => exact ⟨'N', ['a', 'N'], rfl, capital.1⟩
    | infinity => exact ⟨'I', ['n', 'f', 'i', 'n', 'i', 't', 'y'], rfl, capital.2.1⟩
    | minusInfinity => exact ⟨'-', ['I', 'n', 'f', 'i', 'n', 'i', 't', 'y'], rfl, capital.2.2⟩
  | str s => exact ⟨'"', _, by rw [dumps, dumpsString, List.cons_append], quote⟩
  | arr elements => exact ⟨'[', _, by rw [dumps, List.cons_append], bracket⟩
  | obj members => exact ⟨'\x7b', _, by rw [dumps, List.cons_append], brace⟩

theorem skip_cons {c : Char} {s : List Char} (plain : isBlank c = false) : skip (c :: s) = c :: s := by
  rw [skip, List.dropWhile_cons_of_neg (by simp [plain])]

theorem skip_dumps (j : Json) (rest : List Char) : skip (dumps j ++ rest) = dumps j ++ rest := by
  obtain ⟨c, s, front, plain, -⟩ := dumps_front j
  rw [front, List.cons_append, skip_cons plain]

/-- A blank in front of a value is skipped. -/
theorem skip_blank_dumps (j : Json) (rest : List Char) : skip (' ' :: (dumps j ++ rest)) = dumps j ++ rest :=
  skip_dumps j rest

theorem dumpsElements_append (j : Json) (later : List Json) (rest : List Char) :
    ∃ more, dumpsElements (j :: later) ++ rest = dumps j ++ more := by
  cases later with
  | nil => exact ⟨rest, by rw [dumpsElements]⟩
  | cons k later => exact ⟨_, by rw [dumpsElements, List.append_assoc]⟩

theorem dumpsMembers_front (key : String) (j : Json) (later : List (String × Json)) :
    ∃ s, dumpsMembers ((key, j) :: later) = '"' :: s := by
  cases later with
  | nil => exact ⟨_, by rw [dumpsMembers, dumpsString, List.cons_append, List.cons_append]⟩
  | cons m later => exact ⟨_, by rw [dumpsMembers, dumpsString, List.cons_append, List.cons_append, List.cons_append]⟩

/-- No constant but the negative infinity begins as a number does, and that has no digit. -/
theorem constantAt_number {c : Char} {s : List Char} (leads : Leads c s) : constantAt (c :: s) = none := by
  have n : c ≠ 'n' := leads.numeral.ne (by decide)
  have t : c ≠ 't' := leads.numeral.ne (by decide)
  have f : c ≠ 'f' := leads.numeral.ne (by decide)
  have nan : c ≠ 'N' := leads.numeral.ne (by decide)
  have infinity : c ≠ 'I' := leads.numeral.ne (by decide)
  have minus : ¬ (c = '-' ∧ ['I', 'n', 'f', 'i', 'n', 'i', 't', 'y'] <+: s) := by
    rintro ⟨rfl, u, rfl⟩
    rcases leads with digit | ⟨-, d, t, split, digit⟩
    · exact absurd digit (by decide)
    · obtain rfl : 'I' = d := (List.cons.inj split).1
      exact absurd digit (by decide)
  have other : ¬ ['-', 'I', 'n', 'f', 'i', 'n', 'i', 't', 'y'] <+: c :: s := by
    rw [List.cons_prefix_cons]
    exact fun h => minus ⟨h.1.symm, h.2⟩
  simp [constantAt, constants, n.symm, t.symm, f.symm, nan.symm, infinity.symm, other]

theorem valueAt_number {c : Char} {s : List Char} (fuel : Nat) (leads : Leads c s) :
    valueAt (fuel + 1) (c :: s) = numberAt (c :: s) := by
  have quote : c ≠ '"' := leads.numeral.ne (by decide)
  have bracket : c ≠ '[' := leads.numeral.ne (by decide)
  have brace : c ≠ '\x7b' := leads.numeral.ne (by decide)
  rw [valueAt, if_neg quote, if_neg bracket, if_neg brace, constantAt_number leads]
  rfl

theorem stops_cons {c : Char} {rest : List Char} (other : c.isDigit = false ∧ c ≠ '.' ∧ c ≠ 'e' ∧ c ≠ 'E') :
    Stops (c :: rest) := by
  intro d member
  rw [List.head?_cons, Option.mem_some_iff] at member
  rw [← member]
  exact other

theorem valueAt_constant {word : List Char} {j : Json} (fuel : Nat) (rest : List Char)
    (member : (word, j) ∈ constants) : valueAt (fuel + 1) (word ++ rest) = some (j, rest) := by
  have plain : ∀ c ∈ ['n', 't', 'f', 'N', 'I', '-'], c ≠ '"' ∧ c ≠ '[' ∧ c ≠ '\x7b' :=
    Text.forall_of_all (by decide)
  have read : ∀ c s, c ∈ ['n', 't', 'f', 'N', 'I', '-'] → constantAt (c :: s) = some (j, rest) →
      valueAt (fuel + 1) (c :: s) = some (j, rest) := by
    intro c s letter found
    obtain ⟨quote, bracket, brace⟩ := plain c letter
    rw [valueAt, if_neg quote, if_neg bracket, if_neg brace, found]
    rfl
  have words : "null".toList = ['n', 'u', 'l', 'l'] ∧ "true".toList = ['t', 'r', 'u', 'e'] ∧
      "false".toList = ['f', 'a', 'l', 's', 'e'] ∧ "NaN".toList = ['N', 'a', 'N'] ∧
      "Infinity".toList = ['I', 'n', 'f', 'i', 'n', 'i', 't', 'y'] ∧
      "-Infinity".toList = ['-', 'I', 'n', 'f', 'i', 'n', 'i', 't', 'y'] := by
    simp
  simp only [constants, List.mem_cons, Prod.mk.injEq, List.not_mem_nil, or_false] at member
  rcases member with ⟨rfl, rfl⟩ | ⟨rfl, rfl⟩ | ⟨rfl, rfl⟩ | ⟨rfl, rfl⟩ | ⟨rfl, rfl⟩ | ⟨rfl, rfl⟩
  · rw [words.1]
    exact read 'n' _ (by decide) (by simp [constantAt, constants])
  · rw [words.2.1]
    exact read 't' _ (by decide) (by simp [constantAt, constants])
  · rw [words.2.2.1]
    exact read 'f' _ (by decide) (by simp [constantAt, constants])
  · rw [words.2.2.2.1]
    exact read 'N' _ (by decide) (by simp [constantAt, constants])
  · rw [words.2.2.2.2.1]
    exact read 'I' _ (by decide) (by simp [constantAt, constants])
  · rw [words.2.2.2.2.2]
    exact read '-' _ (by decide) (by simp [constantAt, constants])

theorem special_constant (c : Special) : (dumpsSpecial c, special c) ∈ constants := by
  cases c with
  | nan => exact .tail _ (.tail _ (.tail _ (.head _)))
  | infinity => exact .tail _ (.tail _ (.tail _ (.tail _ (.head _))))
  | minusInfinity => exact .tail _ (.tail _ (.tail _ (.tail _ (.tail _ (.head _)))))

/-- An array whose elements are read. -/
theorem valueAt_arr {fuel : Nat} {s rest : List Char} {elements : List Json} (more : (skip s).head? ≠ some ']')
    (read : elementsAt fuel (skip s) = some (elements, rest)) : valueAt (fuel + 1) ('[' :: s) = some (arr elements, rest) := by
  rw [valueAt, if_neg (by decide), if_pos rfl, if_neg more, read]
  rfl

/-- An object whose members are read. -/
theorem valueAt_obj {fuel : Nat} {s rest : List Char} {members : List (String × Json)}
    (more : (skip s).head? ≠ some '\x7d') (read : membersAt fuel (skip s) = some (members, rest)) :
    valueAt (fuel + 1) ('\x7b' :: s) = some (obj members, rest) := by
  rw [valueAt, if_neg (by decide), if_neg (by decide), if_pos rfl, if_neg more, read]
  rfl

/-- A member whose value is read, and what comes behind it. -/
theorem membersAt_member {fuel : Nat} {key : String} {j : Json} {after : List Char}
    (read : valueAt fuel (dumps j ++ after) = some (j, after)) :
    membersAt (fuel + 1) (dumpsString key ++ ':' :: ' ' :: (dumps j ++ after)) =
      match skip after with
      | '\x7d' :: rest => some ([(key, j)], rest)
      | ',' :: rest => (membersAt fuel (skip rest)).map fun (later, rest) => ((key, j) :: later, rest)
      | _ => none := by
  have name := stringAt_dumps key (':' :: ' ' :: (dumps j ++ after))
  have value := skip_blank_dumps j after
  have text : dumpsString key ++ ':' :: ' ' :: (dumps j ++ after) =
      '"' :: (key.toList.flatMap escape ++ '"' :: ':' :: ' ' :: (dumps j ++ after)) := by
    simp [dumpsString]
  have colon : skip (':' :: ' ' :: (dumps j ++ after)) = ':' :: ' ' :: (dumps j ++ after) := skip_cons (by decide)
  rw [text, membersAt]
  simp only [List.head?_cons, List.tail_cons, name, colon, value, read, bind, Option.bind, ne_eq, not_true_eq_false,
    if_false, pure]
  cases skip after with
  | nil => rfl
  | cons c rest =>
    by_cases brace : c = '\x7d'
    · rw [brace]
      rfl
    by_cases comma : c = ','
    · rw [comma]
      show ((membersAt fuel (skip rest)).bind fun p => some ((key, j) :: p.1, p.2)) = (membersAt fuel (skip rest)).map _
      cases membersAt fuel (skip rest) with
      | none => rfl
      | some later => rfl
    · simp [brace, comma]

mutual

/-- A dumped value is read, given two units of fuel for each character. -/
theorem valueAt_dumps (j : Json) (fuel : Nat) (rest : List Char) (enough : 2 * (dumps j).length < fuel)
    (stops : Stops rest) : valueAt fuel (dumps j ++ rest) = some (j, rest) := by
  obtain ⟨fuel, rfl⟩ : ∃ n, fuel = n + 1 := ⟨fuel - 1, by omega⟩
  match j with
  | null =>
    rw [dumps]
    exact valueAt_constant fuel rest (by simp [constants])
  | bool true =>
    rw [dumps]
    exact valueAt_constant fuel rest (by simp [constants])
  | bool false =>
    rw [dumps]
    exact valueAt_constant fuel rest (by simp [constants])
  | int z =>
    obtain ⟨c, s, front, leads⟩ := int_front z
    have read := numberAt_toString z stops
    rw [front, List.cons_append] at read
    rw [dumps, front, List.cons_append, valueAt_number fuel (leads.append rest), read]
  | float lit =>
    obtain ⟨c, s, front, leads⟩ := float_front lit
    have read := numberAt_dumpsFloat lit stops
    rw [front, List.cons_append] at read
    rw [dumps, front, List.cons_append, valueAt_number fuel (leads.append rest), read]
  | special c =>
    rw [dumps]
    exact valueAt_constant fuel rest (special_constant c)
  | str s =>
    have read := stringAt_dumps s rest
    rw [dumps, dumpsString, List.append_assoc, List.cons_append, valueAt, if_pos rfl, List.singleton_append, read]
    rfl
  | arr [] =>
    rw [dumps, valueAt.eq_def]
    rfl
  | arr (k :: later) =>
    rw [dumps, List.length_append, List.length_cons, List.length_singleton] at enough
    obtain ⟨more, split⟩ := dumpsElements_append k later (']' :: rest)
    obtain ⟨c, s, front, plain, bracket, -⟩ := dumps_front k
    have read := elementsAt_dumps k later fuel rest (by omega)
    have first : skip (dumpsElements (k :: later) ++ ']' :: rest) = dumpsElements (k :: later) ++ ']' :: rest := by
      rw [split, skip_dumps]
    rw [dumps, List.append_assoc, List.cons_append, List.singleton_append]
    apply valueAt_arr
    · rw [first, split, front]
      exact fun eq => bracket (Option.some.inj eq)
    · rw [first, read]
  | obj [] =>
    rw [dumps, valueAt.eq_def]
    rfl
  | obj ((key, k) :: later) =>
    rw [dumps, List.length_append, List.length_cons, List.length_singleton] at enough
    have read := membersAt_dumps key k later fuel rest (by omega)
    obtain ⟨s, front⟩ := dumpsMembers_front key k later
    rw [dumps, List.append_assoc, List.cons_append, List.singleton_append]
    rw [front, List.cons_append] at read ⊢
    apply valueAt_obj
    · rw [skip_cons (by decide)]
      exact fun eq => absurd (Option.some.inj eq) (by decide)
    · rw [skip_cons (by decide)]
      exact read
  termination_by fuel

theorem elementsAt_dumps (j : Json) (later : List Json) (fuel : Nat) (rest : List Char)
    (enough : 2 * (dumpsElements (j :: later)).length + 1 < fuel) :
    elementsAt fuel (dumpsElements (j :: later) ++ ']' :: rest) = some (j :: later, rest) := by
  obtain ⟨fuel, rfl⟩ : ∃ n, fuel = n + 1 := ⟨fuel - 1, by omega⟩
  match later with
  | [] =>
    rw [dumpsElements] at enough ⊢
    have read := valueAt_dumps j fuel (']' :: rest) (by omega) (stops_cons (by decide))
    rw [elementsAt, read]
    rfl
  | k :: later =>
    rw [dumpsElements] at enough ⊢
    rw [List.length_append, List.length_cons, List.length_cons] at enough
    have read := valueAt_dumps j fuel (',' :: ' ' :: (dumpsElements (k :: later) ++ ']' :: rest)) (by omega)
      (stops_cons (by decide))
    obtain ⟨more, split⟩ := dumpsElements_append k later (']' :: rest)
    have next : skip (' ' :: (dumpsElements (k :: later) ++ ']' :: rest)) = dumpsElements (k :: later) ++ ']' :: rest := by
      rw [split, skip_blank_dumps]
    have tail := elementsAt_dumps k later fuel rest (by omega)
    rw [List.append_assoc, List.cons_append, List.cons_append, elementsAt, read]
    show (elementsAt fuel (skip (' ' :: _))).bind _ = _
    rw [next, tail]
    rfl
  termination_by fuel

theorem membersAt_dumps (key : String) (j : Json) (later : List (String × Json)) (fuel : Nat) (rest : List Char)
    (enough : 2 * (dumpsMembers ((key, j) :: later)).length + 1 < fuel) :
    membersAt fuel (dumpsMembers ((key, j) :: later) ++ '\x7d' :: rest) = some ((key, j) :: later, rest) := by
  obtain ⟨fuel, rfl⟩ : ∃ n, fuel = n + 1 := ⟨fuel - 1, by omega⟩
  match later with
  | [] =>
    rw [dumpsMembers] at enough ⊢
    rw [List.length_append, List.length_cons, List.length_cons] at enough
    have read := valueAt_dumps j fuel ('\x7d' :: rest) (by omega) (stops_cons (by decide))
    rw [List.append_assoc, List.cons_append, List.cons_append, membersAt_member read]
    rfl
  | (name, k) :: later =>
    rw [dumpsMembers] at enough ⊢
    simp only [List.length_append, List.length_cons] at enough
    have read := valueAt_dumps j fuel (',' :: ' ' :: (dumpsMembers ((name, k) :: later) ++ '\x7d' :: rest))
      (by omega) (stops_cons (by decide))
    have tail := membersAt_dumps name k later fuel rest (by omega)
    have next : skip (' ' :: (dumpsMembers ((name, k) :: later) ++ '\x7d' :: rest)) =
        dumpsMembers ((name, k) :: later) ++ '\x7d' :: rest := by
      obtain ⟨s, front⟩ := dumpsMembers_front name k later
      have plain : isBlank '"' = false := by decide
      rw [front, List.cons_append]
      exact skip_cons plain
    simp only [List.append_assoc, List.cons_append]
    rw [membersAt_member read]
    show (membersAt fuel (skip (' ' :: _))).map _ = _
    rw [next, tail]
    rfl
  termination_by fuel

end

/-- What is dumped is loaded. -/
theorem loads_dumps (j : Json) : loads (dumps j) = some j := by
  have front := skip_dumps j []
  have read := valueAt_dumps j (2 * (dumps j).length + 2) [] (by omega) nofun
  rw [List.append_nil] at front read
  rw [loads, front, read]
  rfl

end Python.Json
