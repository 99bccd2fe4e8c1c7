import FaultStorm.Python.Json.Roundtrip

/-!
# What follows does not change what was read

A reader that has found the end of its part finds the same end when the text goes on. Strings, arrays
and objects end with a character of their own, and a number ends where a separator follows. So the
text of an object is a JSON text only when it is all there.
-/

namespace Python.Json

variable {s rest q : List Char} {j : Json}

/-! ## Strings and blanks -/

theorem scanString_append {units : List Nat} (read : scanString s = some (units, rest)) (q : List Char) :
    scanString (s ++ q) = some (units, rest ++ q) := by
  induction s using scanString.induct generalizing units with
  | case1 => cases read
  | case2 s =>
    cases read
    rfl
  | case3 a b c d s ih =>
    rw [scanString] at read
    obtain ⟨unit, hex, later⟩ := Option.bind_eq_some_iff.mp read
    obtain ⟨⟨units', rest'⟩, scanned, eq⟩ := Option.map_eq_some_iff.mp later
    cases eq
    simp only [List.cons_append]
    rw [scanString, hex, Option.bind_some, ih scanned]
    rfl
  | case4 letter s other ih =>
    rw [scanString.eq_4 letter s other] at read
    obtain ⟨unit, found, later⟩ := Option.bind_eq_some_iff.mp read
    obtain ⟨⟨units', rest'⟩, scanned, eq⟩ := Option.map_eq_some_iff.mp later
    cases eq
    -- no escape of one letter is a `u`
    have plain : letter ≠ 'u' := by
      rintro rfl
      exact absurd found (by simp [show shortEscapes.lookup 'u' = none from rfl])
    simp only [List.cons_append]
    rw [scanString.eq_4 letter (s ++ q) fun _ _ _ _ _ eq => absurd eq plain, found, Option.bind_some, ih scanned]
    rfl
  | case5 c s quote unit letter control =>
    rw [scanString.eq_5 c s quote unit letter, if_pos control] at read
    cases read
  | case6 c s quote unit letter visible ih =>
    rw [scanString.eq_5 c s quote unit letter, if_neg visible] at read
    obtain ⟨⟨units', rest'⟩, scanned, eq⟩ := Option.map_eq_some_iff.mp read
    cases eq
    have plain : c ≠ '\\' := fun eq => visible (Or.inr eq)
    rw [List.cons_append, scanString.eq_5 c (s ++ q) quote (fun _ _ _ _ _ eq => absurd eq plain)
      (fun _ _ eq => absurd eq plain), if_neg visible, ih scanned]
    rfl

theorem stringAt_append {t : String} (read : stringAt s = some (t, rest)) (q : List Char) :
    stringAt (s ++ q) = some (t, rest ++ q) := by
  rw [stringAt] at read ⊢
  obtain ⟨⟨codes, rest'⟩, scanned, eq⟩ := Option.bind_eq_some_iff.mp read
  cases eq
  rw [scanString_append scanned q]
  rfl

theorem skip_append (more : skip s ≠ []) (q : List Char) : skip (s ++ q) = skip s ++ q := by
  rw [skip] at more ⊢
  rw [List.dropWhile_append, if_neg (by simpa using more)]
  rfl

theorem skip_append_cons {c : Char} (front : skip s = c :: rest) (q : List Char) : skip (s ++ q) = c :: (rest ++ q) := by
  rw [skip_append (by rw [front]; exact List.cons_ne_nil c rest), front, List.cons_append]

/-! ## Numbers -/

/-- A separator follows. -/
def Separated (rest : List Char) : Prop := ∃ c ∈ rest.head?, isBlank c = true ∨ c = ',' ∨ c = ']' ∨ c = '\x7d'

theorem separated_of_skip {c : Char} {after : List Char} (front : skip rest = c :: after)
    (separator : c = ',' ∨ c = ']' ∨ c = '\x7d') : Separated rest := by
  cases rest with
  | nil => cases front
  | cons d rest =>
    refine ⟨d, rfl, ?_⟩
    cases blank : isBlank d with
    | true => exact Or.inl rfl
    | false =>
      rw [skip_cons blank] at front
      cases front
      exact Or.inr separator

theorem digits_append_of_ne (more : s.dropWhile Char.isDigit ≠ []) (q : List Char) :
    digits (s ++ q) = digits s ∧ (s ++ q).dropWhile Char.isDigit = s.dropWhile Char.isDigit ++ q := by
  constructor
  · rw [digits, List.takeWhile_append, if_neg]
    · rfl
    · intro all
      have split := congrArg List.length (List.takeWhile_append_dropWhile (p := Char.isDigit) (l := s))
      rw [List.length_append, all] at split
      exact more (List.length_eq_zero_iff.mp (by omega))
  · rw [List.dropWhile_append, if_neg (by simpa using more)]

theorem separated_ne_nil (separated : Separated rest) : rest ≠ [] := by
  rintro rfl
  obtain ⟨c, front, -⟩ := separated
  cases front

/-- What begins the end of a number is no separator. -/
theorem Separated.head (separated : Separated rest) {c : Char} (front : c ∈ rest.head?) :
    c ≠ '.' ∧ c ≠ 'e' ∧ c ≠ 'E' := by
  obtain ⟨d, here, separator⟩ := separated
  obtain rfl : c = d := Option.some.inj (front.symm.trans here)
  refine ⟨?_, ?_, ?_⟩ <;> rintro rfl <;> exact absurd separator (by decide)

theorem wholeAt_append {n : Nat} (read : wholeAt s = some (n, rest)) (more : rest ≠ []) (q : List Char) :
    wholeAt (s ++ q) = some (n, rest ++ q) := by
  unfold wholeAt at read
  split at read
  · cases read
    rfl
  · rename_i nonzero
    split at read
    · cases read
    · rename_i some_digit
      cases read
      obtain ⟨taken, left⟩ := digits_append_of_ne more q
      rw [wholeAt, taken, left, if_neg some_digit]
      intro t eq
      cases s with
      | nil => exact some_digit rfl
      | cons c s => exact nonzero s (by rw [(List.cons.inj eq).1])

theorem fracAt_append {frac : List (Fin 10)} (read : fracAt s = (frac, rest)) (more : rest ≠ [])
    (point : rest.head? ≠ some '.') (q : List Char) : fracAt (s ++ q) = (frac, rest ++ q) := by
  unfold fracAt at read
  split at read
  · rename_i s
    split at read
    · cases read
      exact absurd rfl point
    · rename_i some_digit
      cases read
      obtain ⟨taken, left⟩ := digits_append_of_ne more q
      rw [List.cons_append, fracAt, taken, left, if_neg some_digit]
  · rename_i other
    cases read
    cases s with
    | nil => exact absurd rfl more
    | cons c s =>
      rw [List.cons_append, fracAt]
      exact fun t eq => other s (by rw [(List.cons.inj eq).1])

theorem signAt_append (more : s ≠ []) (q : List Char) : signAt (s ++ q) = ((signAt s).1, (signAt s).2 ++ q) := by
  cases s with
  | nil => exact absurd rfl more
  | cons c s =>
    by_cases minus : c = '-'
    · rw [minus]
      rfl
    by_cases plus : c = '+'
    · rw [plus]
      rfl
    · rw [List.cons_append, signAt, signAt]
      · rfl
      · exact fun _ eq => minus (List.cons.inj eq).1
      · exact fun _ eq => plus (List.cons.inj eq).1
      · exact fun _ eq => minus (List.cons.inj eq).1
      · exact fun _ eq => plus (List.cons.inj eq).1

/-- The exponent ends where a separator follows, and what it begins with is no point. -/
theorem expAt_append {exp : Option Int} (read : expAt s = (exp, rest)) (separated : Separated rest) (q : List Char) :
    expAt (s ++ q) = (exp, rest ++ q) ∧ s ≠ [] ∧ s.head? ≠ some '.' := by
  cases s with
  | nil =>
    cases read
    exact absurd rfl (separated_ne_nil separated)
  | cons e s =>
    rw [expAt] at read
    dsimp only at read
    refine ⟨?_, List.cons_ne_nil e s, ?_⟩
    · rw [List.cons_append, expAt]
      dsimp only
      split at read
      · rename_i exponent
        obtain ⟨letter, some_digit⟩ := exponent
        cases read
        have more : s ≠ [] := by
          rintro rfl
          exact some_digit rfl
        obtain ⟨taken, left⟩ := digits_append_of_ne (separated_ne_nil separated) q
        rw [signAt_append more]
        dsimp only
        rw [taken, left, if_pos ⟨letter, some_digit⟩]
      · cases read
        obtain ⟨-, e', E'⟩ := separated.head rfl
        rw [if_neg]
        · rfl
        · rintro ⟨rfl | rfl, -⟩
          · exact e' rfl
          · exact E' rfl
    · intro point
      obtain rfl : e = '.' := Option.some.inj point
      rw [if_neg (by rintro ⟨dot | dot, -⟩ <;> cases dot)] at read
      cases read
      exact (separated.head rfl).1 rfl

/-- The text behind an optional minus. -/
def unsigned (s : List Char) : Bool × List Char := if s.head? = some '-' then (true, s.tail) else (false, s)

theorem numberAt_eq (s : List Char) :
    numberAt s = (wholeAt (unsigned s).2).bind fun (whole, after) =>
      some (if float : (fracAt after).1 ≠ [] ∨ (expAt (fracAt after).2).1.isSome then
        .float ⟨(unsigned s).1, whole, (fracAt after).1, (expAt (fracAt after).2).1, float⟩
        else .int (if (unsigned s).1 then -whole else whole), (expAt (fracAt after).2).2) := by
  rw [numberAt]
  show (wholeAt (unsigned s).2).bind _ = _
  refine Option.bind_congr fun read _ => ?_
  dsimp only
  split <;> rfl

/-- The parts of a number that was read. -/
theorem numberAt_eq_some_iff : numberAt s = some (j, rest) ↔ ∃ whole after frac after' exp,
    wholeAt (unsigned s).2 = some (whole, after) ∧ fracAt after = (frac, after') ∧ expAt after' = (exp, rest) ∧
      j = if float : frac ≠ [] ∨ exp.isSome then .float ⟨(unsigned s).1, whole, frac, exp, float⟩
        else .int (if (unsigned s).1 then -whole else whole) := by
  rw [numberAt_eq, Option.bind_eq_some_iff]
  constructor
  · rintro ⟨⟨whole, after⟩, read, eq⟩
    cases eq
    exact ⟨whole, after, _, _, _, read, rfl, rfl, rfl⟩
  · rintro ⟨whole, after, frac, after', exp, read, fraction, exponent, rfl⟩
    refine ⟨(whole, after), read, ?_⟩
    simp only [fraction, exponent]

theorem unsigned_append (more : s ≠ []) (q : List Char) : unsigned (s ++ q) = ((unsigned s).1, (unsigned s).2 ++ q) := by
  cases s with
  | nil => exact absurd rfl more
  | cons c s =>
    unfold unsigned
    rw [List.cons_append, List.head?_cons, List.head?_cons]
    split <;> rfl

theorem wholeAt_front {n : Nat} (read : wholeAt s = some (n, rest)) : ∃ c t, s = c :: t ∧ c.isDigit = true := by
  unfold wholeAt at read
  split at read
  · exact ⟨'0', _, rfl, by decide⟩
  · split at read
    · cases read
    · rename_i some_digit
      cases s with
      | nil => exact absurd rfl some_digit
      | cons c s =>
        refine ⟨c, s, rfl, ?_⟩
        by_contra other
        exact some_digit (List.takeWhile_cons_of_neg other)

/-- A number begins with a digit, or with a minus and a digit. -/
theorem leads_of_numberAt (read : numberAt s = some (j, rest)) : ∃ c t, s = c :: t ∧ Leads c t := by
  obtain ⟨whole, after, -, -, -, read, -⟩ := numberAt_eq_some_iff.mp read
  unfold unsigned at read
  split at read
  · rename_i minus
    cases s with
    | nil => cases minus
    | cons c s =>
      obtain ⟨d, t, front, digit⟩ := wholeAt_front read
      exact ⟨c, s, rfl, Or.inr ⟨Option.some.inj minus, d, t, front, digit⟩⟩
  · obtain ⟨c, t, front, digit⟩ := wholeAt_front read
    exact ⟨c, t, front, Or.inl digit⟩

theorem numberAt_append (read : numberAt s = some (j, rest)) (separated : Separated rest) (q : List Char) :
    numberAt (s ++ q) = some (j, rest ++ q) := by
  obtain ⟨c, t, front, -⟩ := leads_of_numberAt read
  have more : s ≠ [] := by
    rw [front]
    exact List.cons_ne_nil c t
  obtain ⟨whole, after, frac, after', exp, digits, fraction, exponent, rfl⟩ := numberAt_eq_some_iff.mp read
  obtain ⟨exponent', some_after', point⟩ := expAt_append exponent separated q
  have some_after : after ≠ [] := by
    rintro rfl
    cases fraction
    exact some_after' rfl
  refine numberAt_eq_some_iff.mpr ⟨whole, after ++ q, frac, after' ++ q, exp, ?_, ?_, exponent', ?_⟩
  · rw [unsigned_append more]
    exact wholeAt_append digits some_after q
  · exact fracAt_append fraction some_after' point q
  · rw [unsigned_append more]

/-! ## Values -/

/-- The first letters of the constants tell them apart. -/
theorem constantAt_eq_some_iff : constantAt s = some (j, rest) ↔ ∃ word, (word, j) ∈ constants ∧ s = word ++ rest := by
  have words : constants = [(['n', 'u', 'l', 'l'], null), (['t', 'r', 'u', 'e'], bool true),
      (['f', 'a', 'l', 's', 'e'], bool false), (['N', 'a', 'N'], special .nan),
      (['I', 'n', 'f', 'i', 'n', 'i', 't', 'y'], special .infinity),
      (['-', 'I', 'n', 'f', 'i', 'n', 'i', 't', 'y'], special .minusInfinity)] := by
    simp [constants]
  constructor
  · intro found
    obtain ⟨⟨word, k⟩, member, read⟩ := List.exists_of_findSome?_eq_some found
    dsimp only at read
    split at read
    · rename_i begins
      cases read
      obtain ⟨t, rfl⟩ := begins
      exact ⟨word, member, by rw [List.drop_left]⟩
    · cases read
  · rintro ⟨word, member, rfl⟩
    rw [words] at member
    simp only [List.mem_cons, Prod.mk.injEq, List.not_mem_nil, or_false] at member
    rcases member with ⟨rfl, rfl⟩ | ⟨rfl, rfl⟩ | ⟨rfl, rfl⟩ | ⟨rfl, rfl⟩ | ⟨rfl, rfl⟩ | ⟨rfl, rfl⟩ <;>
      simp [constantAt, words]

/-- What is read behind a comma. -/
theorem behind_comma_iff {α : Type} {a : α} {l : List α} {more : Option (List α × List Char)} {next after : List Char}
    (P : List Char → Option (List α × List Char)) (comma : after = ',' :: next) (read : more = P next) :
    (more.bind fun p => some (a :: p.1, p.2)) = some (l, rest) ↔
      ∃ next later, after = ',' :: next ∧ P next = some (later, rest) ∧ l = a :: later := by
  subst read comma
  constructor
  · intro found
    obtain ⟨⟨later, rest'⟩, read, eq⟩ := Option.bind_eq_some_iff.mp found
    cases eq
    exact ⟨next, later, rfl, read, rfl⟩
  · rintro ⟨_, later, eq, read, rfl⟩
    cases eq
    rw [read]
    rfl

/-- The elements of an array that were read. -/
theorem elementsAt_succ_iff {fuel : Nat} {l : List Json} : elementsAt (fuel + 1) s = some (l, rest) ↔
    ∃ j after, valueAt fuel s = some (j, after) ∧
      ((skip after = ']' :: rest ∧ l = [j]) ∨
        ∃ next later, skip after = ',' :: next ∧ elementsAt fuel (skip next) = some (later, rest) ∧ l = j :: later) := by
  rw [elementsAt]
  simp only [Option.bind_eq_bind, Option.bind_eq_some_iff, Prod.exists]
  refine exists_congr fun j => exists_congr fun after => and_congr_right fun _ => ?_
  cases front : skip after with
  | nil => simp
  | cons c next =>
    by_cases bracket : c = ']'
    · subst bracket
      simp [eq_comm, and_comm]
    by_cases comma : c = ','
    · subst comma
      rw [or_iff_right (by simp)]
      exact behind_comma_iff (fun next => elementsAt fuel (skip next)) rfl rfl
    · simp [bracket, comma]

/-- The members of an object that were read. -/
theorem membersAt_succ_iff {fuel : Nat} {l : List (String × Json)} : membersAt (fuel + 1) s = some (l, rest) ↔
    ∃ key colon, s.head? = some '"' ∧ stringAt s.tail = some (key, colon) ∧ (skip colon).head? = some ':' ∧
      ∃ j after, valueAt fuel (skip (skip colon).tail) = some (j, after) ∧
      ((skip after = '\x7d' :: rest ∧ l = [(key, j)]) ∨
        ∃ next later, skip after = ',' :: next ∧ membersAt fuel (skip next) = some (later, rest) ∧
          l = (key, j) :: later) := by
  rw [membersAt]
  by_cases quote : s.head? = some '"'
  · simp only [quote, ne_eq, not_true_eq_false, if_false, Option.bind_eq_bind, Option.bind_eq_some_iff, Prod.exists,
      true_and]
    refine exists_congr fun key => exists_congr fun colon => ?_
    by_cases point : (skip colon).head? = some ':'
    · simp only [point, not_true_eq_false, if_false, Option.bind_eq_some_iff, Prod.exists, true_and]
      refine and_congr_right fun _ => exists_congr fun j => exists_congr fun after => and_congr_right fun _ => ?_
      cases front : skip after with
      | nil => simp
      | cons c next =>
        by_cases brace : c = '\x7d'
        · subst brace
          simp [eq_comm, and_comm]
        by_cases comma : c = ','
        · subst comma
          rw [or_iff_right (by simp)]
          exact behind_comma_iff (fun next => membersAt fuel (skip next)) rfl rfl
        · simp [brace, comma]
    · simp [point]
  · simp [quote]

/-- What a value begins with that has an end of its own. -/
def Closed (s : List Char) : Prop := ∃ c ∈ s.head?, c = '"' ∨ c = '[' ∨ c = '\x7b'

theorem valueAt_nil (fuel : Nat) : valueAt fuel [] = none := by
  cases fuel <;> rfl

theorem elementsAt_nil (fuel : Nat) : elementsAt fuel [] = none := by
  cases fuel with
  | zero => rfl
  | succ fuel =>
    rw [elementsAt, valueAt_nil]
    rfl

theorem membersAt_nil (fuel : Nat) : membersAt fuel [] = none := by
  cases fuel <;> rfl

theorem head?_append {s : List Char} (more : s ≠ []) (q : List Char) : (s ++ q).head? = s.head? := by
  cases s with
  | nil => exact absurd rfl more
  | cons c s => rfl

/-- With this much fuel, a reader of values reads the same when the text goes on. -/
structure Extends (q : List Char) (fuel : Nat) : Prop where
  value : ∀ {s j rest}, valueAt fuel s = some (j, rest) → Closed s ∨ Separated rest → ∀ {fuel'}, fuel ≤ fuel' →
    valueAt fuel' (s ++ q) = some (j, rest ++ q)
  elements : ∀ {s l rest}, elementsAt fuel s = some (l, rest) → ∀ {fuel'}, fuel ≤ fuel' →
    elementsAt fuel' (s ++ q) = some (l, rest ++ q)
  members : ∀ {s l rest}, membersAt fuel s = some (l, rest) → ∀ {fuel'}, fuel ≤ fuel' →
    membersAt fuel' (s ++ q) = some (l, rest ++ q)

section Step

variable {fuel fuel' : Nat}

theorem Extends.value_succ (ih : Extends q fuel) (read : valueAt (fuel + 1) s = some (j, rest))
    (bounded : Closed s ∨ Separated rest) (enough : fuel ≤ fuel') :
    valueAt (fuel' + 1) (s ++ q) = some (j, rest ++ q) := by
  cases s with
  | nil =>
    rw [valueAt_nil] at read
    cases read
  | cons c s =>
    rw [valueAt] at read
    by_cases quote : c = '"'
    · rw [if_pos quote] at read
      obtain ⟨⟨t, rest'⟩, string, eq⟩ := Option.map_eq_some_iff.mp read
      cases eq
      rw [List.cons_append, valueAt, if_pos quote, stringAt_append string q]
      rfl
    rw [if_neg quote] at read
    by_cases bracket : c = '['
    · subst bracket
      rw [if_pos rfl] at read
      by_cases empty : (skip s).head? = some ']'
      · rw [if_pos empty] at read
        cases read
        obtain ⟨after, front⟩ : ∃ after, skip s = ']' :: after := List.head?_eq_some_iff.mp empty
        rw [List.cons_append, valueAt, if_neg quote, if_pos rfl, skip_append_cons front q, front]
        rfl
      · rw [if_neg empty] at read
        obtain ⟨⟨l, rest'⟩, elements, eq⟩ := Option.map_eq_some_iff.mp read
        cases eq
        have more : skip s ≠ [] := by
          intro none
          rw [none, elementsAt_nil] at elements
          cases elements
        rw [List.cons_append]
        apply valueAt_arr
        · rwa [skip_append more, head?_append more]
        · rw [skip_append more]
          exact ih.elements elements enough
    rw [if_neg bracket] at read
    by_cases brace : c = '\x7b'
    · subst brace
      rw [if_pos rfl] at read
      by_cases empty : (skip s).head? = some '\x7d'
      · rw [if_pos empty] at read
        cases read
        obtain ⟨after, front⟩ : ∃ after, skip s = '\x7d' :: after := List.head?_eq_some_iff.mp empty
        rw [List.cons_append, valueAt, if_neg quote, if_neg bracket, if_pos rfl, skip_append_cons front q, front]
        rfl
      · rw [if_neg empty] at read
        obtain ⟨⟨l, rest'⟩, members, eq⟩ := Option.map_eq_some_iff.mp read
        cases eq
        have more : skip s ≠ [] := by
          intro none
          rw [none, membersAt_nil] at members
          cases members
        rw [List.cons_append]
        apply valueAt_obj
        · rwa [skip_append more, head?_append more]
        · rw [skip_append more]
          exact ih.members members enough
    rw [if_neg brace] at read
    have separated : Separated rest := by
      refine bounded.resolve_left ?_
      rintro ⟨d, front, here⟩
      obtain rfl := Option.some.inj front
      exact here.elim quote fun h => h.elim bracket brace
    cases constant : constantAt (c :: s) with
    | some found =>
      rw [constant] at read
      obtain rfl : found = (j, rest) := Option.some.inj read
      obtain ⟨word, member, split⟩ := constantAt_eq_some_iff.mp constant
      rw [split, List.append_assoc]
      exact valueAt_constant fuel' (rest ++ q) member
    | none =>
      rw [constant] at read
      have number : numberAt (c :: s) = some (j, rest) := read
      obtain ⟨d, t, front, leads⟩ := leads_of_numberAt number
      obtain ⟨rfl, rfl⟩ := List.cons.inj front
      rw [List.cons_append, valueAt_number fuel' (leads.append q), ← List.cons_append]
      exact numberAt_append number separated q

theorem Extends.elements_succ {l : List Json} (ih : Extends q fuel) (read : elementsAt (fuel + 1) s = some (l, rest))
    (enough : fuel ≤ fuel') : elementsAt (fuel' + 1) (s ++ q) = some (l, rest ++ q) := by
  obtain ⟨j, after, value, ⟨front, rfl⟩ | ⟨next, later, front, more, rfl⟩⟩ := elementsAt_succ_iff.mp read
  · have separated : Separated after := separated_of_skip front (Or.inr (Or.inl rfl))
    exact elementsAt_succ_iff.mpr ⟨j, after ++ q, ih.value value (Or.inr separated) enough,
      Or.inl ⟨skip_append_cons front q, rfl⟩⟩
  · have separated : Separated after := separated_of_skip front (Or.inl rfl)
    have some_next : skip next ≠ [] := by
      intro none
      rw [none, elementsAt_nil] at more
      cases more
    refine elementsAt_succ_iff.mpr ⟨j, after ++ q, ih.value value (Or.inr separated) enough,
      Or.inr ⟨next ++ q, later, skip_append_cons front q, ?_, rfl⟩⟩
    rw [skip_append some_next]
    exact ih.elements more enough

theorem Extends.members_succ {l : List (String × Json)} (ih : Extends q fuel)
    (read : membersAt (fuel + 1) s = some (l, rest)) (enough : fuel ≤ fuel') :
    membersAt (fuel' + 1) (s ++ q) = some (l, rest ++ q) := by
  obtain ⟨key, colon, quote, name, point, j, after, value, behind⟩ := membersAt_succ_iff.mp read
  obtain ⟨t, rfl⟩ := List.head?_eq_some_iff.mp quote
  obtain ⟨u, front⟩ := List.head?_eq_some_iff.mp point
  rw [front] at value
  have some_value : skip u ≠ [] := by
    intro none
    rw [List.tail_cons, none, valueAt_nil] at value
    cases value
  have point' : (skip (colon ++ q)).head? = some ':' := by
    rw [skip_append_cons front q]
    rfl
  have value' : Separated after → valueAt fuel' (skip (skip (colon ++ q)).tail) = some (j, after ++ q) := by
    intro separated
    rw [skip_append_cons front q, List.tail_cons, skip_append some_value]
    exact ih.value value (Or.inr separated) enough
  have name' : stringAt ('"' :: t ++ q).tail = some (key, colon ++ q) := stringAt_append name q
  rcases behind with ⟨close, rfl⟩ | ⟨next, later, comma, more, rfl⟩
  · have separated : Separated after := separated_of_skip close (Or.inr (Or.inr rfl))
    exact membersAt_succ_iff.mpr ⟨key, colon ++ q, rfl, name', point', j, after ++ q, value' separated,
      Or.inl ⟨skip_append_cons close q, rfl⟩⟩
  · have separated : Separated after := separated_of_skip comma (Or.inl rfl)
    have some_next : skip next ≠ [] := by
      intro none
      rw [none, membersAt_nil] at more
      cases more
    refine membersAt_succ_iff.mpr ⟨key, colon ++ q, rfl, name', point', j, after ++ q, value' separated,
      Or.inr ⟨next ++ q, later, skip_append_cons comma q, ?_, rfl⟩⟩
    rw [skip_append some_next]
    exact ih.members more enough

end Step

theorem extends_all (q : List Char) (fuel : Nat) : Extends q fuel := by
  induction fuel with
  | zero =>
    refine ⟨fun read => ?_, fun read => ?_, fun read => ?_⟩
    · rw [valueAt] at read
      cases read
    · rw [elementsAt] at read
      cases read
    · rw [membersAt] at read
      cases read
  | succ fuel ih =>
    refine ⟨fun read bounded n enough => ?_, fun read n enough => ?_, fun read n enough => ?_⟩
    · obtain ⟨m, rfl⟩ : ∃ m, n = m + 1 := ⟨n - 1, by omega⟩
      exact ih.value_succ read bounded (by omega)
    · obtain ⟨m, rfl⟩ : ∃ m, n = m + 1 := ⟨n - 1, by omega⟩
      exact ih.elements_succ read (by omega)
    · obtain ⟨m, rfl⟩ : ∃ m, n = m + 1 := ⟨n - 1, by omega⟩
      exact ih.members_succ read (by omega)

/-- The text of an object that is cut off is no JSON text. -/
theorem loads_cut {members : List (String × Json)} {p q : List Char} (split : p ++ q = dumps (obj members))
    (cut : q ≠ []) : loads p = none := by
  cases p with
  | nil => rfl
  | cons c p =>
    have front : c = '\x7b' := by
      rw [dumps] at split
      exact (List.cons.inj split).1
    subst front
    have whole : skip ('\x7b' :: p) = '\x7b' :: p := skip_cons (by decide)
    rw [loads, whole]
    cases read : valueAt (2 * ('\x7b' :: p).length + 2) ('\x7b' :: p) with
    | none => rfl
    | some found =>
      obtain ⟨j, rest⟩ := found
      have closed : Closed ('\x7b' :: p) := ⟨'\x7b', rfl, Or.inr (Or.inr rfl)⟩
      have more := (extends_all q _).value read (Or.inl closed) (by
        rw [← split, List.length_append]
        omega : 2 * ('\x7b' :: p).length + 2 ≤ 2 * (dumps (obj members)).length + 2)
      have all := valueAt_dumps (obj members) (2 * (dumps (obj members)).length + 2) [] (by omega) (by simp [Stops])
      rw [List.append_nil, ← split] at all
      rw [← split, all] at more
      -- the reader of the whole object leaves nothing behind it
      have nothing : [] = rest ++ q := (Prod.mk.inj (Option.some.inj more)).2
      exact absurd (List.append_eq_nil_iff.mp nothing.symm).2 cut

end Python.Json
