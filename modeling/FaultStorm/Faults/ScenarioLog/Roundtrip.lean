import FaultStorm.Faults.ScenarioLog

/-!
# Written lines are read back

`_parse_log` on the text of a log whose lines `_write_action` wrote returns their actions,
as far as their parameter strings tell them.
-/

namespace FaultStorm

open Python Python.Text

variable {β ω : Type}

/-! ## The timestamp -/

theorem stampChar_digit {c : Char} (digit : c.isDigit) : stampChar c = true := by
  rw [stampChar, decimalValue_digit digit]
  rfl

theorem stampChar_padded {width n : Nat} {c : Char} (member : c ∈ padded width n) : stampChar c = true := by
  rw [padded, List.leftpad, List.mem_append] at member
  rcases member with pad | digit
  · rw [List.eq_of_mem_replicate pad]
    decide
  · exact stampChar_digit (Nat.isDigit_of_mem_toDigits (by omega) (by omega) digit)

theorem stampChar_timestamp (t : DateTime) {c : Char} (member : c ∈ timestamp t) : stampChar c = true := by
  have fraction : ∀ c ∈ (padded 6 t.microsecond).rdrop 3, stampChar c = true := fun c member =>
    stampChar_padded (List.mem_of_mem_take member)
  simp only [timestamp, List.mem_append, List.mem_cons, or_assoc] at member
  rcases member with h | rfl | h | rfl | h | rfl | h | rfl | h | rfl | h | rfl | h
  all_goals first | decide | exact stampChar_padded h | exact fraction c h

theorem timestamp_ne_nil (t : DateTime) : timestamp t ≠ [] := by
  simp [timestamp]

/-- A pattern that starts with `^` removes nothing after the first position. -/
theorem removeFrom_start {r : Regex} (fuel : Nat) {before : Char} {rest : List Char} :
    Regex.removeFrom (.seq .start r) fuel ⟨some before, rest⟩ = rest := by
  induction fuel generalizing before rest with
  | zero => rfl
  | succ fuel ih =>
    have miss : (Regex.seq .start r).matchAt ⟨some before, rest⟩ = none := rfl
    cases rest with
    | nil => simp [Regex.removeFrom, miss]
    | cons c rest => simp [Regex.removeFrom, miss, ih]

/-- The timestamp of a line is removed with the space after it. -/
theorem remove_timestamp {stamp : List Char} (rest : List Char) (nonempty : stamp ≠ []) (chars : ∀ c ∈ stamp, stampChar c = true)
    (first : ∀ h : rest ≠ [], isSpace (rest.head h) = false) :
    timestampRe.remove ('[' :: stamp ++ "] ".toList ++ rest) = rest := by
  obtain ⟨c, cs, rfl⟩ := List.exists_cons_of_ne_nil nonempty
  have spaces : Regex.runGreedy isSpace (fun d => some (d, ([] : Groups))) (some ']') ([' '] ++ rest) =
      some (⟨some ' ', rest⟩, []) :=
    Regex.runGreedy_stop (forall_of_all (by decide)) first rfl
  have found : timestampRe.matchAt ⟨none, '[' :: (c :: cs) ++ "] ".toList ++ rest⟩ =
      some (⟨some ' ', rest⟩, []) := by
    have stamped : Regex.runGreedy stampChar
        (fun d => Regex.run (.seq (.char (· == ']')) (.many true isSpace)) d ([] : Groups) fun d g => some (d, g))
        (some c) (cs ++ (']' :: ' ' :: rest)) = some (⟨some ' ', rest⟩, []) := by
      refine Regex.runGreedy_stop (fun d member => chars d (List.mem_cons_of_mem c member))
        (fun _ => rfl) ?_
      exact spaces
    have one : stampChar c = true := chars c List.mem_cons_self
    have text : '[' :: (c :: cs) ++ "] ".toList ++ rest = '[' :: c :: (cs ++ (']' :: ' ' :: rest)) := by
      simp
    rw [text, Regex.matchAt, timestampRe]
    simp only [Regex.run, Regex.some1, Option.isNone_none, if_true, one]
    exact stamped
  rw [Regex.remove, Regex.removeFrom, found]
  simp only
  rw [if_pos (by simp; omega)]
  exact removeFrom_start _

/-! ## One line -/

/-- A text that can stand as the name of an action. -/
def PlainName (name : List Char) : Prop := Word name ∧ ∀ c ∈ name.head?, c ≠ '#' ∧ c ≠ '+' ∧ c ≠ '-'

instance (name : List Char) : Decidable (PlainName name) :=
  have : Decidable (∀ c ∈ name.head?, c ≠ '#' ∧ c ≠ '+' ∧ c ≠ '-') := Option.decidableForallMem name.head?
  inferInstanceAs (Decidable (_ ∧ _))

/-- A text that can stand as the parameters of an action. -/
def PlainParams (params : List Char) : Prop :=
  (∃ c rest, params = c :: rest ∧ isSpace c = false) ∧ OneLine params

/-- What `_parse_log` makes of a line after its timestamp. -/
theorem parseLine_stamped {stamp line : List Char} (nonempty : stamp ≠ []) (chars : ∀ c ∈ stamp, stampChar c = true)
    {d : Char} {ds : List Char} (starts : line = d :: ds) (plain : isSpace d = false) (text : d ≠ '#') :
    parseLine ('[' :: stamp ++ "] ".toList ++ line) =
      let line := line.rdropWhile isSpace
      let isHeal := line.head? == some '-'
      let line := if line.head? == some '+' || isHeal then line.tail else line
      match splitOnce line with
      | [] => .error .indexError
      | [name] => .ok (some (isHeal, String.ofList name, ""))
      | name :: params :: _ => .ok (some (isHeal, String.ofList name, String.ofList params)) := by
  obtain ⟨ds', kept⟩ : ∃ ds', line.rdropWhile isSpace = d :: ds' := by
    rw [starts, ← strip_cons plain]
    exact strip_cons_head plain
  have stripped : strip ('[' :: stamp ++ "] ".toList ++ line) =
      '[' :: stamp ++ "] ".toList ++ line.rdropWhile isSpace := by
    have front : strip ('[' :: (stamp ++ "] ".toList ++ line)) =
        ('[' :: (stamp ++ "] ".toList ++ line)).rdropWhile isSpace := strip_cons (by decide)
    refine front.trans ?_
    exact rdropWhile_append (s := '[' :: (stamp ++ "] ".toList)) ⟨d, starts ▸ List.mem_cons_self, plain⟩
  have removed := remove_timestamp (line.rdropWhile isSpace) nonempty chars fun h => by
    simp only [kept, List.head_cons, plain]
  have visible : skipped (line.rdropWhile isSpace) = false := by
    rw [kept]
    simpa [skipped] using text
  have first : skipped ('[' :: stamp ++ "] ".toList ++ line.rdropWhile isSpace) = false := rfl
  rw [parseLine, stripped]
  generalize timestampRe.remove ('[' :: stamp ++ "] ".toList ++ line.rdropWhile isSpace) = left at removed ⊢
  subst removed
  refine (if_neg (by rw [first]; exact Bool.false_ne_true)).trans ?_
  exact if_neg (by rw [visible]; exact Bool.false_ne_true)

/-- The line of an action is read as its name and its parameters, without trailing space. -/
theorem parseLine_actionLine (t : DateTime) {a : FaultAction β ω} {healing : Bool}
    (name : PlainName a.cls.name.toList) (params : PlainParams (a.cls.serialize a.self).toList)
    (healed : healing = true → a.cls.healable = true) :
    parseLine (actionLine t a healing) =
      .ok (some (healing, a.cls.name, String.ofList (strip (a.cls.serialize a.self).toList))) := by
  obtain ⟨⟨c, rest, text, plain⟩, _⟩ := params
  obtain ⟨word, first⟩ := name
  obtain ⟨n, ns, letters⟩ := List.exists_cons_of_ne_nil word.1
  have given : a.cls.serialize a.self ≠ "" := by
    intro eq
    rw [eq] at text
    cases text
  have line : actionLine t a healing = '[' :: timestamp t ++ "] ".toList ++
      (linePrefix a.cls.healable healing ++ a.cls.name.toList ++ ' ' :: (a.cls.serialize a.self).toList) := by
    rw [actionLine, if_pos given]
    simp only [List.append_assoc]
  obtain ⟨k, eq⟩ := strip_cons_head (s := rest) plain
  rw [← text] at eq
  have trimmed : ∀ pre : List Char, (pre ++ a.cls.name.toList ++ ' ' :: (a.cls.serialize a.self).toList).rdropWhile isSpace =
      pre ++ (a.cls.name.toList ++ ' ' :: strip (a.cls.serialize a.self).toList) := by
    intro pre
    have last := rdropWhile_append (s := pre ++ a.cls.name.toList ++ [' ']) (t := (a.cls.serialize a.self).toList)
      ⟨c, text ▸ List.mem_cons_self, plain⟩
    rw [text, strip_cons plain, ← text]
    simpa using last
  have words : splitOnce (a.cls.name.toList ++ ' ' :: strip (a.cls.serialize a.self).toList) =
      [a.cls.name.toList, strip (a.cls.serialize a.self).toList] := by
    apply splitOnce_word_cons word
    · rw [eq]
      exact List.cons_ne_nil c k
    · intro h
      simp only [eq, List.head_cons, plain]
  have letter := first n (by rw [letters]; rfl)
  have plainName : isSpace n = false := word.2 n (by rw [letters]; exact List.mem_cons_self)
  rw [line]
  by_cases healable : a.cls.healable = true
  · cases healing with
    | false =>
      rw [parseLine_stamped (timestamp_ne_nil t) (fun c => stampChar_timestamp t) (d := '+')
        (by rw [healable]; rfl) (by decide) (by decide), trimmed, healable]
      simp [linePrefix, words]
    | true =>
      rw [parseLine_stamped (timestamp_ne_nil t) (fun c => stampChar_timestamp t) (d := '-')
        (by rw [healable]; rfl) (by decide) (by decide), trimmed, healable]
      simp [linePrefix, words]
  · cases healing with
    | true => exact absurd (healed rfl) healable
    | false =>
      rw [Bool.not_eq_true] at healable
      rw [parseLine_stamped (timestamp_ne_nil t) (fun c => stampChar_timestamp t) (d := n)
        (by rw [healable, letters]; rfl) plainName letter.1, trimmed, healable]
      have minus : (a.cls.name.toList ++ ' ' :: strip (a.cls.serialize a.self).toList).head? = some n := by
        rw [letters]
        rfl
      simp only [linePrefix, Bool.false_eq_true, if_false, List.nil_append, minus]
      have notPlus : (some n == some '+') = false := by simpa using letter.2.1
      have notMinus : (some n == some '-') = false := by simpa using letter.2.2
      simp [notPlus, notMinus, words]

/-! ## A whole log -/

/-- A line in its parts: the time it was written at, its action, and whether it is a heal. -/
structure Entry (β ω : Type) where
  time : DateTime
  action : FaultAction β ω
  healing : Bool

def Entry.line (x : Entry β ω) : List Char := actionLine x.time x.action x.healing

/-- The line of the action can be read back, and the object read from it is `obj`. -/
structure Readable (registry : FaultRegistry β ω) (dbNodes extraNodes : List String) (dcMap : DcMap)
    (a : FaultAction β ω) (obj : ActionObj β) : Prop where
  registered : registry.get? a.cls.name = some a.cls
  name : PlainName a.cls.name.toList
  params : PlainParams (a.cls.serialize a.self).toList
  reads : a.cls.deserialize (String.ofList (strip (a.cls.serialize a.self).toList)) dbNodes extraNodes dcMap =
    .ok obj

theorem oneLine_timestamp (t : DateTime) : OneLine (timestamp t) := by
  intro c member
  have stamp := stampChar_timestamp t member
  constructor <;> rintro rfl <;> exact absurd stamp (by decide)

theorem oneLine_linePrefix (healable healing : Bool) : OneLine (linePrefix healable healing) := by
  cases healable <;> cases healing <;> decide

theorem oneLine_headerLines (t : DateTime) : ∀ l ∈ headerLines t, OneLine l := by
  intro l member
  simp only [headerLines, List.mem_cons, List.not_mem_nil, or_false] at member
  rcases member with rfl | rfl | rfl | rfl | rfl
  · decide
  · exact OneLine.append (by decide) (oneLine_timestamp t)
  · decide
  · decide
  · decide

theorem parseLine_comment (text : List Char) : parseLine ('#' :: text) = .ok none := by
  obtain ⟨rest, eq⟩ := strip_cons_head (c := '#') (s := text) (by decide)
  rw [parseLine, eq]
  rfl

theorem parseLine_headerLines (t : DateTime) : ∀ l ∈ headerLines t, parseLine l = .ok none := by
  intro l member
  simp only [headerLines, List.mem_cons, List.not_mem_nil, or_false] at member
  rcases member with rfl | rfl | rfl | rfl | rfl
  · exact parseLine_comment _
  · exact parseLine_comment _
  · exact parseLine_comment _
  · exact parseLine_comment _
  · rfl

section Log

variable {registry : FaultRegistry β ω} {dbNodes extraNodes : List String} {dcMap : DcMap}

theorem Readable.oneLine {x : Entry β ω} {obj : ActionObj β}
    (readable : Readable registry dbNodes extraNodes dcMap x.action obj) : OneLine x.line := by
  have bracket : OneLine (['['] ++ timestamp x.time ++ "] ".toList ++
      (linePrefix x.action.cls.healable x.healing ++ x.action.cls.name.toList)) := by
    apply OneLine.append
    · exact (OneLine.append (by decide) (oneLine_timestamp x.time)).append (by decide)
    · exact OneLine.append (oneLine_linePrefix _ _) readable.name.1.oneLine
  unfold Entry.line actionLine
  dsimp only
  split
  · exact bracket.append (OneLine.append (s := [' ']) (by decide) readable.params.2)
  · exact bracket

theorem parseLines_skip {lines rest : List (List Char)} (skip : ∀ l ∈ lines, parseLine l = .ok none) (id : Nat) :
    parseLines registry dbNodes extraNodes dcMap id (lines ++ rest) =
      parseLines registry dbNodes extraNodes dcMap id rest := by
  induction lines with
  | nil => rfl
  | cons l lines ih =>
    rw [List.cons_append, parseLines, skip l List.mem_cons_self]
    exact ih fun m member => skip m (List.mem_cons_of_mem l member)

/-- The lines of readable actions are read as these actions, in their order. -/
theorem parseLines_entries (view : ActionObj β → ActionObj β) {entries : List (Entry β ω)}
    (readable : ∀ x ∈ entries, Readable registry dbNodes extraNodes dcMap x.action (view x.action.self))
    (healed : ∀ x ∈ entries, x.healing = true → x.action.cls.healable = true) (id : Nat) :
    ∃ commands, parseLines registry dbNodes extraNodes dcMap id (entries.map Entry.line) = .ok commands ∧
      commands.map (fun c => (c.1.cls, c.1.self, c.2)) =
        entries.map fun x => (x.action.cls, view x.action.self, x.healing) := by
  induction entries generalizing id with
  | nil => exact ⟨[], rfl, rfl⟩
  | cons x entries ih =>
    have here := readable x List.mem_cons_self
    obtain ⟨commands, parsed, same⟩ := ih (fun y member => readable y (List.mem_cons_of_mem x member))
      (fun y member => healed y (List.mem_cons_of_mem x member)) (id + 1)
    have line := parseLine_actionLine x.time here.name here.params (healed x List.mem_cons_self)
    have action : parseAction registry dbNodes extraNodes dcMap id x.action.cls.name
        (String.ofList (strip (x.action.cls.serialize x.action.self).toList)) =
          .ok ⟨id, x.action.cls, view x.action.self⟩ := by
      unfold parseAction
      rw [here.registered]
      simp only [here.reads]
      rfl
    refine ⟨(⟨id, x.action.cls, view x.action.self⟩, x.healing) :: commands, ?_, ?_⟩
    · rw [List.map_cons, parseLines, Entry.line, line]
      show (do
        let action ← parseAction registry dbNodes extraNodes dcMap id x.action.cls.name _
        let results ← parseLines registry dbNodes extraNodes dcMap (id + 1) (entries.map Entry.line)
        return (action, x.healing) :: results) = _
      rw [action, parsed]
      rfl
    · rw [List.map_cons, List.map_cons, same]

/-- The log of readable actions is accepted, and read as these actions in their order. -/
theorem parseLog_entries (view : ActionObj β → ActionObj β) {entries : List (Entry β ω)}
    (readable : ∀ x ∈ entries, Readable registry dbNodes extraNodes dcMap x.action (view x.action.self))
    (healed : ∀ x ∈ entries, x.healing = true → x.action.cls.healable = true) (t : DateTime) :
    ∃ commands, parseLog registry dbNodes extraNodes dcMap
        (fileText (headerLines t ++ entries.map Entry.line)) = .ok commands ∧
      commands.map (fun c => (c.1.cls, c.1.self, c.2)) =
        entries.map fun x => (x.action.cls, view x.action.self, x.healing) := by
  have lines : ∀ l ∈ headerLines t ++ entries.map Entry.line, OneLine l := by
    intro l member
    rcases List.mem_append.mp member with header | entry
    · exact oneLine_headerLines t l header
    · obtain ⟨x, among, rfl⟩ := List.mem_map.mp entry
      exact (readable x among).oneLine
  rw [parseLog, fileText, readLines_flatMap lines, parseLines_skip (parseLine_headerLines t)]
  exact parseLines_entries view readable healed 0

end Log

end FaultStorm
