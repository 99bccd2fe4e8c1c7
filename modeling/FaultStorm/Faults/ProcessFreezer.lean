import FaultStorm.Faults.Builtin

/-!
# The flag file of the process freezer

`parseFlagFile` is what `process_freezer.sh` reads from a flag file, and `flagText` what a
freeze action leaves in one. The freezer gets the patterns of the action if each of them
can stand as a line of the patterns section.
-/

namespace FaultStorm

open Python

namespace ProcessFreezer

/-! ## Reading -/

/-- `[[:space:]]`. -/
def isBlank (c : Char) : Bool := c == ' ' || (9 ≤ c.toNat && c.toNat ≤ 13)

/-- A line such as `-n`, which `echo` takes as options and does not print. -/
def isEchoOption : List Char → Bool
  | '-' :: flags => ! flags.isEmpty && flags.all fun c => c == 'n' || c == 'e' || c == 'E'
  | _ => false

/-- `$(echo "$line" | sed 's/^[[:space:]]*//;s/[[:space:]]*$//')`. -/
def trim (line : List Char) : List Char := if isEchoOption line then [] else Text.stripWhile isBlank line

/-- The variables `parse_flag_file` sets. -/
structure FlagFile where
  freezeMin : List Char
  freezeMax : List Char
  pauseMin : List Char
  pauseMax : List Char
  patterns : List (List Char)
  deriving DecidableEq

/-- Their values before the file is read. -/
def FlagFile.default : FlagFile where
  freezeMin := "100".toList
  freezeMax := "3000".toList
  pauseMin := "100".toList
  pauseMax := "3000".toList
  patterns := []

/-- A line of the config section; an unknown key is only logged. -/
def FlagFile.setKey (f : FlagFile) (line : List Char) : FlagFile :=
  let key := line.takeWhile (· ≠ '=')
  let val := if '=' ∈ line then (line.dropWhile (· ≠ '=')).tail else line
  if key = "freeze_min_ms".toList then { f with freezeMin := val }
  else if key = "freeze_max_ms".toList then { f with freezeMax := val }
  else if key = "pause_min_ms".toList then { f with pauseMin := val }
  else if key = "pause_max_ms".toList then { f with pauseMax := val }
  else f

def configHeader : List Char := "[config]".toList

def patternsHeader : List Char := "[patterns]".toList

/-- One turn of the loop of `parse_flag_file`: whether the section is the patterns section, and
the variables. -/
def parseLine (state : Bool × FlagFile) (line : List Char) : Bool × FlagFile :=
  let line := trim line
  if line = [] then state
  else if line = configHeader then (false, state.2)
  else if line = patternsHeader then (true, state.2)
  else if state.1 then (true, { state.2 with patterns := state.2.patterns ++ [line] })
  else (false, state.2.setKey line)

/-- The lines `read` returns: a last line without its end is not among them. -/
def readLines (file : List Char) : List (List Char) := (file.splitOn '\n').dropLast

/-- `parse_flag_file`. -/
def parseFlagFile (file : List Char) : FlagFile := ((readLines file).foldl parseLine (false, .default)).2

/-! ## Writing -/

/-- The delimiter of the here-document. -/
def delimiter : List Char := "FREEZER_EOF".toList

/-- The lines of the flag file of a freeze action. -/
def flagLines (a : BaseFreezeAction) : List (List Char) :=
  (a.buildFlagContent.splitOn '\n').takeWhile (· ≠ delimiter)

/-- The flag file of a freeze action. -/
def flagText (a : BaseFreezeAction) : List Char := (flagLines a).flatMap (· ++ ['\n'])

/-- The here-document of the flag file ends before its last line. -/
def strays (a : BaseFreezeAction) : Bool := (a.buildFlagContent.splitOn '\n').contains delimiter

/-- A text that can stand as a line of the patterns section. -/
def PlainPattern (p : List Char) : Prop :=
  ('\n' ∉ p ∧ trim p = p) ∧ p ≠ [] ∧ p ≠ configHeader ∧ p ≠ patternsHeader ∧ p ≠ delimiter

instance (p : List Char) : Decidable (PlainPattern p) := inferInstanceAs (Decidable (_ ∧ _))

/-! ## Lines -/

theorem splitOn_terminated {lines : List (List Char)} (plain : ∀ l ∈ lines, '\n' ∉ l) :
    (lines.flatMap (· ++ ['\n'])).splitOn '\n' = lines ++ [[]] := by
  induction lines with
  | nil => rfl
  | cons l lines ih =>
    have rest := ih fun k member => plain k (List.mem_cons_of_mem l member)
    rw [List.flatMap_cons, List.append_assoc, List.singleton_append,
      List.splitOn_append_cons_self_of_not_mem (plain l List.mem_cons_self), rest]
    rfl

theorem readLines_terminated {lines : List (List Char)} (plain : ∀ l ∈ lines, '\n' ∉ l) :
    readLines (lines.flatMap (· ++ ['\n'])) = lines := by
  rw [readLines, splitOn_terminated plain, List.dropLast_concat]

/-- The parts of a split text do not contain the separator. -/
theorem not_mem_of_mem_splitOn {s : List Char} {c : Char} : ∀ l ∈ s.splitOn c, c ∉ l := by
  intro l member inside
  rw [List.splitOn_eq_splitOnP] at member
  have other := Text.splitOnP_plain s l member c inside
  simp at other

theorem readLines_flagText (a : BaseFreezeAction) : readLines (flagText a) = flagLines a := by
  apply readLines_terminated
  intro l member
  exact not_mem_of_mem_splitOn l (List.takeWhile_subset _ member)

/-- The lines of the config section. -/
def configLines (a : BaseFreezeAction) : List (List Char) :=
  ["freeze_min_ms=".toList ++ (toString a.freezeDurationRange.1).toList,
   "freeze_max_ms=".toList ++ (toString a.freezeDurationRange.2).toList,
   "pause_min_ms=".toList ++ (toString a.freezePauseRange.1).toList,
   "pause_max_ms=".toList ++ (toString a.freezePauseRange.2).toList]

/-- A line that starts with the first letter of a key, and is one. -/
structure KeyLine (line : List Char) : Prop where
  oneLine : '\n' ∉ line
  starts : line.head? = some 'f' ∨ line.head? = some 'p'

theorem keyLine_of_mem {a : BaseFreezeAction} : ∀ line ∈ configLines a, KeyLine line := by
  have number : ∀ (key : List Char) (z : Int), '\n' ∉ key → '\n' ∉ key ++ (toString z).toList := by
    intro key z plain member
    rcases List.mem_append.mp member with member | member
    · exact plain member
    · rcases Text.toString_chars z member with digit | sign
      · exact absurd digit (by decide)
      · exact absurd sign (by decide)
  intro line member
  simp only [configLines, List.mem_cons, List.not_mem_nil, or_false] at member
  rcases member with rfl | rfl | rfl | rfl
  · exact ⟨number _ _ (by decide), Or.inl rfl⟩
  · exact ⟨number _ _ (by decide), Or.inl rfl⟩
  · exact ⟨number _ _ (by decide), Or.inr rfl⟩
  · exact ⟨number _ _ (by decide), Or.inr rfl⟩

theorem splitOn_buildFlagContent {a : BaseFreezeAction} (plain : ∀ p ∈ a.processes, '\n' ∉ p.toList) :
    a.buildFlagContent.splitOn '\n' =
      configHeader :: configLines a ++ patternsHeader :: a.processes.map String.toList := by
  have parts : ∀ l ∈ configHeader :: configLines a ++ patternsHeader :: a.processes.map String.toList, '\n' ∉ l := by
    intro l member
    rcases List.mem_append.mp member with config | pattern
    · rcases List.mem_cons.mp config with rfl | key
      · decide
      · exact (keyLine_of_mem l key).oneLine
    · rcases List.mem_cons.mp pattern with rfl | pattern
      · decide
      · obtain ⟨p, among, rfl⟩ := List.mem_map.mp pattern
        exact plain p among
  exact List.splitOn_intercalate '\n' parts (List.cons_ne_nil _ _)

/-! ## Trimmed lines -/

theorem trim_cases (line : List Char) : trim line = [] ∨ trim line = Text.stripWhile isBlank line := by
  unfold trim
  split
  · exact Or.inl rfl
  · exact Or.inr rfl

/-- A line that starts with neither a blank nor a dash keeps its first character. -/
theorem trim_cons {c : Char} (rest : List Char) (plain : isBlank c = false) (dash : c ≠ '-') :
    ∃ rest', trim (c :: rest) = c :: rest' := by
  have option : isEchoOption (c :: rest) = false := by
    unfold isEchoOption
    split
    · rename_i eq
      exact absurd (List.cons.inj eq).1 dash
    · rfl
  obtain ⟨rest', eq⟩ := Text.stripWhile_cons_head (s := rest) plain
  refine ⟨rest', ?_⟩
  rw [trim, option, ← eq]
  rfl

theorem trim_subset (line : List Char) : trim line ⊆ line := by
  rcases trim_cases line with eq | eq
  · rw [eq]
    exact List.nil_subset _
  · rw [eq]
    exact Text.stripWhile_subset ..

/-! ## What is written is read -/

@[simp] theorem setKey_patterns (f : FlagFile) (line : List Char) : (f.setKey line).patterns = f.patterns := by
  unfold FlagFile.setKey
  extract_lets key val
  by_cases h1 : key = "freeze_min_ms".toList
  · rw [if_pos h1]
  by_cases h2 : key = "freeze_max_ms".toList
  · rw [if_neg h1, if_pos h2]
  by_cases h3 : key = "pause_min_ms".toList
  · rw [if_neg h1, if_neg h2, if_pos h3]
  by_cases h4 : key = "pause_max_ms".toList
  · rw [if_neg h1, if_neg h2, if_neg h3, if_pos h4]
  · rw [if_neg h1, if_neg h2, if_neg h3, if_neg h4]

/-- A line of the config section sets at most a range. -/
theorem parseLine_key {line : List Char} (key : KeyLine line) (f : FlagFile) :
    ∃ g : FlagFile, parseLine (false, f) line = (false, g) ∧ g.patterns = f.patterns := by
  obtain ⟨c, rest, rfl⟩ : ∃ c rest, line = c :: rest := by
    cases line with
    | nil => exact absurd key.starts (by simp)
    | cons c rest => exact ⟨c, rest, rfl⟩
  have first : c = 'f' ∨ c = 'p' := by simpa using key.starts
  have plain : isBlank c = false ∧ c ≠ '-' ∧ c ≠ '[' := by
    rcases first with rfl | rfl <;> decide
  obtain ⟨rest', eq⟩ := trim_cons rest plain.1 plain.2.1
  have other : ∀ header : List Char, header.head? = some '[' → c :: rest' ≠ header := by
    rintro header first rfl
    exact plain.2.2 (Option.some.inj first)
  refine ⟨f.setKey (c :: rest'), ?_, setKey_patterns f _⟩
  unfold parseLine
  rw [eq]
  dsimp only
  rw [if_neg (List.cons_ne_nil _ _), if_neg (other _ rfl), if_neg (other _ rfl), if_neg Bool.false_ne_true]

theorem foldl_keys {lines : List (List Char)} (keys : ∀ line ∈ lines, KeyLine line) (f : FlagFile) :
    ∃ g : FlagFile, lines.foldl parseLine (false, f) = (false, g) ∧ g.patterns = f.patterns := by
  induction lines generalizing f with
  | nil => exact ⟨f, rfl, rfl⟩
  | cons line lines ih =>
    obtain ⟨g, one, same⟩ := parseLine_key (keys line List.mem_cons_self) f
    obtain ⟨h, all, kept⟩ := ih (fun l member => keys l (List.mem_cons_of_mem line member)) g
    exact ⟨h, by rw [List.foldl_cons, one, all], kept.trans same⟩

theorem parseLine_pattern {p : List Char} (plain : PlainPattern p) (f : FlagFile) :
    parseLine (true, f) p = (true, { f with patterns := f.patterns ++ [p] }) := by
  obtain ⟨⟨-, trimmed⟩, nonempty, config, patterns, -⟩ := plain
  unfold parseLine
  rw [trimmed]
  dsimp only
  rw [if_neg nonempty, if_neg config, if_neg patterns, if_pos rfl]

theorem foldl_patterns {ps : List (List Char)} (plain : ∀ p ∈ ps, PlainPattern p) (f : FlagFile) :
    ps.foldl parseLine (true, f) = (true, { f with patterns := f.patterns ++ ps }) := by
  induction ps generalizing f with
  | nil => rw [List.foldl_nil, List.append_nil]
  | cons p ps ih =>
    rw [List.foldl_cons, parseLine_pattern (plain p List.mem_cons_self),
      ih fun q member => plain q (List.mem_cons_of_mem p member), List.append_assoc, List.singleton_append]

/-- No line of the config section is the delimiter. -/
theorem KeyLine.ne_delimiter {line : List Char} (key : KeyLine line) : line ≠ delimiter := by
  rintro rfl
  exact absurd key.starts (by decide)

/-- No line of a pattern is the delimiter of the here-document. -/
def Enclosed (a : BaseFreezeAction) : Prop := ∀ p ∈ a.processes, delimiter ∉ p.toList.splitOn '\n'

theorem KeyLine.splitOn_eq {line : List Char} (key : KeyLine line) : line.splitOn '\n' = [line] :=
  List.splitOn_eq_singleton key.oneLine

/-- Only a pattern can end the here-document early. -/
theorem strays_eq_false_iff (a : BaseFreezeAction) : strays a = false ↔ Enclosed a := by
  have content : a.buildFlagContent.splitOn '\n' =
      (configHeader :: configLines a ++ patternsHeader :: a.processes.map String.toList).flatMap (·.splitOn '\n') :=
    Text.splitOn_join '\n' _ _
  rw [strays, ← Bool.not_eq_true, List.contains_iff_mem, content, List.mem_flatMap]
  constructor
  · intro whole p among inside
    exact whole ⟨p.toList, List.mem_append_right _ (List.mem_cons_of_mem _ (List.mem_map_of_mem among)), inside⟩
  · rintro enclosed ⟨line, member, inside⟩
    rcases List.mem_append.mp member with config | pattern
    · rcases List.mem_cons.mp config with rfl | key
      · exact absurd inside (by decide)
      · have key := keyLine_of_mem line key
        rw [key.splitOn_eq, List.mem_singleton] at inside
        exact key.ne_delimiter inside.symm
    · rcases List.mem_cons.mp pattern with rfl | pattern
      · exact absurd inside (by decide)
      · obtain ⟨p, among, rfl⟩ := List.mem_map.mp pattern
        exact enclosed p among inside

/-- The lines of the flag file are those that the action writes, if no pattern ends the
here-document. -/
theorem flagLines_plain {a : BaseFreezeAction} (plain : ∀ p ∈ a.processes, PlainPattern p.toList) :
    flagLines a = configHeader :: configLines a ++ patternsHeader :: a.processes.map String.toList := by
  rw [flagLines, splitOn_buildFlagContent fun p member => (plain p member).1.1, List.takeWhile_eq_self_iff]
  intro line member
  rw [decide_eq_true_eq]
  rcases List.mem_append.mp member with config | pattern
  · rcases List.mem_cons.mp config with rfl | key
    · decide
    · exact (keyLine_of_mem line key).ne_delimiter
  · rcases List.mem_cons.mp pattern with rfl | pattern
    · decide
    · obtain ⟨q, among, rfl⟩ := List.mem_map.mp pattern
      exact (plain q among).2.2.2.2

/-- The freezer gets the patterns that can stand as lines. -/
theorem patterns_flagText {a : BaseFreezeAction} (plain : ∀ p ∈ a.processes, PlainPattern p.toList) :
    (parseFlagFile (flagText a)).patterns = a.processes.map String.toList := by
  have patterns : ∀ p ∈ a.processes.map String.toList, PlainPattern p := by
    intro p member
    obtain ⟨q, among, rfl⟩ := List.mem_map.mp member
    exact plain q among
  obtain ⟨f, keys, empty⟩ := foldl_keys (keyLine_of_mem (a := a)) .default
  have header : parseLine (false, .default) configHeader = (false, .default) := rfl
  have last : parseLine (false, f) patternsHeader = (true, f) := rfl
  rw [parseFlagFile, readLines_flagText, flagLines_plain plain, List.foldl_append, List.foldl_cons, List.foldl_cons,
    header, keys, last, foldl_patterns patterns]
  show f.patterns ++ _ = _
  rw [empty]
  rfl

/-- A pattern the freezer gets is a trimmed line of the flag file. -/
theorem mem_patterns {lines : List (List Char)} {state : Bool × FlagFile} {p : List Char}
    (member : p ∈ (lines.foldl parseLine state).2.patterns) :
    p ∈ state.2.patterns ∨ ∃ line ∈ lines, p = trim line ∧ p ≠ [] ∧ p ≠ configHeader ∧ p ≠ patternsHeader := by
  induction lines generalizing state with
  | nil => exact Or.inl member
  | cons line lines ih =>
    rw [List.foldl_cons] at member
    rcases ih member with before | ⟨later, among, facts⟩
    · unfold parseLine at before
      dsimp only at before
      split at before
      · exact Or.inl before
      · rename_i nonempty
        split at before
        · exact Or.inl before
        · rename_i config
          split at before
          · exact Or.inl before
          · rename_i patterns
            split at before
            · rcases List.mem_append.mp before with old | new
              · exact Or.inl old
              · rw [List.mem_singleton] at new
                subst new
                exact Or.inr ⟨line, List.mem_cons_self, rfl, nonempty, config, patterns⟩
            · rw [setKey_patterns] at before
              exact Or.inl before
    · exact Or.inr ⟨later, List.mem_cons_of_mem line among, facts⟩

theorem mem_flagText_patterns {a : BaseFreezeAction} {p : List Char}
    (member : p ∈ (parseFlagFile (flagText a)).patterns) :
    ∃ line ∈ flagLines a, p = trim line ∧ p ≠ [] ∧ p ≠ configHeader ∧ p ≠ patternsHeader := by
  rw [parseFlagFile, readLines_flagText] at member
  rcases mem_patterns member with none | found
  · exact absurd none List.not_mem_nil
  · exact found

/-- A line that has no blanks at its ends, or that starts with the first letter of a key, is
trimmed to a text that `trim` leaves as it is and that is not the delimiter. -/
theorem trim_trim {line : List Char} (ne : line ≠ delimiter) (left : trim line ≠ [])
    (shape : Text.stripWhile isBlank line = line ∨ KeyLine line) :
    trim (trim line) = trim line ∧ trim line ≠ delimiter := by
  have stripped : trim line = Text.stripWhile isBlank line := (trim_cases line).resolve_left left
  rcases shape with bare | key
  · rw [bare] at stripped
    rw [stripped, stripped]
    exact ⟨rfl, ne⟩
  · obtain ⟨c, rest, rfl⟩ : ∃ c rest, line = c :: rest := by
      cases line with
      | nil => exact absurd key.starts (by simp)
      | cons c rest => exact ⟨c, rest, rfl⟩
    have first : c = 'f' ∨ c = 'p' := by simpa using key.starts
    have plain : isBlank c = false ∧ c ≠ '-' ∧ c ≠ 'F' := by
      rcases first with rfl | rfl <;> decide
    obtain ⟨rest', eq⟩ := trim_cons rest plain.1 plain.2.1
    obtain ⟨rest'', eq'⟩ := trim_cons rest' plain.1 plain.2.1
    constructor
    · have again : trim (trim (c :: rest)) = Text.stripWhile isBlank (trim (c :: rest)) := by
        refine (trim_cases _).resolve_left ?_
        rw [eq, eq']
        exact List.cons_ne_nil _ _
      rw [again, stripped, Text.stripWhile_stripWhile]
    · rw [eq]
      intro same
      exact plain.2.2 (List.cons.inj same).1

/-- The freezer gets the patterns of a freeze action if and only if each of them can stand as a
line of the patterns section. -/
theorem reads_patterns_iff (a : BaseFreezeAction) :
    (∀ p ∈ a.processes, p.toList ∈ (parseFlagFile (flagText a)).patterns) ↔
      ∀ p ∈ a.processes, PlainPattern p.toList := by
  constructor
  · intro read
    have oneLine : ∀ p ∈ a.processes, '\n' ∉ p.toList := by
      intro p among inside
      obtain ⟨line, member, eq, -⟩ := mem_flagText_patterns (read p among)
      rw [eq] at inside
      exact not_mem_of_mem_splitOn line (List.takeWhile_subset _ member) (trim_subset line inside)
    have bare : ∀ p ∈ a.processes, Text.stripWhile isBlank p.toList = p.toList := by
      intro p among
      obtain ⟨line, -, eq, nonempty, -⟩ := mem_flagText_patterns (read p among)
      rw [eq] at nonempty ⊢
      rw [(trim_cases line).resolve_left nonempty, Text.stripWhile_stripWhile]
    intro p among
    obtain ⟨line, member, eq, nonempty, config, patterns⟩ := mem_flagText_patterns (read p among)
    have ne : line ≠ delimiter := by simpa using List.mem_takeWhile_imp member
    have shape : Text.stripWhile isBlank line = line ∨ KeyLine line := by
      have inside := List.takeWhile_subset _ member
      rw [splitOn_buildFlagContent oneLine] at inside
      rcases List.mem_append.mp inside with header | pattern
      · rcases List.mem_cons.mp header with rfl | key
        · exact Or.inl (by decide)
        · exact Or.inr (keyLine_of_mem line key)
      · rcases List.mem_cons.mp pattern with rfl | pattern
        · exact Or.inl (by decide)
        · obtain ⟨q, hq, rfl⟩ := List.mem_map.mp pattern
          exact Or.inl (bare q hq)
    have kept := trim_trim ne (eq ▸ nonempty) shape
    rw [← eq] at kept
    exact ⟨⟨oneLine p among, kept.1⟩, nonempty, config, patterns, kept.2⟩
  · intro plain p among
    rw [patterns_flagText plain]
    exact List.mem_map_of_mem among

end ProcessFreezer

end FaultStorm
