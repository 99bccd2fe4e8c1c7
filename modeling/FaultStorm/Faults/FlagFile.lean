import FaultStorm.Faults.FreezeOverlap

/-!
# The flag file from Python to the daemon

`_write_flag_to_nodes` passes the content of the flag file through a here-document, and
`parse_flag_file` reads it line by line. The daemon gets the four bounds and the patterns of the
action, whatever its variables held before.
-/

namespace FaultStorm

open Python

namespace ProcessFreezer

/-- `parse_flag_file`, from any values of its globals; the patterns are emptied first. -/
def parseFlagFileFrom (globals : FlagFile) (file : List Char) : FlagFile :=
  ((readLines file).foldl parseLine (false, { globals with patterns := [] })).2

theorem parseFlagFile_eq (file : List Char) : parseFlagFile file = parseFlagFileFrom .default file := rfl

/-- A pattern that stands on one line without blanks at its ends, starts with no dash, and is neither
a section header nor the delimiter of the here-document. -/
structure PatternLine (p : List Char) : Prop where
  oneLine : '\n' ∉ p
  nonempty : p ≠ []
  bare : Text.stripWhile isBlank p = p
  dash : p.head? ≠ some '-'
  config : p ≠ configHeader
  patterns : p ≠ patternsHeader
  delimiter : p ≠ delimiter

theorem PatternLine.plain {p : List Char} (h : PatternLine p) : PlainPattern p := by
  refine ⟨⟨h.oneLine, ?_⟩, h.nonempty, h.config, h.patterns, h.delimiter⟩
  obtain ⟨c, rest, rfl⟩ := List.exists_cons_of_ne_nil h.nonempty
  have option : isEchoOption (c :: rest) = false := by
    unfold isEchoOption
    split
    · rename_i eq
      exact absurd (congrArg some (List.cons.inj eq).1) h.dash
    · rfl
  rw [trim, option, if_neg Bool.false_ne_true, h.bare]

/-! ## A line of the config section -/

/-- The bounds an action writes. -/
def bounds (a : BaseFreezeAction) (f : FlagFile) : FlagFile where
  freezeMin := (toString a.freezeDurationRange.1).toList
  freezeMax := (toString a.freezeDurationRange.2).toList
  pauseMin := (toString a.freezePauseRange.1).toList
  pauseMax := (toString a.freezePauseRange.2).toList
  patterns := f.patterns

theorem isBlank_isSpace {c : Char} (plain : Text.isSpace c = false) : isBlank c = false := by
  rw [← Bool.not_eq_true] at plain ⊢
  intro blank
  apply plain
  simp only [isBlank, Bool.or_eq_true, beq_iff_eq, Bool.and_eq_true, decide_eq_true_eq] at blank
  simp only [Text.isSpace, Text.spaces, List.contains_eq_mem, decide_eq_true_eq]
  rcases blank with rfl | range
  · decide
  · simp only [List.mem_cons]
    omega

/-- A setting of a number is not trimmed, and is split at the `=`. -/
theorem parseLine_setting {key : List Char} (word : Text.Word key) (starts : key.head? = some 'f' ∨ key.head? = some 'p')
    (z : Int) (f : FlagFile) :
    parseLine (false, f) (key ++ '=' :: (toString z).toList) = (false, f.setKey (key ++ '=' :: (toString z).toList)) := by
  obtain ⟨c, rest, rfl⟩ := List.exists_cons_of_ne_nil word.1
  have first : c = 'f' ∨ c = 'p' := by simpa using starts
  have number := Text.word_toString z
  have plain : ∀ d ∈ c :: rest ++ '=' :: (toString z).toList, isBlank d = false := by
    intro d member
    rcases List.mem_append.mp member with key | value
    · exact isBlank_isSpace (word.2 d key)
    · rcases List.mem_cons.mp value with rfl | digit
      · decide
      · exact isBlank_isSpace (number.2 d digit)
  have kept : trim (c :: rest ++ '=' :: (toString z).toList) = c :: rest ++ '=' :: (toString z).toList := by
    have bare : Text.stripWhile isBlank (c :: rest ++ '=' :: (toString z).toList) =
        c :: rest ++ '=' :: (toString z).toList :=
      Text.stripWhile_eq_self (fun _ => plain _ (List.head_mem _)) fun _ => plain _ (List.getLast_mem _)
    obtain ⟨rest', eq⟩ := trim_cons (rest ++ '=' :: (toString z).toList) (c := c)
      (by rcases first with rfl | rfl <;> decide) (by rcases first with rfl | rfl <;> decide)
    have left : trim (c :: rest ++ '=' :: (toString z).toList) ≠ [] := by
      rw [List.cons_append, eq]
      exact List.cons_ne_nil _ _
    exact ((trim_cases _).resolve_left left).trans bare
  have other : ∀ header : List Char, header.head? = some '[' → c :: rest ++ '=' :: (toString z).toList ≠ header := by
    rintro header bracket rfl
    have eq : c = '[' := by simpa using bracket
    rcases first with rfl | rfl <;> exact absurd eq (by decide)
  unfold parseLine
  rw [kept]
  dsimp only
  rw [if_neg (by simp), if_neg (other _ rfl), if_neg (other _ rfl), if_neg Bool.false_ne_true]

theorem setKey_split (f : FlagFile) {key value : List Char} (plain : '=' ∉ key) :
    f.setKey (key ++ '=' :: value) =
      if key = "freeze_min_ms".toList then { f with freezeMin := value }
      else if key = "freeze_max_ms".toList then { f with freezeMax := value }
      else if key = "pause_min_ms".toList then { f with pauseMin := value }
      else if key = "pause_max_ms".toList then { f with pauseMax := value }
      else f := by
  have notEq : ∀ c ∈ key, decide (c ≠ '=') = true := by
    intro c member
    simpa using fun eq : c = '=' => plain (eq ▸ member)
  have before : (key ++ '=' :: value).takeWhile (· ≠ '=') = key := by
    rw [List.takeWhile_append_of_pos notEq]
    simp
  have after : (key ++ '=' :: value).dropWhile (· ≠ '=') = '=' :: value := by
    rw [List.dropWhile_append_of_pos notEq]
    simp
  have there : '=' ∈ key ++ '=' :: value := by simp
  unfold FlagFile.setKey
  rw [before, after, if_pos there]
  rfl

/-- The config section sets the four bounds. -/
theorem foldl_configLines (a : BaseFreezeAction) (f : FlagFile) :
    (configLines a).foldl parseLine (false, f) = (false, bounds a f) := by
  have lines : configLines a =
      ["freeze_min_ms".toList ++ '=' :: (toString a.freezeDurationRange.1).toList,
       "freeze_max_ms".toList ++ '=' :: (toString a.freezeDurationRange.2).toList,
       "pause_min_ms".toList ++ '=' :: (toString a.freezePauseRange.1).toList,
       "pause_max_ms".toList ++ '=' :: (toString a.freezePauseRange.2).toList] := by
    have split : ∀ {line key : List Char}, line = key ++ ['='] → ∀ value, line ++ value = key ++ '=' :: value := by
      rintro line key rfl value
      exact List.append_assoc key ['='] value
    rw [configLines, split (by decide : "freeze_min_ms=".toList = "freeze_min_ms".toList ++ ['=']),
      split (by decide : "freeze_max_ms=".toList = "freeze_max_ms".toList ++ ['=']),
      split (by decide : "pause_min_ms=".toList = "pause_min_ms".toList ++ ['=']),
      split (by decide : "pause_max_ms=".toList = "pause_max_ms".toList ++ ['='])]
  rw [lines]
  simp only [List.foldl_cons, List.foldl_nil]
  rw [parseLine_setting (by decide) (by decide), parseLine_setting (by decide) (by decide),
    parseLine_setting (by decide) (by decide), parseLine_setting (by decide) (by decide),
    setKey_split _ (by decide), setKey_split _ (by decide), setKey_split _ (by decide), setKey_split _ (by decide)]
  rfl

/-- The daemon reads the bounds and the patterns of the action. -/
theorem parseFlagFileFrom_flagText {a : BaseFreezeAction} (lines : ∀ p ∈ a.processes, PatternLine p.toList)
    (globals : FlagFile) :
    parseFlagFileFrom globals (flagText a) = { bounds a globals with patterns := a.processes.map String.toList } := by
  have plain : ∀ p ∈ a.processes, PlainPattern p.toList := fun p member => (lines p member).plain
  have patterns : ∀ p ∈ a.processes.map String.toList, PlainPattern p := by
    intro p member
    obtain ⟨q, among, rfl⟩ := List.mem_map.mp member
    exact plain q among
  have header : ∀ f, parseLine (false, f) configHeader = (false, f) := fun _ => rfl
  have last : ∀ f, parseLine (false, f) patternsHeader = (true, f) := fun _ => rfl
  rw [parseFlagFileFrom, readLines_flagText, flagLines_plain plain, List.foldl_append, List.foldl_cons,
    List.foldl_cons, header, foldl_configLines, last, foldl_patterns patterns]
  rfl

/-- Where docker works, each target gets a flag file from which the daemon reads exactly the four
bounds and the patterns of the action, from any values of its globals. -/
theorem writeFlagToNodes_agrees {c : Cluster} (works : c.Works) {a : BaseFreezeAction}
    (lines : ∀ p ∈ a.processes, PatternLine p.toList) {targets : List String} {node : String} (target : node ∈ targets)
    (globals : FlagFile) :
    ∃ c' file, (a.writeFlagToNodes targets).exec c = (.ok (), c') ∧ c'.flag node = some file ∧
      parseFlagFileFrom globals file =
        { freezeMin := (toString a.freezeDurationRange.1).toList, freezeMax := (toString a.freezeDurationRange.2).toList,
          pauseMin := (toString a.freezePauseRange.1).toList, pauseMax := (toString a.freezePauseRange.2).toList,
          patterns := a.processes.map String.toList } := by
  refine ⟨_, flagText a, exec_writeFlagToNodes works a targets, ?_, parseFlagFileFrom_flagText lines globals⟩
  rw [Cluster.flag_setFlag, if_pos target]

/-- A pattern with a blank and one with an equals sign. -/
def twoPatterns : BaseFreezeAction where
  ordinal := 4
  dcMap := Dict.empty
  dbNodes := ["pg1", "pg2"]
  extraNodes := []
  processes := ["postgres: checkpointer", "a=b"]
  freezeDurationRange := (-5, 3000)
  freezePauseRange := (0, 100)

theorem twoPatterns_agrees :
    ∃ c' file, (twoPatterns.writeFlagToNodes ["pg2"]).exec idleCluster = (.ok (), c') ∧ c'.flag "pg2" = some file ∧
      parseFlagFileFrom .default file =
        { freezeMin := (toString (-5 : Int)).toList, freezeMax := (toString (3000 : Int)).toList,
          pauseMin := (toString (0 : Int)).toList, pauseMax := (toString (100 : Int)).toList,
          patterns := ["postgres: checkpointer", "a=b"].map String.toList } := by
  have lines : ∀ p ∈ twoPatterns.processes, PatternLine p.toList := by
    intro p member
    rcases List.mem_pair.mp member with rfl | rfl
    · constructor <;> decide
    · constructor <;> decide
  exact writeFlagToNodes_agrees (fun _ => rfl) lines (List.mem_singleton.mpr rfl) .default

end ProcessFreezer

end FaultStorm
