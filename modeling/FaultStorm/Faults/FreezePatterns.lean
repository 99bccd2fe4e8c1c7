import FaultStorm.Faults.Decoding
import FaultStorm.Faults.FreezeOverlap

/-!
# Freeze patterns in a scenario line

The patterns of a freeze go through two formats: one line each in the flag file, and one comma
separated part of the scenario line. A replayed freeze writes the same flag file if no pattern has
a space or a comma, no bound is negative and the target is one word.
-/

namespace FaultStorm

open Python Python.Text

namespace BaseFreezeAction

/-! ## What a flag file tells -/

/-- Two flag files agree if their patterns and ranges do. -/
theorem buildFlagContent_inj {a b : BaseFreezeAction} (ha : ∀ p ∈ a.processes, '\n' ∉ p.toList)
    (hb : ∀ p ∈ b.processes, '\n' ∉ p.toList) :
    b.buildFlagContent = a.buildFlagContent ↔ b.processes = a.processes ∧
      b.freezeDurationRange = a.freezeDurationRange ∧ b.freezePauseRange = a.freezePauseRange := by
  constructor
  · intro same
    have lines := congrArg (List.splitOn '\n') same
    rw [ProcessFreezer.splitOn_buildFlagContent ha, ProcessFreezer.splitOn_buildFlagContent hb] at lines
    simp only [ProcessFreezer.configLines, List.cons_append, List.nil_append, List.cons.injEq,
      List.append_cancel_left_eq, String.toList_inj, true_and] at lines
    obtain ⟨freezeMin, freezeMax, pauseMin, pauseMax, patterns⟩ := lines
    refine ⟨?_, ?_, ?_⟩
    · exact List.map_injective_iff.mpr (fun _ _ => String.toList_inj.mp) patterns
    · exact Prod.ext (toString_injective freezeMin) (toString_injective freezeMax)
    · exact Prod.ext (toString_injective pauseMin) (toString_injective pauseMax)
  · rintro ⟨patterns, duration, pause⟩
    unfold buildFlagContent
    rw [patterns, duration, pause]

/-! ## The parts of the line -/

/-- No pattern has white space or a comma. -/
def PlainNames (names : List String) : Prop := ∀ p ∈ names, ∀ c ∈ p.toList, isSpace c = false ∧ c ≠ ','

theorem plainNames_of_csvToken {names : List String} (token : CsvToken names) : PlainNames names := by
  intro p member c inside
  refine ⟨token.1.2 c ?_, fun comma => token.2 p member (comma ▸ inside)⟩
  rw [toList_csv]
  exact mem_join_of_mem (List.mem_map_of_mem member) inside

theorem PlainNames.csvToken {names : List String} (plain : PlainNames names) (nonempty : names ≠ [])
    (filled : ∀ p ∈ names, p ≠ "") : CsvToken names := by
  refine ⟨⟨?_, ?_⟩, fun p member comma => (plain p member ',' comma).2 rfl⟩
  · obtain ⟨p, rest, rfl⟩ := List.exists_cons_of_ne_nil nonempty
    have some_char : p.toList ≠ [] := fun eq => filled p List.mem_cons_self (String.toList_inj.mp eq)
    obtain ⟨c, cs, letters⟩ := List.exists_cons_of_ne_nil some_char
    have inside : c ∈ (csv (p :: rest)).toList := by
      rw [toList_csv]
      exact mem_join_of_mem (List.mem_map_of_mem List.mem_cons_self) (by rw [letters]; exact List.mem_cons_self)
    exact List.ne_nil_of_mem inside
  · intro c inside
    rw [toList_csv] at inside
    rcases mem_join inside with rfl | ⟨l, among, here⟩
    · decide
    · obtain ⟨p, member, rfl⟩ := List.mem_map.mp among
      exact (plain p member c here).1

/-- The fields behind the ordinal, of which the target is the first. -/
def fields (a : BaseFreezeAction) (target : String) : List (List Char) :=
  split target.toList ++ split (csv a.processes).toList ++
    [(serializeRange a.freezeDurationRange).toList, (serializeRange a.freezePauseRange).toList]

theorem paramParts_serialize (a : BaseFreezeAction) (target : String) :
    paramParts (a.serialize (some target)) = (toString a.ordinal).toList :: a.fields target := by
  have text : (a.serialize (some target)).toList = (toString a.ordinal).toList ++ ' ' :: (target.toList ++ ' ' ::
      ((csv a.processes).toList ++ ' ' :: ((serializeRange a.freezeDurationRange).toList ++ ' ' ::
        (serializeRange a.freezePauseRange).toList))) := by
    show (spaced [_, _, _, _, _]).toList = _
    rw [toList_spaced, List.map_cons, join_cons]
    simp [strOrEmpty]
  rw [paramParts, split_strip, text, split_append_cons _ _ (by decide), split_append_cons _ _ (by decide),
    split_append_cons _ _ (by decide), split_append_cons _ _ (by decide), split_word (word_toString _),
    split_word (token_serializeRange _), split_word (token_serializeRange _)]
  simp [fields]

/-- A field reads as a range, or the default does where the field is missing. -/
def ReadsAs (fields : List (List Char)) (i : Nat) (default range : Int × Int) : Prop :=
  ∃ r, rangePart fields i = .ok r ∧ r.getD default = range

theorem readsAs_some {fields : List (List Char)} {i : Nat} {token : List Char} (found : fields[i]? = some token)
    {default range : Int × Int} : ReadsAs fields i default range ↔ deserializeRange token = .ok range := by
  unfold ReadsAs rangePart
  rw [found]
  constructor
  · rintro ⟨r, ok, rfl⟩
    obtain ⟨r, read, rfl⟩ := map_ok ok
    exact read
  · intro read
    refine ⟨some range, ?_, rfl⟩
    dsimp only
    rw [read, ok_map]

/-- The patterns and the ranges that `deserialize` finds in the fields are those of the action. -/
theorem deserialize_fields {a : BaseFreezeAction} {fields : List (List Char)} {dbNodes extraNodes : List String}
    {dcMap : DcMap} :
    (∃ b, deserialize ((toString a.ordinal).toList :: fields) dbNodes extraNodes dcMap = .ok b ∧
        b.processes = a.processes ∧ b.freezeDurationRange = a.freezeDurationRange ∧
        b.freezePauseRange = a.freezePauseRange) ↔
      processesOr (some (csvPart fields 1 ["postgres"])) = a.processes ∧
        ReadsAs fields 2 defaultFreezeRange a.freezeDurationRange ∧
        ReadsAs fields 3 defaultPauseRange a.freezePauseRange := by
  have shifted : deserialize ((toString a.ordinal).toList :: fields) dbNodes extraNodes dcMap = (do
      let duration ← rangePart fields 2
      let pause ← rangePart fields 3
      return { dbNodes, extraNodes, ordinal := a.ordinal, dcMap,
               processes := processesOr (some (csvPart fields 1 ["postgres"])),
               freezeDurationRange := duration.getD defaultFreezeRange,
               freezePauseRange := pause.getD defaultPauseRange }) := by
    simp only [deserialize, part, csvPart, rangePart, List.getElem?_cons_zero, List.getElem?_cons_succ, ok_bind,
      pyInt_toString]
  rw [shifted]
  constructor
  · rintro ⟨b, ok, patterns, duration, pause⟩
    obtain ⟨r, first, ok⟩ := bind_ok ok
    obtain ⟨t, second, ok⟩ := bind_ok ok
    obtain rfl := Except.ok.inj ok
    exact ⟨patterns, ⟨r, first, duration⟩, t, second, pause⟩
  · rintro ⟨patterns, ⟨r, first, duration⟩, t, second, pause⟩
    rw [first, second]
    exact ⟨_, rfl, patterns, duration, pause⟩

/-- The fields behind a target of these words are read as the patterns and the ranges: the target is
one word and no bound has a sign. With another number of words only a coincidence does it. -/
def Aligned (a : BaseFreezeAction) : List (List Char) → Prop
  | [_] => (0 ≤ a.freezeDurationRange.1 ∧ 0 ≤ a.freezeDurationRange.2) ∧
      0 ≤ a.freezePauseRange.1 ∧ 0 ≤ a.freezePauseRange.2
  | [] => a.processes = ["100-3000"] ∧ a.freezeDurationRange = defaultFreezeRange ∧
      a.freezePauseRange = defaultPauseRange
  | _ :: second :: rest => second = (csv a.processes).toList ∧ ∃ third fourth more,
      rest ++ [(csv a.processes).toList, (serializeRange a.freezeDurationRange).toList] = third :: fourth :: more ∧
        deserializeRange third = .ok a.freezeDurationRange ∧ deserializeRange fourth = .ok a.freezePauseRange

theorem deserializeRange_iff {range : Int × Int} :
    deserializeRange (serializeRange range).toList = .ok range ↔ 0 ≤ range.1 ∧ 0 ≤ range.2 :=
  ⟨deserializeRange_nonneg, deserializeRange_serializeRange⟩

theorem csvPart_iff {fields : List (List Char)} {token : List Char} (found : fields[1]? = some token)
    (word : Word token) {names : List String} (csvToken : CsvToken names) :
    processesOr (some (csvPart fields 1 ["postgres"])) = names ↔ token = (csv names).toList := by
  have read : csvPart fields 1 ["postgres"] = parseCsv token := by
    unfold csvPart
    rw [found]
    exact if_neg word.1
  rw [read, processesOr_some (csvToken_parseCsv word).ne_nil]
  constructor
  · rintro rfl
    rw [csv_parseCsv, String.toList_ofList]
  · rintro rfl
    exact parseCsv_csv csvToken

/-- With plain patterns, the fields are read as the patterns and the ranges if they are aligned. -/
theorem fields_iff {a : BaseFreezeAction} (csvToken : CsvToken a.processes) (target : String) :
    (processesOr (some (csvPart (a.fields target) 1 ["postgres"])) = a.processes ∧
        ReadsAs (a.fields target) 2 defaultFreezeRange a.freezeDurationRange ∧
        ReadsAs (a.fields target) 3 defaultPauseRange a.freezePauseRange) ↔ a.Aligned (split target.toList) := by
  have words : ∀ w ∈ split target.toList, Word w := fun w => word_of_mem_split
  unfold fields
  rw [split_word csvToken.1]
  generalize split target.toList = l at words ⊢
  rcases l with _ | ⟨first, _ | ⟨second, rest⟩⟩
  · -- the first range is read as the patterns, and the second one as the first
    simp only [List.nil_append, List.cons_append]
    rw [csvPart_iff rfl (token_serializeRange _) csvToken, readsAs_some rfl]
    constructor
    · rintro ⟨patterns, duration, range, missing, pause⟩
      obtain rfl : range = none := (Except.ok.inj missing).symm
      have unset : defaultPauseRange = a.freezePauseRange := pause
      rw [← unset, deserializeRange_serializeRange (by decide)] at duration
      have same : defaultPauseRange = a.freezeDurationRange := Except.ok.inj duration
      refine ⟨?_, same.symm, unset.symm⟩
      rw [← parseCsv_csv csvToken, ← patterns, ← same]
      decide
    · rintro ⟨patterns, duration, pause⟩
      rw [patterns, duration, pause]
      exact ⟨by decide, deserializeRange_serializeRange (by decide), none, rfl, rfl⟩
  · simp only [List.cons_append, List.nil_append]
    rw [csvPart_iff rfl csvToken.1 csvToken, readsAs_some rfl, readsAs_some rfl, deserializeRange_iff,
      deserializeRange_iff]
    exact and_iff_right rfl
  · have word : Word second := words second (List.mem_cons_of_mem first List.mem_cons_self)
    obtain ⟨third, fourth, more, parts⟩ : ∃ third fourth more,
        rest ++ [(csv a.processes).toList, (serializeRange a.freezeDurationRange).toList] = third :: fourth :: more := by
      rcases rest with _ | ⟨third, _ | ⟨fourth, more⟩⟩
      · exact ⟨_, _, [], rfl⟩
      · exact ⟨third, _, _, rfl⟩
      · exact ⟨third, fourth, _, rfl⟩
    have shape : first :: second :: rest ++ [(csv a.processes).toList] ++
        [(serializeRange a.freezeDurationRange).toList, (serializeRange a.freezePauseRange).toList] =
          first :: second :: third :: fourth :: (more ++ [(serializeRange a.freezePauseRange).toList]) := by
      have tail := congrArg (· ++ [(serializeRange a.freezePauseRange).toList]) parts
      simpa using tail
    rw [shape, csvPart_iff rfl word csvToken, readsAs_some rfl, readsAs_some rfl]
    refine and_congr_right fun _ => ?_
    rw [parts]
    constructor
    · rintro ⟨duration, pause⟩
      exact ⟨third, fourth, more, rfl, duration, pause⟩
    · rintro ⟨_, _, _, eq, duration, pause⟩
      cases eq
      exact ⟨duration, pause⟩

/-- A serialized freeze is read back with the same flag file if and only if its patterns are plain
and its fields are aligned. -/
theorem survives_iff {a : BaseFreezeAction} (nonempty : a.processes ≠ [])
    (lines : ∀ p ∈ a.processes, p ≠ "" ∧ '\n' ∉ p.toList) (target : String) (dbNodes extraNodes : List String)
    (dcMap : DcMap) :
    (∃ b, deserialize (paramParts (a.serialize (some target))) dbNodes extraNodes dcMap = .ok b ∧
        b.buildFlagContent = a.buildFlagContent) ↔ PlainNames a.processes ∧ a.Aligned (split target.toList) := by
  have agree : ∀ {b}, deserialize (paramParts (a.serialize (some target))) dbNodes extraNodes dcMap = .ok b →
      CsvToken b.processes ∧ (b.buildFlagContent = a.buildFlagContent ↔ b.processes = a.processes ∧
        b.freezeDurationRange = a.freezeDurationRange ∧ b.freezePauseRange = a.freezePauseRange) := by
    intro b ok
    have token : CsvToken b.processes := (decoded ok).1.1
    refine ⟨token, buildFlagContent_inj (fun p member => (lines p member).2) fun p member newline => ?_⟩
    exact absurd ((plainNames_of_csvToken token) p member '\n' newline).1 (by decide)
  have read : (∃ b, deserialize (paramParts (a.serialize (some target))) dbNodes extraNodes dcMap = .ok b ∧
      b.buildFlagContent = a.buildFlagContent) ↔ CsvToken a.processes ∧ a.Aligned (split target.toList) := by
    constructor
    · rintro ⟨b, ok, content⟩
      obtain ⟨token, iff⟩ := agree ok
      have same := iff.mp content
      have csvToken : CsvToken a.processes := same.1 ▸ token
      refine ⟨csvToken, (fields_iff csvToken target).mp ?_⟩
      rw [paramParts_serialize] at ok
      exact deserialize_fields.mp ⟨b, ok, same⟩
    · rintro ⟨csvToken, aligned⟩
      have found := (@deserialize_fields a (a.fields target) dbNodes extraNodes dcMap).mpr
        ((fields_iff csvToken target).mpr aligned)
      rw [← paramParts_serialize] at found
      obtain ⟨b, ok, same⟩ := found
      exact ⟨b, ok, (agree ok).2.mpr same⟩
  rw [read]
  refine and_congr_left fun _ => ⟨plainNames_of_csvToken, fun plain => ?_⟩
  exact plain.csvToken nonempty fun p member => (lines p member).1

end BaseFreezeAction

/-! ## Both actions -/

namespace Freeze

/-- The node or the group of the action. -/
def target : Freeze → Option String
  | .processes a => a.node
  | .group a => a.group

def serialize : Freeze → String
  | .processes a => a.serialize
  | .group a => a.serialize

/-- `deserialize` of the class of the action. -/
def deserialize (f : Freeze) (params : String) (dbNodes extraNodes : List String) (dcMap : DcMap) :
    Except PyExc Freeze :=
  match f with
  | .processes _ => .processes <$> FreezeProcessesAction.deserialize params dbNodes extraNodes dcMap
  | .group _ => .group <$> FreezeProcessesGroupAction.deserialize params dbNodes extraNodes dcMap

/-- What a class reads for its freeze is the base of the action it makes. -/
theorem deserialize_base (f : Freeze) (params : String) (dbNodes extraNodes : List String) (dcMap : DcMap)
    (P : BaseFreezeAction → Prop) :
    (∃ g, f.deserialize params dbNodes extraNodes dcMap = .ok g ∧ P g.base) ↔
      ∃ b, BaseFreezeAction.deserialize (paramParts params) dbNodes extraNodes dcMap = .ok b ∧ P b := by
  constructor
  · rintro ⟨g, ok, holds⟩
    cases f with
    | processes a =>
      obtain ⟨c, made, rfl⟩ := map_ok ok
      obtain ⟨b, read, made⟩ := bind_ok made
      obtain rfl := Except.ok.inj made
      exact ⟨b, read, holds⟩
    | group a =>
      obtain ⟨c, made, rfl⟩ := map_ok ok
      obtain ⟨b, read, made⟩ := bind_ok made
      obtain rfl := Except.ok.inj made
      exact ⟨b, read, holds⟩
  · rintro ⟨b, read, holds⟩
    cases f with
    | processes a =>
      refine ⟨.processes { b with node := optionalPart (paramParts params) 1 }, ?_, holds⟩
      simp only [deserialize, FreezeProcessesAction.deserialize, read, ok_bind]
      rfl
    | group a =>
      refine ⟨.group { b with group := optionalPart (paramParts params) 1 }, ?_, holds⟩
      simp only [deserialize, FreezeProcessesGroupAction.deserialize, read, ok_bind]
      rfl

/-- A freeze with a target writes the same flag file after it was recorded and read back if and only
if no pattern has white space or a comma and its fields are aligned, that is, the target is one word
and no bound is negative. -/
theorem recorded_iff {f : Freeze} {target : String} (set : f.target = some target) (nonempty : f.base.processes ≠ [])
    (lines : ∀ p ∈ f.base.processes, p ≠ "" ∧ '\n' ∉ p.toList) (dbNodes extraNodes : List String) (dcMap : DcMap) :
    (∃ g, f.deserialize f.serialize dbNodes extraNodes dcMap = .ok g ∧
        g.base.buildFlagContent = f.base.buildFlagContent) ↔
      BaseFreezeAction.PlainNames f.base.processes ∧ f.base.Aligned (split target.toList) := by
  have text : f.serialize = f.base.serialize (some target) := by
    cases f with
    | processes a => exact congrArg a.toBaseFreezeAction.serialize set
    | group a => exact congrArg a.toBaseFreezeAction.serialize set
  rw [deserialize_base f f.serialize dbNodes extraNodes dcMap (·.buildFlagContent = f.base.buildFlagContent), text]
  exact BaseFreezeAction.survives_iff nonempty lines target dbNodes extraNodes dcMap

/-- A freeze of these patterns on pg1. -/
def onPg1 (patterns : List String) : Freeze :=
  .processes { dbNodes := ["pg1"], extraNodes := [], ordinal := 3, dcMap := Dict.empty, processes := patterns,
               freezeDurationRange := (100, 3000), freezePauseRange := (100, 3000), node := some "pg1" }

theorem recorded_iff_onPg1 :
    (∃ g, (onPg1 ["postgres", "pgconsul"]).deserialize (onPg1 ["postgres", "pgconsul"]).serialize ["pg1"] [] Dict.empty =
        .ok g ∧ g.base.buildFlagContent = (onPg1 ["postgres", "pgconsul"]).base.buildFlagContent) ↔
      BaseFreezeAction.PlainNames ["postgres", "pgconsul"] ∧
        (onPg1 ["postgres", "pgconsul"]).base.Aligned (split "pg1".toList) :=
  recorded_iff rfl (by decide) (by decide) ["pg1"] [] Dict.empty

/-- The pattern of the checkpointer is cut in two, and its second half is read as a range. -/
theorem checkpointer_not_recorded :
    (onPg1 ["postgres: checkpointer"]).target = some "pg1" ∧
      (∀ p ∈ (onPg1 ["postgres: checkpointer"]).base.processes, p ≠ "" ∧ '\n' ∉ p.toList) ∧
      ¬ ∃ g, (onPg1 ["postgres: checkpointer"]).deserialize (onPg1 ["postgres: checkpointer"]).serialize ["pg1"] []
          Dict.empty = .ok g ∧
        g.base.buildFlagContent = (onPg1 ["postgres: checkpointer"]).base.buildFlagContent := by
  refine ⟨rfl, by decide, ?_⟩
  rintro ⟨g, ok, -⟩
  have raised : (onPg1 ["postgres: checkpointer"]).deserialize (onPg1 ["postgres: checkpointer"]).serialize ["pg1"] []
      Dict.empty = .error .valueError := by
    decide +kernel
  rw [raised] at ok
  cases ok

end Freeze

end FaultStorm
