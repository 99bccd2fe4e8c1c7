import FaultStorm.Faults.Builtin
import FaultStorm.Faults.ScenarioLog.Roundtrip

/-!
# Actions with all their parameters set

The line of an action is written before `execute()` picks the parameters that are missing.
If none is missing, and each can stand in a line, the action read from the line is the
action that is executed.
-/

namespace FaultStorm

open Python Python.Text

/-! ## Tokens -/

/-- A text that can stand as one part of a parameter string. -/
def Token (s : String) : Prop := Word s.toList

/-- Names that can stand as one part of a parameter string. -/
def CsvToken (names : List String) : Prop := Token (csv names) ∧ ∀ n ∈ names, ',' ∉ n.toList

/-- The attribute is set, to a value that satisfies `P`. -/
def Given {α : Type} (P : α → Prop) (value : Option α) : Prop := ∃ v, value = some v ∧ P v

theorem toList_csv (names : List String) : (csv names).toList = join ',' (names.map String.toList) :=
  String.toList_ofList

theorem toList_spaced (parts : List String) : (spaced parts).toList = join ' ' (parts.map String.toList) :=
  String.toList_ofList

theorem CsvToken.ne_nil {names : List String} (h : CsvToken names) : names ≠ [] := by
  rintro rfl
  exact h.1.1 rfl

theorem parseCsv_csv {names : List String} (h : CsvToken names) : parseCsv (csv names).toList = names := by
  have plain : ∀ l ∈ names.map String.toList, ',' ∉ l := by
    intro l member
    obtain ⟨n, among, rfl⟩ := List.mem_map.mp member
    exact h.2 n among
  have split : (join ',' (names.map String.toList)).splitOn ',' = names.map String.toList :=
    List.splitOn_intercalate ',' plain (by simpa using h.ne_nil)
  rw [parseCsv, toList_csv, split, List.map_map]
  exact List.map_id'' (fun n => String.ofList_toList) names

theorem token_toString (z : Int) : Token (toString z) := word_toString z

/-- The parts of a parameter string are the parts it was made of, without the empty ones. -/
theorem paramParts_spaced {parts : List String} (h : ∀ p ∈ parts, p = "" ∨ Token p) :
    paramParts (spaced parts) = (parts.map String.toList).filter (· ≠ []) := by
  rw [paramParts, split_strip, toList_spaced]
  apply split_join
  intro w member
  obtain ⟨p, among, rfl⟩ := List.mem_map.mp member
  rcases h p among with rfl | token
  · exact Or.inl rfl
  · exact Or.inr token

theorem paramParts_strip (params : String) :
    paramParts (String.ofList (strip params.toList)) = paramParts params := by
  rw [paramParts, String.toList_ofList, strip_strip]
  rfl

theorem filter_tokens {parts : List String} (h : ∀ p ∈ parts, Token p) :
    (parts.map String.toList).filter (· ≠ []) = parts.map String.toList := by
  rw [List.filter_eq_self]
  intro w member
  obtain ⟨p, among, rfl⟩ := List.mem_map.mp member
  exact decide_eq_true (h p among).1

theorem paramParts_tokens {parts : List String} (h : ∀ p ∈ parts, Token p) :
    paramParts (String.ofList (strip (spaced parts).toList)) = parts.map String.toList := by
  rw [paramParts_strip, paramParts_spaced fun p member => Or.inr (h p member), filter_tokens h]

/-- An empty part at the end is not seen. -/
theorem paramParts_tokens_empty {parts : List String} (h : ∀ p ∈ parts, Token p) :
    paramParts (String.ofList (strip (spaced (parts ++ [""])).toList)) = parts.map String.toList := by
  rw [paramParts_strip, paramParts_spaced, List.map_append, List.filter_append, filter_tokens h]
  · exact List.append_nil _
  · intro p member
    rcases List.mem_append.mp member with token | empty
    · exact Or.inr (h p token)
    · exact Or.inl (List.mem_singleton.mp empty)

/-- A parameter string that starts with an ordinal can stand in a line. -/
theorem plainParams_spaced (ordinal : Int) {parts : List String} (h : ∀ p ∈ parts, p = "" ∨ Token p) :
    PlainParams (spaced (toString ordinal :: parts)).toList := by
  obtain ⟨c, rest, text⟩ := List.exists_cons_of_ne_nil (toString_ne_nil ordinal)
  have word := token_toString ordinal
  have line : ∀ l ∈ parts.map String.toList, OneLine l := by
    intro l member
    obtain ⟨p, among, rfl⟩ := List.mem_map.mp member
    rcases h p among with rfl | token
    · exact fun c none => nomatch none
    · exact Word.oneLine token
  rw [toList_spaced, List.map_cons, join_cons]
  constructor
  · refine ⟨c, rest ++ (parts.map String.toList).flatMap (' ' :: ·), ?_, word.2 c ?_⟩
    · rw [text, List.cons_append]
    · rw [text]
      exact List.mem_cons_self
  · apply OneLine.append (Word.oneLine word)
    intro c member
    obtain ⟨l, among, member⟩ := List.mem_flatMap.mp member
    rcases List.mem_cons.mp member with rfl | member
    · decide
    · exact line l among c member

@[simp] theorem pyInt_toString (z : Int) : pyInt (toString z).toList = .ok z := by
  rw [pyInt, parseInt_toString]

/-! ## Each class -/

namespace KillProcessAction

def Preset (a : KillProcessAction) : Prop := Given Token a.process ∧ Given Token a.node

/-- The parameters of a kill: the pool from which it would pick is none of them. -/
def written (a : KillProcessAction) : KillProcessAction := { a with processes := poolOf none }

variable {a : KillProcessAction}

theorem reads (preset : a.Preset) :
    deserialize (String.ofList (strip a.serialize.toList)) a.dbNodes a.extraNodes a.dcMap = .ok a.written := by
  obtain ⟨base, process, node, processes⟩ := a
  obtain ⟨⟨p, rfl, token⟩, ⟨n, rfl, token'⟩⟩ := preset
  have parts : paramParts (String.ofList (strip (spaced [toString base.ordinal, p, n]).toList)) =
      [(toString base.ordinal).toList, p.toList, n.toList] := by
    apply paramParts_tokens
    simp only [List.forall_mem_cons]
    exact ⟨token_toString _, token, token', nofun⟩
  show deserialize (String.ofList (strip (spaced [toString base.ordinal, p, n]).toList)) _ _ _ = _
  simp only [deserialize, parts, part, stringPart, List.getElem?_cons_zero, List.getElem?_cons_succ, ok_bind, ok_map,
    pyInt_toString, String.ofList_toList]
  rfl

theorem plain (preset : a.Preset) : PlainParams a.serialize.toList := by
  obtain ⟨base, process, node, processes⟩ := a
  obtain ⟨⟨p, rfl, token⟩, ⟨n, rfl, token'⟩⟩ := preset
  apply plainParams_spaced base.ordinal
  simp only [List.forall_mem_cons]
  exact ⟨Or.inr token, Or.inr token', nofun⟩

theorem execute_keeps (preset : a.Preset) (w : World Cluster) : (execute.exec (a, w)).2.1 = a := by
  obtain ⟨⟨p, process, _⟩, ⟨n, node, _⟩⟩ := preset
  unfold execute
  rw [Proc.exec_bind_ok (exec_choose_set (by rw [process]; rfl)),
    Proc.exec_bind_ok (exec_choose_set (by rw [node]; rfl)), Proc.exec_bind_ok (exec_this _)]
  rfl

end KillProcessAction

namespace PartitionRandomHalvesAction

def Preset (a : PartitionRandomHalvesAction) : Prop := Given CsvToken a.group1 ∧ Given CsvToken a.group2

variable {a : PartitionRandomHalvesAction}

theorem reads (preset : a.Preset) :
    deserialize (String.ofList (strip a.serialize.toList)) a.dbNodes a.extraNodes a.dcMap = .ok a := by
  obtain ⟨base, group1, group2⟩ := a
  obtain ⟨⟨g, rfl, token⟩, ⟨k, rfl, token'⟩⟩ := preset
  have parts : paramParts (String.ofList (strip (spaced [toString base.ordinal, csv g, csv k]).toList)) =
      [(toString base.ordinal).toList, (csv g).toList, (csv k).toList] := by
    apply paramParts_tokens
    simp only [List.forall_mem_cons]
    exact ⟨token_toString _, token.1, token'.1, nofun⟩
  show deserialize (String.ofList (strip (spaced [toString base.ordinal, csv g, csv k]).toList)) _ _ _ = _
  simp only [deserialize, parts, part, List.getElem?_cons_zero, List.getElem?_cons_succ, ok_bind, ok_map,
    pyInt_toString, parseCsv_csv token, parseCsv_csv token']
  rfl

theorem plain (preset : a.Preset) : PlainParams a.serialize.toList := by
  obtain ⟨base, group1, group2⟩ := a
  obtain ⟨⟨g, rfl, token⟩, ⟨k, rfl, token'⟩⟩ := preset
  apply plainParams_spaced base.ordinal
  simp only [List.forall_mem_cons]
  exact ⟨Or.inr token.1, Or.inr token'.1, nofun⟩

theorem execute_keeps (preset : a.Preset) (w : World Cluster) : (execute.exec (a, w)).2.1 = a := by
  obtain ⟨⟨g, group1, _⟩, ⟨k, group2, _⟩⟩ := preset
  unfold execute
  rw [Proc.exec_bind_ok (exec_this _), if_neg (by simp [group1, group2]), Proc.exec_bind_ok (exec_this _)]
  rfl

end PartitionRandomHalvesAction

namespace PartitionMajoritiesRingAction

def Preset (a : PartitionMajoritiesRingAction) : Prop := Given CsvToken a.ordered

variable {a : PartitionMajoritiesRingAction}

theorem reads (preset : a.Preset) :
    deserialize (String.ofList (strip a.serialize.toList)) a.dbNodes a.extraNodes a.dcMap = .ok a := by
  obtain ⟨base, ordered⟩ := a
  obtain ⟨names, rfl, token⟩ := preset
  have parts : paramParts (String.ofList (strip (spaced [toString base.ordinal, csv names]).toList)) =
      [(toString base.ordinal).toList, (csv names).toList] := by
    apply paramParts_tokens
    simp only [List.forall_mem_cons]
    exact ⟨token_toString _, token.1, nofun⟩
  show deserialize (String.ofList (strip (spaced [toString base.ordinal, csv names]).toList)) _ _ _ = _
  simp only [deserialize, parts, part, List.getElem?_cons_zero, List.getElem?_cons_succ, ok_bind, ok_map,
    pyInt_toString, parseCsv_csv token]
  rfl

theorem plain (preset : a.Preset) : PlainParams a.serialize.toList := by
  obtain ⟨base, ordered⟩ := a
  obtain ⟨names, rfl, token⟩ := preset
  apply plainParams_spaced base.ordinal
  simp only [List.forall_mem_cons]
  exact ⟨Or.inr token.1, nofun⟩

theorem execute_keeps (preset : a.Preset) (w : World Cluster) : (execute.exec (a, w)).2.1 = a := by
  obtain ⟨names, ordered, _⟩ := preset
  unfold execute
  rw [Proc.exec_bind_ok (exec_this _), if_neg (by simp [ordered]), Proc.exec_bind_ok (exec_this _)]
  rfl

end PartitionMajoritiesRingAction

namespace PartitionRandomNodeAction

def Preset (a : PartitionRandomNodeAction) : Prop := Given Token a.node

variable {a : PartitionRandomNodeAction}

theorem reads (preset : a.Preset) :
    deserialize (String.ofList (strip a.serialize.toList)) a.dbNodes a.extraNodes a.dcMap = .ok a := by
  obtain ⟨base, node⟩ := a
  obtain ⟨n, rfl, token⟩ := preset
  have parts : paramParts (String.ofList (strip (spaced [toString base.ordinal, n]).toList)) =
      [(toString base.ordinal).toList, n.toList] := by
    apply paramParts_tokens
    simp only [List.forall_mem_cons]
    exact ⟨token_toString _, token, nofun⟩
  show deserialize (String.ofList (strip (spaced [toString base.ordinal, n]).toList)) _ _ _ = _
  simp only [deserialize, parts, part, optionalPart, List.getElem?_cons_zero, List.getElem?_cons_succ, ok_bind,
    pyInt_toString, Option.map_some, String.ofList_toList]
  rfl

theorem plain (preset : a.Preset) : PlainParams a.serialize.toList := by
  obtain ⟨base, node⟩ := a
  obtain ⟨n, rfl, token⟩ := preset
  apply plainParams_spaced base.ordinal
  simp only [List.forall_mem_cons]
  exact ⟨Or.inr token, nofun⟩

theorem execute_keeps (preset : a.Preset) (w : World Cluster) : (execute.exec (a, w)).2.1 = a := by
  obtain ⟨n, node, _⟩ := preset
  unfold execute
  rw [Proc.exec_bind_ok (exec_choose_set (by rw [node]; rfl)), Proc.exec_bind_ok (exec_this _)]
  rfl

end PartitionRandomNodeAction

namespace PartitionRandomSubnetAction

def Preset (a : PartitionRandomSubnetAction) : Prop :=
  Given Token a.node ∧ Given Token a.direction ∧ Given Token a.subnetType ∧
    Given (fun blocked => blocked = [] ∨ CsvToken blocked) a.blockedNodes

variable {a : PartitionRandomSubnetAction}

theorem reads (preset : a.Preset) :
    deserialize (String.ofList (strip a.serialize.toList)) a.dbNodes a.extraNodes a.dcMap = .ok a := by
  obtain ⟨base, node, direction, subnetType, blockedNodes⟩ := a
  obtain ⟨⟨n, rfl, token⟩, ⟨d, rfl, token'⟩, ⟨t, rfl, token''⟩, ⟨blocked, rfl, rfl | csvToken⟩⟩ := preset
  · have parts : paramParts (String.ofList (strip (spaced [toString base.ordinal, n, d, t, ""]).toList)) =
        [(toString base.ordinal).toList, n.toList, d.toList, t.toList] := by
      apply @paramParts_tokens_empty [toString base.ordinal, n, d, t]
      simp only [List.forall_mem_cons]
      exact ⟨token_toString _, token, token', token'', nofun⟩
    show deserialize (String.ofList (strip (spaced [toString base.ordinal, n, d, t, ""]).toList)) _ _ _ = _
    simp only [deserialize, parts, part, stringPart, csvPart, List.getElem?_cons_zero, List.getElem?_cons_succ,
      List.getElem?_nil, ok_bind, ok_map, pyInt_toString, String.ofList_toList]
    rfl
  · have parts : paramParts (String.ofList (strip (spaced [toString base.ordinal, n, d, t, csv blocked]).toList)) =
        [(toString base.ordinal).toList, n.toList, d.toList, t.toList, (csv blocked).toList] := by
      apply paramParts_tokens
      simp only [List.forall_mem_cons]
      exact ⟨token_toString _, token, token', token'', csvToken.1, nofun⟩
    show deserialize (String.ofList (strip (spaced [toString base.ordinal, n, d, t, csv blocked]).toList)) _ _ _ = _
    simp only [deserialize, parts, part, stringPart, csvPart, List.getElem?_cons_zero, List.getElem?_cons_succ,
      if_neg csvToken.1.1, parseCsv_csv csvToken, ok_bind, ok_map, pyInt_toString, String.ofList_toList]
    rfl

theorem plain (preset : a.Preset) : PlainParams a.serialize.toList := by
  obtain ⟨base, node, direction, subnetType, blockedNodes⟩ := a
  obtain ⟨⟨n, rfl, token⟩, ⟨d, rfl, token'⟩, ⟨t, rfl, token''⟩, ⟨blocked, rfl, csvToken⟩⟩ := preset
  have last : csv blocked = "" ∨ Token (csv blocked) :=
    csvToken.imp (fun empty => by rw [empty]; rfl) And.left
  apply plainParams_spaced base.ordinal
  simp only [List.forall_mem_cons]
  exact ⟨Or.inr token, Or.inr token', Or.inr token'', last, nofun⟩

theorem execute_keeps (preset : a.Preset) (w : World Cluster) : (execute.exec (a, w)).2.1 = a := by
  obtain ⟨⟨n, node, _⟩, ⟨d, direction, _⟩, ⟨t, subnetType, _⟩, ⟨blocked, blockedNodes, _⟩⟩ := preset
  unfold execute
  rw [Proc.exec_bind_ok (exec_choose_set (by rw [node]; rfl)),
    Proc.exec_bind_ok (exec_choose_set (by rw [direction]; rfl)),
    Proc.exec_bind_ok (exec_choose_set (by rw [subnetType]; rfl)), Proc.exec_bind_ok (exec_this _),
    if_neg (by simp [blockedNodes]), Proc.exec_bind_ok (exec_this _)]
  rfl

theorem heal_keeps (a : PartitionRandomSubnetAction) (w : World Cluster) : (heal.exec (a, w)).2.1 = a := by
  unfold heal
  rw [Proc.exec_bind_ok (exec_this _)]
  cases a.node <;> rfl

end PartitionRandomSubnetAction

namespace PartitionRandomDcAction

def Preset (a : PartitionRandomDcAction) : Prop := Given Token a.dcName

variable {a : PartitionRandomDcAction}

theorem reads (preset : a.Preset) :
    deserialize (String.ofList (strip a.serialize.toList)) a.dbNodes a.extraNodes a.dcMap = .ok a := by
  obtain ⟨base, dcName⟩ := a
  obtain ⟨d, rfl, token⟩ := preset
  have parts : paramParts (String.ofList (strip (spaced [toString base.ordinal, d]).toList)) =
      [(toString base.ordinal).toList, d.toList] := by
    apply paramParts_tokens
    simp only [List.forall_mem_cons]
    exact ⟨token_toString _, token, nofun⟩
  show deserialize (String.ofList (strip (spaced [toString base.ordinal, d]).toList)) _ _ _ = _
  simp only [deserialize, parts, part, optionalPart, List.getElem?_cons_zero, List.getElem?_cons_succ, ok_bind,
    pyInt_toString, Option.map_some, String.ofList_toList]
  rfl

theorem plain (preset : a.Preset) : PlainParams a.serialize.toList := by
  obtain ⟨base, dcName⟩ := a
  obtain ⟨d, rfl, token⟩ := preset
  apply plainParams_spaced base.ordinal
  simp only [List.forall_mem_cons]
  exact ⟨Or.inr token, nofun⟩

theorem execute_keeps (preset : a.Preset) (w : World Cluster) : (execute.exec (a, w)).2.1 = a := by
  obtain ⟨d, dcName, _⟩ := preset
  unfold execute
  rw [Proc.exec_bind_ok (exec_this _)]
  split
  · rfl
  · rw [Proc.exec_bind_ok (exec_choose_set (by rw [dcName]; rfl)), Proc.exec_bind_ok (exec_this _)]
    dsimp only
    split <;> rfl

end PartitionRandomDcAction

namespace BaseFreezeAction

/-- What a freeze action carries besides its target. -/
def Preset (a : BaseFreezeAction) : Prop :=
  CsvToken a.processes ∧ (0 ≤ a.freezeDurationRange.1 ∧ 0 ≤ a.freezeDurationRange.2) ∧
    0 ≤ a.freezePauseRange.1 ∧ 0 ≤ a.freezePauseRange.2

variable {a : BaseFreezeAction}

theorem toString_digits {z : Int} (nonneg : 0 ≤ z) : '-' ∉ (toString z).toList := by
  obtain ⟨n, rfl⟩ := Int.eq_ofNat_of_zero_le nonneg
  intro member
  have digit : '-'.isDigit = true := by
    have member : '-' ∈ n.repr.toList := member
    rw [Nat.toList_repr] at member
    exact Nat.isDigit_of_mem_toDigits (by omega) (by omega) member
  exact absurd digit (by decide)

theorem toList_serializeRange (range : Int × Int) :
    (serializeRange range).toList = join '-' [(toString range.1).toList, (toString range.2).toList] := by
  unfold serializeRange
  rw [String.toList_append, String.toList_append, join_cons]
  simp

theorem deserializeRange_serializeRange {range : Int × Int} (nonneg : 0 ≤ range.1 ∧ 0 ≤ range.2) :
    deserializeRange (serializeRange range).toList = .ok range := by
  have split : (serializeRange range).toList.splitOn '-' = [(toString range.1).toList, (toString range.2).toList] := by
    rw [toList_serializeRange]
    apply List.splitOn_intercalate
    · simp only [List.forall_mem_cons]
      exact ⟨toString_digits nonneg.1, toString_digits nonneg.2, nofun⟩
    · exact List.cons_ne_nil _ _
  unfold deserializeRange
  rw [split]
  simp only [pyInt_toString, ok_bind]
  rfl

theorem token_serializeRange (range : Int × Int) : Token (serializeRange range) := by
  have first := token_toString range.1
  have second := token_toString range.2
  unfold Token serializeRange
  rw [String.toList_append, String.toList_append]
  constructor
  · simp
  · intro c member
    rcases List.mem_append.mp member with member | member
    · rcases List.mem_append.mp member with member | member
      · exact first.2 c member
      · rw [List.mem_singleton.mp member]
        decide
    · exact second.2 c member

theorem processesOr_some {names : List String} (nonempty : names ≠ []) : processesOr (some names) = names := by
  obtain ⟨n, names, rfl⟩ := List.exists_cons_of_ne_nil nonempty
  rfl

theorem parts_serialize (preset : a.Preset) {target : String} (token : Token target) :
    paramParts (String.ofList (strip (a.serialize (some target)).toList)) =
      [(toString a.ordinal).toList, target.toList, (csv a.processes).toList,
        (serializeRange a.freezeDurationRange).toList, (serializeRange a.freezePauseRange).toList] := by
  apply @paramParts_tokens [toString a.ordinal, target, csv a.processes, serializeRange a.freezeDurationRange,
    serializeRange a.freezePauseRange]
  simp only [List.forall_mem_cons]
  exact ⟨token_toString _, token, preset.1.1, token_serializeRange _, token_serializeRange _, nofun⟩

theorem reads (preset : a.Preset) (target : String) :
    deserialize [(toString a.ordinal).toList, target.toList, (csv a.processes).toList,
      (serializeRange a.freezeDurationRange).toList, (serializeRange a.freezePauseRange).toList]
      a.dbNodes a.extraNodes a.dcMap = .ok a := by
  obtain ⟨csvToken, duration, pause⟩ := preset
  simp only [deserialize, part, csvPart, rangePart, List.getElem?_cons_zero, List.getElem?_cons_succ,
    if_neg csvToken.1.1, parseCsv_csv csvToken, deserializeRange_serializeRange duration,
    deserializeRange_serializeRange pause, processesOr_some csvToken.ne_nil, ok_bind, ok_map, pyInt_toString]
  rfl

theorem plain (preset : a.Preset) {target : String} (token : Token target) :
    PlainParams (a.serialize (some target)).toList := by
  apply plainParams_spaced a.ordinal
  simp only [List.forall_mem_cons]
  exact ⟨Or.inr token, Or.inr preset.1.1, Or.inr (token_serializeRange _), Or.inr (token_serializeRange _), nofun⟩

end BaseFreezeAction

namespace FreezeProcessesAction

def Preset (a : FreezeProcessesAction) : Prop := a.toBaseFreezeAction.Preset ∧ Given Token a.node

variable {a : FreezeProcessesAction}

theorem reads (preset : a.Preset) :
    deserialize (String.ofList (strip a.serialize.toList)) a.dbNodes a.extraNodes a.dcMap = .ok a := by
  obtain ⟨base, node⟩ := a
  obtain ⟨carried, n, rfl, token⟩ := preset
  show deserialize (String.ofList (strip (base.serialize (some n)).toList)) _ _ _ = _
  simp only [deserialize, BaseFreezeAction.parts_serialize carried token, BaseFreezeAction.reads carried, ok_bind,
    optionalPart, List.getElem?_cons_zero, List.getElem?_cons_succ, Option.map_some, String.ofList_toList]
  rfl

theorem plain (preset : a.Preset) : PlainParams a.serialize.toList := by
  obtain ⟨base, node⟩ := a
  obtain ⟨carried, n, rfl, token⟩ := preset
  exact BaseFreezeAction.plain carried token

theorem execute_keeps (preset : a.Preset) (w : World Cluster) : (execute.exec (a, w)).2.1 = a := by
  obtain ⟨_, n, node, _⟩ := preset
  have targets : resolveTargets.exec (a, w) = (.ok [strOrEmpty a.node], a, w) := by
    unfold resolveTargets
    rw [Proc.exec_bind_ok (exec_choose_set (by rw [node]; rfl)), Proc.exec_bind_ok (exec_this _)]
    rfl
  unfold execute
  rw [Proc.exec_bind_ok targets, Proc.exec_bind_ok (exec_this _)]
  rfl

theorem heal_keeps (a : FreezeProcessesAction) (w : World Cluster) : (heal.exec (a, w)).2.1 = a := by
  unfold heal
  rw [Proc.exec_bind_ok (exec_this _)]
  cases a.node <;> rfl

end FreezeProcessesAction

namespace FreezeProcessesGroupAction

def Preset (a : FreezeProcessesGroupAction) : Prop := a.toBaseFreezeAction.Preset ∧ Given Token a.group

variable {a : FreezeProcessesGroupAction}

theorem reads (preset : a.Preset) :
    deserialize (String.ofList (strip a.serialize.toList)) a.dbNodes a.extraNodes a.dcMap = .ok a := by
  obtain ⟨base, group⟩ := a
  obtain ⟨carried, g, rfl, token⟩ := preset
  show deserialize (String.ofList (strip (base.serialize (some g)).toList)) _ _ _ = _
  simp only [deserialize, BaseFreezeAction.parts_serialize carried token, BaseFreezeAction.reads carried, ok_bind,
    optionalPart, List.getElem?_cons_zero, List.getElem?_cons_succ, Option.map_some, String.ofList_toList]
  rfl

theorem plain (preset : a.Preset) : PlainParams a.serialize.toList := by
  obtain ⟨base, group⟩ := a
  obtain ⟨carried, g, rfl, token⟩ := preset
  exact BaseFreezeAction.plain carried token

theorem execute_keeps (preset : a.Preset) (w : World Cluster) : (execute.exec (a, w)).2.1 = a := by
  obtain ⟨_, g, group, _⟩ := preset
  have targets : resolveTargets.exec (a, w) = (.ok a.targetNodes, a, w) := by
    unfold resolveTargets
    rw [Proc.exec_bind_ok (exec_this _), if_neg (by simp [group]), Proc.exec_bind_ok (exec_this _)]
    rfl
  unfold execute
  rw [Proc.exec_bind_ok targets]
  split
  · rfl
  · rw [Proc.exec_bind_ok (exec_this _)]
    rfl

end FreezeProcessesGroupAction

namespace WaitAction

theorem serialize_eq (a : WaitAction) : a.serialize = spaced [toString a.ordinal, toString a.seconds] := by
  rw [← String.toList_inj, toList_spaced, List.map_cons, join_cons]
  simp [serialize]

theorem reads (a : WaitAction) :
    deserialize (String.ofList (strip a.serialize.toList)) a.dbNodes a.extraNodes a.dcMap = .ok a := by
  have parts : paramParts (String.ofList (strip (spaced [toString a.ordinal, toString a.seconds]).toList)) =
      [(toString a.ordinal).toList, (toString a.seconds).toList] := by
    apply paramParts_tokens
    simp only [List.forall_mem_cons]
    exact ⟨token_toString _, token_toString _, nofun⟩
  rw [serialize_eq]
  simp only [deserialize, parts, part, List.getElem?_cons_zero, List.getElem?_cons_succ, ok_bind, pyInt_toString]
  rfl

theorem plain (a : WaitAction) : PlainParams a.serialize.toList := by
  rw [serialize_eq]
  apply plainParams_spaced a.ordinal
  simp only [List.forall_mem_cons]
  exact ⟨Or.inr (token_toString _), nofun⟩

end WaitAction

/-! ## Any built-in action -/

/-- The class of an object. -/
def builtinOf : ActionObj Builtin → ActionClass Builtin Cluster
  | .wait _ => WaitAction.cls
  | .custom (.kill _) => KillProcessAction.cls
  | .custom (.halves _) => PartitionRandomHalvesAction.cls
  | .custom (.ring _) => PartitionMajoritiesRingAction.cls
  | .custom (.node _) => PartitionRandomNodeAction.cls
  | .custom (.subnet _) => PartitionRandomSubnetAction.cls
  | .custom (.dc _) => PartitionRandomDcAction.cls
  | .custom (.freeze _) => FreezeProcessesAction.cls
  | .custom (.freezeGroup _) => FreezeProcessesGroupAction.cls

theorem registered_builtin {name : String} {cls : ActionClass Builtin Cluster}
    (found : defaultRegistry.get? name = some cls) : cls ∈ builtinClasses := by
  have item := (Dict.get?_eq_some _).mp found
  have items : defaultRegistry.items = builtinClasses.map fun c => (c.name, c) := rfl
  rw [items] at item
  obtain ⟨c, member, eq⟩ := List.mem_map.mp item
  exact (Prod.mk.inj eq).2 ▸ member

/-- The attributes every object has. -/
def baseOf : ActionObj Builtin → ActionBase
  | .wait a => a.toActionBase
  | .custom (.kill a) => a.toActionBase
  | .custom (.halves a) => a.toActionBase
  | .custom (.ring a) => a.toActionBase
  | .custom (.node a) => a.toActionBase
  | .custom (.subnet a) => a.toActionBase
  | .custom (.dc a) => a.toActionBase
  | .custom (.freeze a) => a.toActionBase
  | .custom (.freezeGroup a) => a.toActionBase

/-- All parameters that `execute()` would pick are set, and all can stand in a line. -/
def Preset : ActionObj Builtin → Prop
  | .wait _ => True
  | .custom (.kill a) => a.Preset
  | .custom (.halves a) => a.Preset
  | .custom (.ring a) => a.Preset
  | .custom (.node a) => a.Preset
  | .custom (.subnet a) => a.Preset
  | .custom (.dc a) => a.Preset
  | .custom (.freeze a) => a.Preset
  | .custom (.freezeGroup a) => a.Preset

/-- The parameters of an object. -/
def written : ActionObj Builtin → ActionObj Builtin
  | .custom (.kill a) => .custom (.kill a.written)
  | obj => obj

theorem written_written (obj : ActionObj Builtin) : written (written obj) = written obj := by
  match obj with
  | .wait _ | .custom (.kill _) | .custom (.halves _) | .custom (.ring _) | .custom (.node _)
  | .custom (.subnet _) | .custom (.dc _) | .custom (.freeze _) | .custom (.freezeGroup _) => rfl

section Init

variable {α : Type} {base : ActionBase} {kwargs : Kwargs}

/-- What every keyword argument keeps, the constructor keeps. -/
theorem foldlM_keeps {P : α → Prop} {f : α → Kwarg → Except PyExc α} (step : ∀ a k b, f a k = .ok b → P a → P b) :
    ∀ {kwargs : Kwargs} {a b : α}, kwargs.foldlM f a = .ok b → P a → P b := by
  intro kwargs
  induction kwargs with
  | nil =>
    intro a b ok held
    cases ok
    exact held
  | cons k kwargs ih =>
    intro a b ok held
    rw [List.foldlM_cons] at ok
    cases first : f a k with
    | error e =>
      rw [first] at ok
      cases ok
    | ok c =>
      rw [first, ok_bind] at ok
      exact ih ok (step a k c first held)

theorem WaitAction.init_base {a : WaitAction} (made : init base kwargs = .ok a) :
    a.toActionBase = base := by
  refine foldlM_keeps (P := fun a => a.toActionBase = base) (fun a k b step held => ?_) made rfl
  cases k <;> cases step
  all_goals exact held

theorem KillProcessAction.init_base {a : KillProcessAction} (made : init base kwargs = .ok a) :
    a.toActionBase = base := by
  refine foldlM_keeps (P := fun a => a.toActionBase = base) (fun a k b step held => ?_) made rfl
  cases k <;> cases step
  all_goals exact held

theorem PartitionRandomHalvesAction.init_base {a : PartitionRandomHalvesAction} (made : init base kwargs = .ok a) :
    a.toActionBase = base := by
  refine foldlM_keeps (P := fun a => a.toActionBase = base) (fun a k b step held => ?_) made rfl
  cases k <;> cases step
  all_goals exact held

theorem PartitionMajoritiesRingAction.init_base {a : PartitionMajoritiesRingAction} (made : init base kwargs = .ok a) :
    a.toActionBase = base := by
  refine foldlM_keeps (P := fun a => a.toActionBase = base) (fun a k b step held => ?_) made rfl
  cases k <;> cases step
  all_goals exact held

theorem PartitionRandomNodeAction.init_base {a : PartitionRandomNodeAction} (made : init base kwargs = .ok a) :
    a.toActionBase = base := by
  refine foldlM_keeps (P := fun a => a.toActionBase = base) (fun a k b step held => ?_) made rfl
  cases k <;> cases step
  all_goals exact held

theorem PartitionRandomSubnetAction.init_base {a : PartitionRandomSubnetAction} (made : init base kwargs = .ok a) :
    a.toActionBase = base := by
  refine foldlM_keeps (P := fun a => a.toActionBase = base) (fun a k b step held => ?_) made rfl
  cases k <;> cases step
  all_goals exact held

theorem PartitionRandomDcAction.init_base {a : PartitionRandomDcAction} (made : init base kwargs = .ok a) :
    a.toActionBase = base := by
  refine foldlM_keeps (P := fun a => a.toActionBase = base) (fun a k b step held => ?_) made rfl
  cases k <;> cases step
  all_goals exact held

theorem BaseFreezeAction.setKwarg_base {a b : BaseFreezeAction} {k : Kwarg} (step : a.setKwarg k = .ok b) :
    b.toActionBase = a.toActionBase := by
  cases k <;> cases step <;> rfl

theorem FreezeProcessesAction.init_base {a : FreezeProcessesAction} (made : init base kwargs = .ok a) :
    a.toActionBase = base := by
  refine foldlM_keeps (P := fun a => a.toActionBase = base) (fun a k b step held => ?_) made rfl
  split at step
  · cases step
    exact held
  · obtain ⟨c, set, rfl⟩ := map_ok step
    exact (BaseFreezeAction.setKwarg_base set).trans held

theorem FreezeProcessesGroupAction.init_base {a : FreezeProcessesGroupAction} (made : init base kwargs = .ok a) :
    a.toActionBase = base := by
  refine foldlM_keeps (P := fun a => a.toActionBase = base) (fun a k b step held => ?_) made rfl
  split at step
  · cases step
    exact held
  · obtain ⟨c, set, rfl⟩ := map_ok step
    exact (BaseFreezeAction.setKwarg_base set).trans held

/-- A constructor makes an object of its class, with the attributes it is given. -/
theorem init_builtin {cls : ActionClass Builtin Cluster} (member : cls ∈ builtinClasses)
    {dbNodes extraNodes : List String} {ordinal : Int} {dcMap : DcMap} {obj : ActionObj Builtin}
    (made : cls.init dbNodes extraNodes ordinal dcMap kwargs = .ok obj) :
    builtinOf obj = cls ∧ baseOf obj = ⟨dbNodes, extraNodes, ordinal, dcMap⟩ := by
  simp only [builtinClasses, List.mem_cons, List.not_mem_nil, or_false] at member
  rcases member with rfl | rfl | rfl | rfl | rfl | rfl | rfl | rfl | rfl <;> obtain ⟨a, built, rfl⟩ := map_ok made
  · exact ⟨rfl, WaitAction.init_base built⟩
  · exact ⟨rfl, KillProcessAction.init_base built⟩
  · exact ⟨rfl, PartitionRandomHalvesAction.init_base built⟩
  · exact ⟨rfl, PartitionMajoritiesRingAction.init_base built⟩
  · exact ⟨rfl, PartitionRandomNodeAction.init_base built⟩
  · exact ⟨rfl, PartitionRandomSubnetAction.init_base built⟩
  · exact ⟨rfl, PartitionRandomDcAction.init_base built⟩
  · exact ⟨rfl, FreezeProcessesAction.init_base built⟩
  · exact ⟨rfl, FreezeProcessesGroupAction.init_base built⟩

end Init

/-- An action with its parameters set, over the nodes and the DC map of an engine. -/
structure Fixed (dbNodes extraNodes : List String) (dcMap : DcMap) (a : FaultAction Builtin Cluster) : Prop where
  cls : a.cls = builtinOf a.self
  dbNodes : (baseOf a.self).dbNodes = dbNodes
  extraNodes : (baseOf a.self).extraNodes = extraNodes
  dcMap : (baseOf a.self).dcMap = dcMap
  preset : Preset a.self

namespace Fixed

variable {dbNodes extraNodes : List String} {dcMap : DcMap} {a : FaultAction Builtin Cluster}

theorem plainName_names : ∀ name ∈ ["wait", "kill", "partition_random_halves", "partition_majorities_ring",
    "partition_random_node", "partition_random_subnet", "partition_random_dc", "freeze_processes",
    "freeze_processes_group"], PlainName name.toList := by
  decide

theorem builtinOf_registered (obj : ActionObj Builtin) : defaultRegistry.get? (builtinOf obj).name = some (builtinOf obj) := by
  match obj with
  | .wait _ | .custom (.kill _) | .custom (.halves _) | .custom (.ring _) | .custom (.node _)
  | .custom (.subnet _) | .custom (.dc _) | .custom (.freeze _) | .custom (.freezeGroup _) => rfl

/-- The parameter string of an object can stand in a line. -/
theorem plainParams {obj : ActionObj Builtin} (preset : Preset obj) : PlainParams ((builtinOf obj).serialize obj).toList := by
  match obj with
  | .wait a => exact a.plain
  | .custom (.kill _) => exact KillProcessAction.plain preset
  | .custom (.halves _) => exact PartitionRandomHalvesAction.plain preset
  | .custom (.ring _) => exact PartitionMajoritiesRingAction.plain preset
  | .custom (.node _) => exact PartitionRandomNodeAction.plain preset
  | .custom (.subnet _) => exact PartitionRandomSubnetAction.plain preset
  | .custom (.dc _) => exact PartitionRandomDcAction.plain preset
  | .custom (.freeze _) => exact FreezeProcessesAction.plain preset
  | .custom (.freezeGroup _) => exact FreezeProcessesGroupAction.plain preset

section Class

variable {α : Type} {wrap : α → Builtin} {view : Builtin → Option α} {name : String} {healable hostTargetable : Bool}
  {init : ActionBase → Kwargs → Except PyExc α} {execute heal : ActionM α Unit} {ordinal : α → Int}
  {serialize : α → String} {deserialize : String → List String → List String → DcMap → Except PyExc α}

theorem builtinClass_reads {a b : α} (viewed : view (wrap a) = some a)
    (read : deserialize (String.ofList (strip (serialize a).toList)) dbNodes extraNodes dcMap = .ok b) :
    let cls := builtinClass wrap view name healable hostTargetable init execute heal ordinal serialize deserialize
    cls.deserialize (String.ofList (strip (cls.serialize (.custom (wrap a))).toList)) dbNodes extraNodes dcMap =
      .ok (.custom (wrap b)) := by
  simp only [builtinClass, viewed, Option.map_some, Option.getD_some, read, ok_map]

theorem builtinMethod_keeps {m : ActionM α Unit} {a : α} (viewed : view (wrap a) = some a) {w : World Cluster}
    (kept : (m.exec (a, w)).2.1 = a) :
    (Proc.exec (builtinMethod wrap view m) (.custom (wrap a), w)).2.1 = .custom (wrap a) := by
  show (builtinMethod wrap view m (.custom (wrap a), w)).2.1 = .custom (wrap a)
  simp only [builtinMethod, viewed, kept]

end Class

/-- The parameter string of an object tells its parameters. -/
theorem reads {obj : ActionObj Builtin} (preset : Preset obj) :
    (builtinOf obj).deserialize (String.ofList (strip ((builtinOf obj).serialize obj).toList)) (baseOf obj).dbNodes
      (baseOf obj).extraNodes (baseOf obj).dcMap = .ok (written obj) := by
  match obj with
  | .wait a => exact congrArg (ActionObj.wait <$> ·) a.reads
  | .custom (.kill _) => exact builtinClass_reads rfl (KillProcessAction.reads preset)
  | .custom (.halves _) => exact builtinClass_reads rfl (PartitionRandomHalvesAction.reads preset)
  | .custom (.ring _) => exact builtinClass_reads rfl (PartitionMajoritiesRingAction.reads preset)
  | .custom (.node _) => exact builtinClass_reads rfl (PartitionRandomNodeAction.reads preset)
  | .custom (.subnet _) => exact builtinClass_reads rfl (PartitionRandomSubnetAction.reads preset)
  | .custom (.dc _) => exact builtinClass_reads rfl (PartitionRandomDcAction.reads preset)
  | .custom (.freeze _) => exact builtinClass_reads rfl (FreezeProcessesAction.reads preset)
  | .custom (.freezeGroup _) => exact builtinClass_reads rfl (FreezeProcessesGroupAction.reads preset)

/-- The line of a fixed action tells its parameters. -/
theorem readable (fixed : Fixed dbNodes extraNodes dcMap a) :
    Readable defaultRegistry dbNodes extraNodes dcMap a (written a.self) := by
  obtain ⟨id, cls, self⟩ := a
  obtain ⟨same, rfl, rfl, rfl, preset⟩ := fixed
  obtain rfl : cls = builtinOf self := same
  constructor
  · exact builtinOf_registered self
  · apply plainName_names
    exact Dict.mem_keys_of_get? (builtinOf_registered self)
  · exact plainParams preset
  · exact reads preset

/-- A method that leaves its object leaves the action. -/
theorem call_eq {id : Nat} {cls : ActionClass Builtin Cluster} {obj : ActionObj Builtin} {method : Method Builtin Cluster}
    {w : World Cluster} (kept : (method.exec (obj, w)).2.1 = obj) :
    ((⟨id, cls, obj⟩ : FaultAction Builtin Cluster).call method w).2.1 = ⟨id, cls, obj⟩ :=
  congrArg (FaultAction.mk id cls) kept

/-- `execute()` of a fixed action leaves its object as it is. -/
theorem execute_keeps (fixed : Fixed dbNodes extraNodes dcMap a) (w : World Cluster) :
    (a.call a.cls.execute w).2.1 = a := by
  obtain ⟨id, cls, self⟩ := a
  obtain ⟨same, _, _, _, preset⟩ := fixed
  obtain rfl : cls = builtinOf self := same
  apply call_eq
  match self with
  | .wait _ => rfl
  | .custom (.kill _) => exact builtinMethod_keeps rfl (KillProcessAction.execute_keeps preset w)
  | .custom (.halves _) => exact builtinMethod_keeps rfl (PartitionRandomHalvesAction.execute_keeps preset w)
  | .custom (.ring _) => exact builtinMethod_keeps rfl (PartitionMajoritiesRingAction.execute_keeps preset w)
  | .custom (.node _) => exact builtinMethod_keeps rfl (PartitionRandomNodeAction.execute_keeps preset w)
  | .custom (.subnet _) => exact builtinMethod_keeps rfl (PartitionRandomSubnetAction.execute_keeps preset w)
  | .custom (.dc _) => exact builtinMethod_keeps rfl (PartitionRandomDcAction.execute_keeps preset w)
  | .custom (.freeze _) => exact builtinMethod_keeps rfl (FreezeProcessesAction.execute_keeps preset w)
  | .custom (.freezeGroup _) => exact builtinMethod_keeps rfl (FreezeProcessesGroupAction.execute_keeps preset w)

/-- `heal()` leaves its object as it is. -/
theorem heal_leaves {a : FaultAction Builtin Cluster} (same : a.cls = builtinOf a.self) (w : World Cluster) :
    (a.call a.cls.heal w).2.1 = a := by
  obtain ⟨id, cls, self⟩ := a
  obtain rfl : cls = builtinOf self := same
  apply call_eq
  match self with
  | .wait _ | .custom (.kill _) | .custom (.halves _) | .custom (.ring _) | .custom (.node _) | .custom (.dc _)
  | .custom (.freezeGroup _) => rfl
  | .custom (.subnet a) => exact builtinMethod_keeps rfl (PartitionRandomSubnetAction.heal_keeps a w)
  | .custom (.freeze a) => exact builtinMethod_keeps rfl (FreezeProcessesAction.heal_keeps a w)

theorem heal_keeps (fixed : Fixed dbNodes extraNodes dcMap a) (w : World Cluster) :
    (a.call a.cls.heal w).2.1 = a :=
  heal_leaves fixed.cls w

end Fixed

end FaultStorm
