import FaultStorm.Faults.Decoding
import FaultStorm.Faults.Engine.Codec
import FaultStorm.Faults.Engine.Replay

/-!
# Recording a replay

A replay writes each entry of its log again, before it executes it or after it healed it. The new
log is always accepted. It tells the same entries unless a heal mark stands on an action that is
not healable, or a freeze has no target: the patterns are then read as its target.
-/

namespace FaultStorm

open Python Python.Text

/-! ## What is read from the line of a decoded action -/

/-- A freeze whose line has nothing where the target stands. -/
def BaseFreezeAction.shifted (a : BaseFreezeAction) : BaseFreezeAction :=
  { a with processes := [serializeRange a.freezeDurationRange], freezeDurationRange := a.freezePauseRange,
           freezePauseRange := defaultPauseRange }

/-- The object that is read from the line of an object. -/
def reread : ActionObj Builtin → ActionObj Builtin
  | .custom (.dc a) => .custom (.dc { a with dcName := some (strOrNone a.dcName) })
  | .custom (.freeze ⟨a, none⟩) => .custom (.freeze ⟨a.shifted, some (csv a.processes)⟩)
  | .custom (.freezeGroup ⟨a, none⟩) => .custom (.freezeGroup ⟨a.shifted, some (csv a.processes)⟩)
  | obj => written obj

/-- The target of a freeze is set. -/
def Targeted : ActionObj Builtin → Prop
  | .custom (.freeze a) => a.node.isSome
  | .custom (.freezeGroup a) => a.group.isSome
  | _ => True

theorem PartitionRandomNodeAction.reads_unset (base : ActionBase) :
    deserialize (String.ofList (strip (serialize ⟨base, none⟩).toList)) base.dbNodes base.extraNodes base.dcMap =
      .ok ⟨base, none⟩ := by
  have parts : paramParts (String.ofList (strip (spaced [toString base.ordinal, ""]).toList)) =
      [(toString base.ordinal).toList] := by
    apply @paramParts_tokens_empty [toString base.ordinal]
    simp only [List.forall_mem_cons]
    exact ⟨token_toString _, nofun⟩
  show deserialize (String.ofList (strip (spaced [toString base.ordinal, ""]).toList)) _ _ _ = _
  simp only [deserialize, parts, part, optionalPart, List.getElem?_cons_zero, List.getElem?_cons_succ, List.getElem?_nil,
    ok_bind, pyInt_toString, Option.map_none]
  rfl

theorem PartitionRandomNodeAction.plain_unset (base : ActionBase) : PlainParams (serialize ⟨base, none⟩).toList := by
  apply plainParams_spaced base.ordinal
  simp only [List.forall_mem_cons]
  exact ⟨Or.inl rfl, nofun⟩

namespace BaseFreezeAction

variable {a : BaseFreezeAction}

theorem plain_unset (preset : a.Preset) : PlainParams (a.serialize none).toList := by
  apply plainParams_spaced a.ordinal
  simp only [List.forall_mem_cons]
  exact ⟨Or.inl rfl, Or.inr preset.1.1, Or.inr (token_serializeRange _), Or.inr (token_serializeRange _), nofun⟩

theorem parts_unset (preset : a.Preset) :
    paramParts (String.ofList (strip (a.serialize none).toList)) =
      [(toString a.ordinal).toList, (csv a.processes).toList, (serializeRange a.freezeDurationRange).toList,
        (serializeRange a.freezePauseRange).toList] := by
  have tokens : ∀ p ∈ [csv a.processes, serializeRange a.freezeDurationRange, serializeRange a.freezePauseRange], Token p := by
    simp only [List.forall_mem_cons]
    exact ⟨preset.1.1, token_serializeRange _, token_serializeRange _, nofun⟩
  have known : ∀ p ∈ toString a.ordinal :: "" :: [csv a.processes, serializeRange a.freezeDurationRange,
      serializeRange a.freezePauseRange], p = "" ∨ Token p := by
    rw [List.forall_mem_cons, List.forall_mem_cons]
    exact ⟨Or.inr (token_toString _), Or.inl rfl, fun p member => Or.inr (tokens p member)⟩
  rw [paramParts_strip]
  refine (paramParts_spaced known).trans ?_
  rw [List.map_cons, List.map_cons, List.filter_cons_of_pos (by simpa using toString_ne_nil a.ordinal),
    List.filter_cons_of_neg (by simp), filter_tokens tokens]
  rfl

theorem parseCsv_serializeRange (range : Int × Int) :
    parseCsv (serializeRange range).toList = [serializeRange range] := by
  have comma : ',' ∉ (serializeRange range).toList := by
    intro member
    rw [toList_serializeRange] at member
    rcases mem_join member with dash | ⟨l, among, inside⟩
    · exact absurd dash (by decide)
    · simp only [List.mem_cons, List.not_mem_nil, or_false] at among
      rcases among with rfl | rfl <;> rcases toString_chars _ inside with digit | sign
      · exact absurd digit (by decide)
      · exact absurd sign (by decide)
      · exact absurd digit (by decide)
      · exact absurd sign (by decide)
  rw [parseCsv, List.splitOn_eq_singleton comma, List.map_singleton, String.ofList_toList]

/-- The first range is read as the only pattern, and the second one as the first. -/
theorem reads_unset (preset : a.Preset) :
    deserialize [(toString a.ordinal).toList, (csv a.processes).toList, (serializeRange a.freezeDurationRange).toList,
      (serializeRange a.freezePauseRange).toList] a.dbNodes a.extraNodes a.dcMap = .ok a.shifted := by
  have pause := deserializeRange_serializeRange preset.2.2
  simp only [deserialize, part, csvPart, rangePart, List.getElem?_cons_zero, List.getElem?_cons_succ, List.getElem?_nil,
    if_neg (token_serializeRange a.freezeDurationRange).1, parseCsv_serializeRange, pause, ok_bind, ok_map, pyInt_toString]
  rfl

theorem Preset.shifted (preset : a.Preset) : a.shifted.Preset := by
  have default : 0 ≤ defaultPauseRange.1 ∧ 0 ≤ defaultPauseRange.2 := by decide
  refine ⟨?_, preset.2.2, default⟩
  have token := csvToken_parseCsv (token_serializeRange a.freezeDurationRange)
  rw [parseCsv_serializeRange] at token
  exact token

/-- With the patterns as its target the action has one part more. -/
theorem serialize_shifted (preset : a.Preset) : a.shifted.serialize (some (csv a.processes)) ≠ a.serialize none := by
  intro same
  have five := parts_serialize preset.shifted preset.1.1
  rw [same, parts_unset preset] at five
  have lengths := congrArg List.length five
  simp at lengths

end BaseFreezeAction

namespace Decoded

/-- The parameter string of a decoded object can stand in a line. -/
theorem plainParams {obj : ActionObj Builtin} (decoded : Decoded obj) :
    PlainParams ((builtinOf obj).serialize obj).toList := by
  match obj with
  | .wait _ | .custom (.kill _) | .custom (.halves _) | .custom (.ring _) | .custom (.subnet _) =>
    exact Fixed.plainParams decoded
  | .custom (.node ⟨base, none⟩) => exact PartitionRandomNodeAction.plain_unset base
  | .custom (.node ⟨_, some node⟩) => exact PartitionRandomNodeAction.plain ⟨node, rfl, decoded node rfl⟩
  | .custom (.dc ⟨base, none⟩) =>
    exact @PartitionRandomDcAction.plain ⟨base, some "None"⟩ ⟨"None", rfl, by unfold Token; decide⟩
  | .custom (.dc ⟨_, some dcName⟩) => exact PartitionRandomDcAction.plain ⟨dcName, rfl, decoded dcName rfl⟩
  | .custom (.freeze ⟨_, none⟩) => exact BaseFreezeAction.plain_unset decoded.1
  | .custom (.freeze ⟨_, some node⟩) => exact BaseFreezeAction.plain decoded.1 (decoded.2 node rfl)
  | .custom (.freezeGroup ⟨_, none⟩) => exact BaseFreezeAction.plain_unset decoded.1
  | .custom (.freezeGroup ⟨_, some group⟩) => exact BaseFreezeAction.plain decoded.1 (decoded.2 group rfl)

/-- What is read from the parameter string of a decoded object. -/
theorem reads {obj : ActionObj Builtin} (decoded : Decoded obj) :
    (builtinOf obj).deserialize (String.ofList (strip ((builtinOf obj).serialize obj).toList)) (baseOf obj).dbNodes
      (baseOf obj).extraNodes (baseOf obj).dcMap = .ok (reread obj) := by
  match obj with
  | .wait _ | .custom (.kill _) | .custom (.halves _) | .custom (.ring _) | .custom (.subnet _) =>
    exact Fixed.reads decoded
  | .custom (.node ⟨base, none⟩) =>
    exact Fixed.builtinClass_reads rfl (PartitionRandomNodeAction.reads_unset base)
  | .custom (.node ⟨_, some node⟩) =>
    exact Fixed.builtinClass_reads rfl (PartitionRandomNodeAction.reads ⟨node, rfl, decoded node rfl⟩)
  | .custom (.dc ⟨base, none⟩) =>
    exact Fixed.builtinClass_reads rfl
      (@PartitionRandomDcAction.reads ⟨base, some "None"⟩ ⟨"None", rfl, by unfold Token; decide⟩)
  | .custom (.dc ⟨_, some dcName⟩) =>
    exact Fixed.builtinClass_reads rfl (PartitionRandomDcAction.reads ⟨dcName, rfl, decoded dcName rfl⟩)
  | .custom (.freeze ⟨base, none⟩) =>
    refine Fixed.builtinClass_reads rfl ?_
    show FreezeProcessesAction.deserialize (String.ofList (strip (base.serialize none).toList)) base.dbNodes
      base.extraNodes base.dcMap = _
    simp only [FreezeProcessesAction.deserialize, BaseFreezeAction.parts_unset decoded.1,
      BaseFreezeAction.reads_unset decoded.1, ok_bind, optionalPart, List.getElem?_cons_zero, List.getElem?_cons_succ,
      Option.map_some, String.ofList_toList]
    rfl
  | .custom (.freeze ⟨_, some node⟩) =>
    exact Fixed.builtinClass_reads rfl (FreezeProcessesAction.reads ⟨decoded.1, node, rfl, decoded.2 node rfl⟩)
  | .custom (.freezeGroup ⟨base, none⟩) =>
    refine Fixed.builtinClass_reads rfl ?_
    show FreezeProcessesGroupAction.deserialize (String.ofList (strip (base.serialize none).toList)) base.dbNodes
      base.extraNodes base.dcMap = _
    simp only [FreezeProcessesGroupAction.deserialize, BaseFreezeAction.parts_unset decoded.1,
      BaseFreezeAction.reads_unset decoded.1, ok_bind, optionalPart, List.getElem?_cons_zero, List.getElem?_cons_succ,
      Option.map_some, String.ofList_toList]
    rfl
  | .custom (.freezeGroup ⟨_, some group⟩) =>
    exact Fixed.builtinClass_reads rfl (FreezeProcessesGroupAction.reads ⟨decoded.1, group, rfl, decoded.2 group rfl⟩)

/-- The parameter string stays the same unless it is that of a freeze without a target. -/
theorem serialize_reread {obj : ActionObj Builtin} (decoded : Decoded obj) :
    (builtinOf obj).serialize (reread obj) = (builtinOf obj).serialize obj ↔ Targeted obj := by
  match obj with
  | .wait _ | .custom (.kill _) | .custom (.halves _) | .custom (.ring _) | .custom (.node _) | .custom (.subnet _)
  | .custom (.dc _) => exact iff_of_true rfl trivial
  | .custom (.freeze ⟨_, some _⟩) | .custom (.freezeGroup ⟨_, some _⟩) => exact iff_of_true rfl rfl
  | .custom (.freeze ⟨base, none⟩) | .custom (.freezeGroup ⟨base, none⟩) =>
    refine iff_of_false ?_ nofun
    exact BaseFreezeAction.serialize_shifted decoded.1

end Decoded

/-! ## Recording a replay -/

namespace FaultEngine

variable {e : Setup Builtin Cluster}

/-- An entry of a parsed log: its class, its parameter string, and whether it is a heal. -/
def entryOf (command : FaultAction Builtin Cluster × Bool) : ActionClass Builtin Cluster × String × Bool :=
  (command.1.cls, command.1.cls.serialize command.1.self, command.2)

/-- A heal is of a healable action, and a freeze has its target. -/
def Rerecordable (command : FaultAction Builtin Cluster × Bool) : Prop :=
  (command.2 = true → command.1.cls.healable = true) ∧ Targeted command.1.self

/-- The commands of a log that `_parse_log` accepts. -/
theorem parseLines_decoded {dbNodes extraNodes : List String} {dcMap : DcMap} {id : Nat} {lines : List (List Char)}
    {commands : List (FaultAction Builtin Cluster × Bool)}
    (ok : parseLines defaultRegistry dbNodes extraNodes dcMap id lines = .ok commands) :
    ∀ c ∈ commands, c.1.cls = builtinOf c.1.self ∧ ReadOver dbNodes extraNodes dcMap c.1.self := by
  induction lines generalizing id commands with
  | nil =>
    cases ok
    exact fun _ member => absurd member List.not_mem_nil
  | cons raw rest ih =>
    obtain ⟨line, parsed, ok⟩ := bind_ok ok
    cases line with
    | none => exact ih ok
    | some line =>
      obtain ⟨isHeal, name, params⟩ := line
      obtain ⟨action, named, ok⟩ := bind_ok ok
      obtain ⟨results, later, ok⟩ := bind_ok ok
      obtain rfl := Except.ok.inj ok
      rw [List.forall_mem_cons]
      refine ⟨?_, ih later⟩
      unfold parseAction at named
      split at named
      · cases named
      · rename_i cls found
        obtain ⟨self, read, rfl⟩ := map_ok named
        obtain ⟨same, readOver⟩ := deserialize_builtin (registered_builtin found) read
        exact ⟨same.symm, readOver⟩

/-- Each command gets a line of its own: as it was read, or after its heal. -/
theorem exec_replayCommands_lines {commands : List (FaultAction Builtin Cluster × Bool)} {stopAt : Nat}
    (enough : commands.length ≤ stopAt) (builtin : ∀ c ∈ commands, c.1.cls = builtinOf c.1.self)
    {s : FaultEngine Builtin Cluster} (isOpen : s.logOpen = true) :
    ∃ t, ∃ entries : List (Entry Builtin Cluster), (replayCommands commands stopAt).exec s = (.ok (), t) ∧
      t.scenario = s.scenario ++ entries.map Entry.line ∧
      entries.map (fun x => (x.action, x.healing)) = commands.map fun c => (c.1, c.2 && c.1.cls.healable) := by
  induction commands generalizing stopAt s with
  | nil => exact ⟨s, [], rfl, (List.append_nil _).symm, rfl⟩
  | cons command rest ih =>
    obtain ⟨a, isHeal⟩ := command
    obtain ⟨stopAt, rfl⟩ : ∃ k, stopAt = k + 1 := ⟨stopAt - 1, by simp at enough; omega⟩
    have one : ∃ u, (replayCommand (a, isHeal)).exec { s with history := s.history ++ [.stopChecked false] } = (.ok (), u) ∧
        u.logOpen = true ∧ u.scenario = s.scenario ++ [actionLine (s.clock 0) a isHeal] := by
      unfold replayCommand
      cases isHeal with
      | true =>
        have healed := Fixed.heal_leaves (builtin (a, true) List.mem_cons_self) s.world
        simp only [if_true]
        rw [Proc.exec_bind_ok (exec_note _ _), Proc.exec_bind_ok (exec_callMethod ..), Proc.exec_bind_ok (exec_note _ _),
          exec_writeAction]
        refine ⟨_, rfl, ?_, ?_⟩
        · rw [wrote_logOpen]
          exact isOpen
        · unfold wrote
          rw [if_pos isOpen]
          show s.scenario ++ [actionLine (s.clock 0) (a.call a.cls.heal s.world).2.1 true] = _
          rw [healed]
      | false =>
        simp only [Bool.false_eq_true, if_false]
        rw [Proc.exec_bind_ok (exec_logAndExecute a _)]
        refine ⟨_, rfl, ?_, ?_⟩
        · rw [ran_logOpen]
          exact isOpen
        · show (wrote a false _).scenario = _
          unfold wrote
          rw [if_pos isOpen]
    obtain ⟨u, ran, opened, line⟩ := one
    have fewer : rest.length ≤ stopAt := by simpa using enough
    obtain ⟨t, entries, later, scenario, same⟩ :=
      ih fewer (fun c member => builtin c (List.mem_cons_of_mem _ member)) opened
    refine ⟨t, ⟨s.clock 0, a, isHeal && a.cls.healable⟩ :: entries, ?_, ?_, ?_⟩
    · rw [replayCommands, Proc.exec_bind_ok (exec_note _ _), Proc.exec_bind_ok ran, later]
    · rw [scenario, line, List.append_assoc, List.map_cons, Entry.line, actionLine_healing]
      rfl
    · rw [List.map_cons, same]
      rfl

/-- The line of a decoded action can be read back. -/
theorem readable_reread {dbNodes extraNodes : List String} {dcMap : DcMap} {a : FaultAction Builtin Cluster}
    (same : a.cls = builtinOf a.self) (read : ReadOver dbNodes extraNodes dcMap a.self) :
    Readable defaultRegistry dbNodes extraNodes dcMap a (reread a.self) := by
  obtain ⟨id, cls, self⟩ := a
  obtain ⟨rfl, rfl, rfl, decoded⟩ := read
  obtain rfl : cls = builtinOf self := same
  constructor
  · exact Fixed.builtinOf_registered self
  · apply Fixed.plainName_names
    exact Dict.mem_keys_of_get? (Fixed.builtinOf_registered self)
  · exact decoded.plainParams
  · exact decoded.reads

/-- A replay that is not interrupted writes a log that is accepted. It is read as the same entries if
and only if every heal is of a healable action and every freeze has its target. -/
theorem runReplay_rerecords_iff (e : Setup Builtin Cluster) (builtin : e.registry = defaultRegistry) {file : List Char}
    {commands : List (FaultAction Builtin Cluster × Bool)}
    (accepted : parseLog e.registry e.config.dbNodes e.config.extraNodes e.dcMap file = .ok commands) {stopAt : Nat}
    (uninterrupted : commands.length ≤ stopAt) (world : World Cluster) (clock : Nat → DateTime) :
    ∃ t commands', (runReplay e file stopAt).exec (.fresh world clock) = (.ok (), t) ∧
      parseLog e.registry e.config.dbNodes e.config.extraNodes e.dcMap (fileText t.scenario) = .ok commands' ∧
      (commands'.map entryOf = commands.map entryOf ↔ ∀ c ∈ commands, Rerecordable c) := by
  have decoded := accepted
  rw [builtin] at decoded
  have decoded := parseLines_decoded decoded
  obtain ⟨t, entries, ran, scenario, same⟩ := exec_replayCommands_lines uninterrupted (fun c member => (decoded c member).1)
    (s := opened { (FaultEngine.fresh world clock : FaultEngine Builtin Cluster) with history := [.stopCleared] }) rfl
  obtain ⟨commands', parsed, told⟩ := parseLog_events reread same
    (fun c member => readable_reread (decoded c member).1 (decoded c member).2) (clock 0)
  refine ⟨closeLog t, commands', ?_, ?_, ?_⟩
  · unfold runReplay
    rw [Proc.exec_bind_ok (exec_note _ _)]
    simp only [accepted]
    rw [Proc.exec_bind_ok (exec_openLog _), Proc.exec_ensuring]
    exact congrArg (fun r => (r.1, closeLog r.2)) ran
  · have text : (closeLog t).scenario = headerLines (clock 0) ++ entries.map Entry.line := scenario
    rw [builtin, text]
    exact parsed
  · have view := congrArg (List.map fun y : ActionClass Builtin Cluster × ActionObj Builtin × Bool =>
      (y.1, y.1.serialize y.2.1, y.2.2)) told
    rw [List.map_map, List.map_map] at view
    have entries_eq : commands'.map entryOf = commands.map fun c =>
      (c.1.cls, c.1.cls.serialize (reread c.1.self), c.2 && c.1.cls.healable) := view
    rw [entries_eq, List.map_inj_left]
    refine forall₂_congr fun c member => ?_
    obtain ⟨cls, read⟩ := decoded c member
    have params : c.1.cls.serialize (reread c.1.self) = c.1.cls.serialize c.1.self ↔ Targeted c.1.self := by
      rw [cls]
      exact read.decoded.serialize_reread
    simp only [entryOf, Rerecordable, Prod.mk.injEq, true_and, params, Bool.and_eq_left_iff_imp]
    exact and_comm

/-- A kill with a heal mark. -/
def markedKill : List Char := "[2024-05-17T09:30:00.000] -kill 1 postgres pg1\n".toList

/-- The action in that log. -/
def killPg1 : FaultAction Builtin Cluster where
  id := 0
  cls := KillProcessAction.cls
  self := .custom (.kill { dbNodes := ["pg1", "pg2"], extraNodes := [], ordinal := 1, dcMap := Dict.empty,
                           process := some "postgres", node := some "pg1", processes := ["postgres", "pgconsul"] })

theorem parseLog_markedKill :
    parseLog pairSetup.registry pairSetup.config.dbNodes pairSetup.config.extraNodes pairSetup.dcMap markedKill =
      .ok [(killPg1, true)] := by rfl

theorem runReplay_rerecords_iff_stoppedLog :
    ∃ t commands', (runReplay pairSetup stoppedLog 1).exec (.fresh ⟨id, idleCluster⟩ fun _ => ⟨2024, 5, 17, 10, 0, 0, 0⟩) =
        (.ok (), t) ∧
      parseLog pairSetup.registry pairSetup.config.dbNodes pairSetup.config.extraNodes pairSetup.dcMap
        (fileText t.scenario) = .ok commands' ∧
      (commands'.map entryOf = [(isolation, false)].map entryOf ↔ ∀ c ∈ [(isolation, false)], Rerecordable c) :=
  runReplay_rerecords_iff pairSetup rfl parseLog_stoppedLog (by decide) _ _

/-- The heal of the kill is recorded as a kill. -/
theorem markedKill_not_rerecorded :
    parseLog pairSetup.registry pairSetup.config.dbNodes pairSetup.config.extraNodes pairSetup.dcMap markedKill =
        .ok [(killPg1, true)] ∧
      ∃ t commands', (runReplay pairSetup markedKill 1).exec (.fresh ⟨id, idleCluster⟩ fun _ => ⟨2024, 5, 17, 10, 0, 0, 0⟩) =
          (.ok (), t) ∧
        parseLog pairSetup.registry pairSetup.config.dbNodes pairSetup.config.extraNodes pairSetup.dcMap
          (fileText t.scenario) = .ok commands' ∧
        commands'.map entryOf ≠ [(killPg1, true)].map entryOf := by
  have whole : [(killPg1, true)].length ≤ 1 := by decide
  obtain ⟨t, commands', ran, parsed, iff⟩ := runReplay_rerecords_iff pairSetup rfl parseLog_markedKill whole
    ⟨id, idleCluster⟩ fun _ => ⟨2024, 5, 17, 10, 0, 0, 0⟩
  refine ⟨parseLog_markedKill, t, commands', ran, parsed, fun same => ?_⟩
  have healable := (iff.mp same (killPg1, true) List.mem_cons_self).1 rfl
  cases healable

end FaultEngine

end FaultStorm
