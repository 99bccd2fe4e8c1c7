import FaultStorm.Faults.Engine.Steps
import FaultStorm.Faults.Presets

/-!
# The scenario log as a codec

`_open_log` and the calls of `_write_action` after it write a file that `_parse_log` reads back
as the same actions, over the nodes and the DC map of the engine that reads it.
-/

namespace FaultStorm

open Python

variable {β ω : Type}

/-! ## The actions an engine reads -/

/-- The object with its parameters, over the nodes and the DC map of the engine that reads it. -/
def rebase (dbNodes extraNodes : List String) (dcMap : DcMap) : ActionObj Builtin → ActionObj Builtin
  | .wait a => .wait { a with dbNodes, extraNodes, dcMap }
  | .custom (.kill a) => .custom (.kill { a with dbNodes, extraNodes, dcMap })
  | .custom (.halves a) => .custom (.halves { a with dbNodes, extraNodes, dcMap })
  | .custom (.ring a) => .custom (.ring { a with dbNodes, extraNodes, dcMap })
  | .custom (.node a) => .custom (.node { a with dbNodes, extraNodes, dcMap })
  | .custom (.subnet a) => .custom (.subnet { a with dbNodes, extraNodes, dcMap })
  | .custom (.dc a) => .custom (.dc { a with dbNodes, extraNodes, dcMap })
  | .custom (.freeze a) => .custom (.freeze { a with dbNodes, extraNodes, dcMap })
  | .custom (.freezeGroup a) => .custom (.freezeGroup { a with dbNodes, extraNodes, dcMap })

section Rebase

variable (dbNodes extraNodes : List String) (dcMap : DcMap)

@[simp] theorem builtinOf_rebase (obj : ActionObj Builtin) :
    builtinOf (rebase dbNodes extraNodes dcMap obj) = builtinOf obj := by
  match obj with
  | .wait _ | .custom (.kill _) | .custom (.halves _) | .custom (.ring _) | .custom (.node _)
  | .custom (.subnet _) | .custom (.dc _) | .custom (.freeze _) | .custom (.freezeGroup _) => rfl

/-- The nodes and the DC map are not part of the parameter string. -/
theorem serialize_rebase (obj : ActionObj Builtin) :
    (builtinOf obj).serialize (rebase dbNodes extraNodes dcMap obj) = (builtinOf obj).serialize obj := by
  match obj with
  | .wait _ | .custom (.kill _) | .custom (.halves _) | .custom (.ring _) | .custom (.node _)
  | .custom (.subnet _) | .custom (.dc _) | .custom (.freeze _) | .custom (.freezeGroup _) => rfl

theorem preset_rebase {obj : ActionObj Builtin} (preset : Preset obj) :
    Preset (rebase dbNodes extraNodes dcMap obj) := by
  match obj with
  | .wait _ | .custom (.kill _) | .custom (.halves _) | .custom (.ring _) | .custom (.node _)
  | .custom (.subnet _) | .custom (.dc _) | .custom (.freeze _) | .custom (.freezeGroup _) => exact preset

theorem baseOf_rebase (obj : ActionObj Builtin) :
    baseOf (rebase dbNodes extraNodes dcMap obj) = ⟨dbNodes, extraNodes, (baseOf obj).ordinal, dcMap⟩ := by
  match obj with
  | .wait _ | .custom (.kill _) | .custom (.halves _) | .custom (.ring _) | .custom (.node _)
  | .custom (.subnet _) | .custom (.dc _) | .custom (.freeze _) | .custom (.freezeGroup _) => rfl

/-- The line of an action with its parameters set is read as the same parameters. -/
theorem readable_rebase {a : FaultAction Builtin Cluster} (cls : a.cls = builtinOf a.self) (preset : Preset a.self) :
    Readable defaultRegistry dbNodes extraNodes dcMap a (written (rebase dbNodes extraNodes dcMap a.self)) := by
  have base := baseOf_rebase dbNodes extraNodes dcMap a.self
  have fixed : Fixed dbNodes extraNodes dcMap ⟨a.id, a.cls, rebase dbNodes extraNodes dcMap a.self⟩ := by
    constructor
    · rw [builtinOf_rebase]
      exact cls
    · exact congrArg ActionBase.dbNodes base
    · exact congrArg ActionBase.extraNodes base
    · exact congrArg ActionBase.dcMap base
    · exact preset_rebase dbNodes extraNodes dcMap preset
  have same : a.cls.serialize (rebase dbNodes extraNodes dcMap a.self) = a.cls.serialize a.self := by
    rw [cls]
    exact serialize_rebase dbNodes extraNodes dcMap a.self
  obtain ⟨registered, name, params, reads⟩ := fixed.readable
  dsimp only at registered name params reads
  rw [same] at params reads
  exact ⟨registered, name, params, reads⟩

end Rebase

/-! ## Writing events -/

/-- A heal of an action that is not healable is written like an execution. -/
theorem actionLine_healing (t : DateTime) (a : FaultAction β ω) (healing : Bool) :
    actionLine t a (healing && a.cls.healable) = actionLine t a healing := by
  have same : linePrefix a.cls.healable (healing && a.cls.healable) = linePrefix a.cls.healable healing := by
    cases a.cls.healable <;> cases healing <;> rfl
  unfold actionLine
  rw [same]

/-- A log that has a line for each of some events, in their order, is accepted and read as these
events, if the line of each can be read. -/
theorem parseLog_events {registry : FaultRegistry β ω} {dbNodes extraNodes : List String} {dcMap : DcMap}
    (view : ActionObj β → ActionObj β) {events : List (FaultAction β ω × Bool)} {entries : List (Entry β ω)}
    (same : entries.map (fun x => (x.action, x.healing)) = events.map fun x => (x.1, x.2 && x.1.cls.healable))
    (readable : ∀ x ∈ events, Readable registry dbNodes extraNodes dcMap x.1 (view x.1.self)) (t : DateTime) :
    ∃ commands, parseLog registry dbNodes extraNodes dcMap (fileText (headerLines t ++ entries.map Entry.line)) =
        .ok commands ∧
      commands.map (fun c => (c.1.cls, c.1.self, c.2)) = events.map fun x =>
        (x.1.cls, view x.1.self, x.2 && x.1.cls.healable) := by
  have event : ∀ x ∈ entries, ∃ y ∈ events, x.action = y.1 ∧ x.healing = (y.2 && y.1.cls.healable) := by
    intro x member
    have pair : (x.action, x.healing) ∈ entries.map fun x => (x.action, x.healing) := List.mem_map_of_mem member
    rw [same] at pair
    obtain ⟨y, among, eq⟩ := List.mem_map.mp pair
    exact ⟨y, among, (congrArg Prod.fst eq).symm, (congrArg Prod.snd eq).symm⟩
  have reads : ∀ x ∈ entries, Readable registry dbNodes extraNodes dcMap x.action (view x.action.self) := by
    intro x member
    obtain ⟨y, among, action, -⟩ := event x member
    rw [action]
    exact readable y among
  have healed : ∀ x ∈ entries, x.healing = true → x.action.cls.healable = true := by
    intro x member healing
    obtain ⟨y, among, action, eq⟩ := event x member
    rw [eq, Bool.and_eq_true] at healing
    rw [action]
    exact healing.2
  obtain ⟨commands, parsed, told⟩ := parseLog_entries view reads healed t
  refine ⟨commands, parsed, told.trans ?_⟩
  have viewed := congrArg (List.map fun y : FaultAction β ω × Bool => (y.1.cls, view y.1.self, y.2)) same
  rw [List.map_map, List.map_map] at viewed
  exact viewed

namespace FaultEngine

/-- `_open_log`, and `_write_action` for each event. -/
def writeEvents (events : List (FaultAction β ω × Bool)) : EngineM β ω Unit := do
  openLog
  Proc.forEach events fun (a, healing) => writeAction a healing

/-- Each event gets a line of its own, at some time. -/
theorem exec_forEach_writeAction (events : List (FaultAction β ω × Bool)) {s : FaultEngine β ω} (isOpen : s.logOpen = true) :
    ∃ t, ∃ entries : List (Entry β ω),
      (Proc.forEach events fun (a, healing) => writeAction a healing).exec s = (.ok (), t) ∧
      t.scenario = s.scenario ++ entries.map Entry.line ∧
      entries.map (fun x => (x.action, x.healing)) = events.map fun x => (x.1, x.2 && x.1.cls.healable) := by
  induction events generalizing s with
  | nil => exact ⟨s, [], rfl, (List.append_nil _).symm, rfl⟩
  | cons event events ih =>
    obtain ⟨a, healing⟩ := event
    obtain ⟨t, entries, ran, scenario, same⟩ := ih (s := s.wrote a healing) (by rw [wrote_logOpen, isOpen])
    have line : (s.wrote a healing).scenario = s.scenario ++ [actionLine (s.clock 0) a healing] := by
      unfold wrote
      rw [if_pos isOpen]
    refine ⟨t, ⟨s.clock 0, a, healing && a.cls.healable⟩ :: entries, ?_, ?_, ?_⟩
    · rw [Proc.forEach_cons, Proc.exec_bind_ok (exec_writeAction a healing s), ran]
    · rw [scenario, line, List.append_assoc, List.map_cons, Entry.line, actionLine_healing]
      rfl
    · rw [List.map_cons, same]
      rfl

/-- What is written for built-in actions with their parameters set is accepted, and read as the same
actions in their order, whatever the clock says. -/
theorem writeEvents_parsed (events : List (FaultAction Builtin Cluster × Bool))
    (builtin : ∀ x ∈ events, x.1.cls = builtinOf x.1.self) (preset : ∀ x ∈ events, Preset x.1.self)
    (dbNodes extraNodes : List String) (dcMap : DcMap) (s : FaultEngine Builtin Cluster) :
    ∃ t commands, (writeEvents events).exec s = (.ok (), t) ∧
      parseLog defaultRegistry dbNodes extraNodes dcMap (fileText t.scenario) = .ok commands ∧
      commands.map (fun c => (c.1.cls, c.1.self, c.2)) = events.map fun x =>
        (x.1.cls, written (rebase dbNodes extraNodes dcMap x.1.self), x.2 && x.1.cls.healable) := by
  obtain ⟨t, entries, ran, scenario, same⟩ := exec_forEach_writeAction events (s := s.opened) rfl
  obtain ⟨commands, parsed, told⟩ := parseLog_events (fun obj => written (rebase dbNodes extraNodes dcMap obj)) same
    (fun x member => readable_rebase dbNodes extraNodes dcMap (builtin x member) (preset x member)) (s.clock 0)
  refine ⟨t, commands, ?_, ?_, told⟩
  · unfold writeEvents
    rw [Proc.exec_bind_ok (exec_openLog s), ran]
  · rw [scenario]
    exact parsed

/-- A subnet partition that blocks nobody is enabled and healed, and a freeze is enabled. -/
def someEvents : List (FaultAction Builtin Cluster × Bool) :=
  let base : ActionBase := { dbNodes := ["pg1"], extraNodes := [], ordinal := -7, dcMap := Dict.empty }
  let subnet : FaultAction Builtin Cluster := ⟨0, PartitionRandomSubnetAction.cls,
    .custom (.subnet { base with node := some "pg1", direction := some "both", subnetType := some "zk", blockedNodes := some [] })⟩
  let freeze : FaultAction Builtin Cluster := ⟨1, FreezeProcessesAction.cls,
    .custom (.freeze { base with processes := ["postgres", "pgconsul"], freezeDurationRange := (50, 500),
                                 freezePauseRange := (0, 2000), node := some "pg1" })⟩
  [(subnet, false), (freeze, false), (subnet, true)]

theorem writeEvents_parsed_someEvents : ∃ t commands,
    (writeEvents someEvents).exec (.fresh ⟨id, idleCluster⟩ fun k => ⟨2024, 5, 17, 9, 30, k, 0⟩) = (.ok (), t) ∧
      parseLog defaultRegistry ["pg1", "pg2"] ["zk1"] Dict.empty (fileText t.scenario) = .ok commands ∧
      commands.map (fun c => (c.1.cls, c.1.self, c.2)) = someEvents.map fun x =>
        (x.1.cls, written (rebase ["pg1", "pg2"] ["zk1"] Dict.empty x.1.self), x.2 && x.1.cls.healable) := by
  have token : ∀ name ∈ ["pg1", "both", "zk"], Given Token (some name) := by
    intro name member
    refine ⟨name, rfl, ?_⟩
    simp only [List.mem_cons, List.not_mem_nil, or_false] at member
    unfold Token
    rcases member with rfl | rfl | rfl <;> decide
  have csvToken : CsvToken ["postgres", "pgconsul"] := by
    unfold CsvToken Token
    decide
  apply writeEvents_parsed
  · simp only [someEvents, List.forall_mem_cons]
    exact ⟨rfl, rfl, rfl, fun _ member => absurd member List.not_mem_nil⟩
  · have subnet : Preset someEvents[0].1.self :=
      ⟨token _ (by decide), token _ (by decide), token _ (by decide), [], rfl, Or.inl rfl⟩
    have freeze : Preset someEvents[1].1.self := ⟨⟨csvToken, by decide, by decide⟩, token _ (by decide)⟩
    intro x member
    simp only [someEvents, List.mem_cons, List.not_mem_nil, or_false] at member
    rcases member with rfl | rfl | rfl
    · exact subnet
    · exact freeze
    · exact subnet

end FaultEngine

end FaultStorm
