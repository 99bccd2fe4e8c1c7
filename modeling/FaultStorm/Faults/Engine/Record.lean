import FaultStorm.Faults.Engine.Loop
import FaultStorm.Faults.Engine.Replay
import FaultStorm.Faults.Presets

/-!
# What a run records

The line of an action is written before `execute()` picks its missing parameters, so a log
tells the run if every action that was injected had all its parameters set from the start.
-/

namespace FaultStorm

open Python Proc

/-- The executed actions, as `execute()` left them. -/
def executionsOf {β ω : Type} (history : List (Event β ω)) : List (FaultAction β ω) :=
  history.filterMap fun
    | .action .finished a _ => some a
    | _ => none

/-- Every action that was injected had its parameters set when it was constructed. -/
def InjectsPreset (history : List (Event Builtin Cluster)) : Prop :=
  ∀ a raised, .action .injected a raised ∈ history → Preset a.self

/-- The objects that were injected, as they were constructed. -/
def injectionsOf (history : List (Event Builtin Cluster)) : List (ActionObj Builtin) :=
  history.filterMap fun
    | .action .injected a _ => some a.self
    | _ => none

theorem preset_of_injectionsOf {history : List (Event Builtin Cluster)}
    (preset : ∀ obj ∈ injectionsOf history, Preset obj) : InjectsPreset history :=
  fun a _ member => preset a.self (List.mem_filterMap.mpr ⟨_, member, rfl⟩)

/-- The class and the parameters of an action. -/
def recorded (a : FaultAction Builtin Cluster) : ActionClass Builtin Cluster × ActionObj Builtin :=
  (a.cls, written a.self)

theorem InjectsPreset.of_append {h k : List (Event Builtin Cluster)} (preset : InjectsPreset (h ++ k)) :
    InjectsPreset h :=
  fun a raised member => preset a raised (List.mem_append_left k member)

theorem executionsOf_append {β ω : Type} (h k : List (Event β ω)) :
    executionsOf (h ++ k) = executionsOf h ++ executionsOf k :=
  List.filterMap_append

namespace FaultEngine

/-- The action is fixed, over the nodes and the DC map of the engine. -/
abbrev FixedIn (e : Setup Builtin Cluster) (a : FaultAction Builtin Cluster) : Prop :=
  Fixed e.config.dbNodes e.config.extraNodes e.dcMap a

/-- The log holds a line for every execution so far, and for some heals between them. -/
structure Recorded (e : Setup Builtin Cluster) (s : FaultEngine Builtin Cluster) : Prop where
  isOpen : s.logOpen = true
  active : ∀ a ∈ s.activeFaults, FixedIn e a
  log : ∃ (t : DateTime) (entries : List (Entry Builtin Cluster)),
    s.scenario = headerLines t ++ entries.map Entry.line ∧ (∀ x ∈ entries, FixedIn e x.action) ∧
    (∀ x ∈ entries, x.healing = true → x.action.cls.healable = true) ∧
    (entries.filter (! ·.healing)).map Entry.action = executionsOf s.history

namespace Recorded

variable {e : Setup Builtin Cluster} {s : FaultEngine Builtin Cluster} {a : FaultAction Builtin Cluster}

theorem congr {t : FaultEngine Builtin Cluster} (h : Recorded e s) (isOpen : t.logOpen = s.logOpen)
    (active : ∀ a ∈ t.activeFaults, FixedIn e a) (scenario : t.scenario = s.scenario)
    (same : executionsOf t.history = executionsOf s.history) : Recorded e t := by
  constructor
  · rw [isOpen]
    exact h.isOpen
  · exact active
  · rw [scenario, same]
    exact h.log

/-- A line is added to the log. -/
theorem scenario_wrote (h : Recorded e s) (healing : Bool) :
    (s.wrote a healing).scenario = s.scenario ++ [(⟨s.clock 0, a, healing⟩ : Entry Builtin Cluster).line] := by
  unfold wrote
  rw [if_pos h.isOpen]
  rfl

/-- The heal line of a fixed action. -/
theorem wroteHeal (h : Recorded e s) (fixed : FixedIn e a) (healable : a.cls.healable = true) :
    Recorded e (s.wrote a true) := by
  obtain ⟨t, entries, scenario, all, healed, same⟩ := h.log
  constructor
  · rw [wrote_logOpen]
    exact h.isOpen
  · rw [wrote_activeFaults]
    exact h.active
  · refine ⟨t, entries ++ [⟨s.clock 0, a, true⟩], ?_, ?_, ?_, ?_⟩
    · rw [h.scenario_wrote, scenario, List.append_assoc, List.map_append, List.map_singleton]
    · intro x member
      rcases List.mem_append.mp member with old | new
      · exact all x old
      · rw [List.mem_singleton.mp new]
        exact fixed
    · intro x member healing
      rcases List.mem_append.mp member with old | new
      · exact healed x old healing
      · rw [List.mem_singleton.mp new]
        exact healable
    · rw [wrote_history, List.filter_append, List.map_append, same]
      exact List.append_nil _

/-- A fixed action is logged and executed. -/
theorem ran (h : Recorded e s) (fixed : FixedIn e a) : Recorded e (s.ran a) := by
  obtain ⟨t, entries, scenario, all, healed, same⟩ := h.log
  constructor
  · rw [ran_logOpen]
    exact h.isOpen
  · rw [ran_activeFaults]
    exact h.active
  · refine ⟨t, entries ++ [⟨s.clock 0, a, false⟩], ?_, ?_, ?_, ?_⟩
    · show (s.wrote a false).scenario = _
      rw [h.scenario_wrote, scenario, List.append_assoc, List.map_append, List.map_singleton]
    · intro x member
      rcases List.mem_append.mp member with old | new
      · exact all x old
      · rw [List.mem_singleton.mp new]
        exact fixed
    · intro x member healing
      rcases List.mem_append.mp member with old | new
      · exact healed x old healing
      · rw [List.mem_singleton.mp new] at healing
        cases healing
    · have kept : s.executed a = a := fixed.execute_keeps s.world
      rw [ran_history, executionsOf_append, List.filter_append, List.map_append, same, kept]
      rfl

theorem paused (h : Recorded e s) (seconds : Int) : Recorded e (s.paused e seconds) := by
  have next : Recorded e { s with nextOrdinal := s.nextOrdinal + 1 } := h.congr rfl h.active rfl rfl
  exact next.ran ⟨rfl, rfl, rfl, rfl, trivial⟩

theorem injected (h : Recorded e s) (fixed : FixedIn e a) : Recorded e (s.injected a) := by
  have begun : Recorded e (s.injecting a) := by
    refine h.congr rfl h.active rfl ?_
    show executionsOf (s.history ++ _) = _
    rw [executionsOf_append]
    exact List.append_nil _
  have kept : (s.injecting a).executed a = a := fixed.execute_keeps _
  refine (begun.ran fixed).congr rfl ?_ rfl rfl
  intro b member
  rcases List.mem_append.mp member with old | new
  · exact h.active b old
  · rw [List.mem_singleton.mp new, kept]
    exact fixed

theorem mended (h : Recorded e s) (fixed : FixedIn e a) : Recorded e (s.mended a) := by
  have kept : (a.call a.cls.heal s.world).2.1 = a := fixed.heal_keeps s.world
  refine h.congr rfl ?_ rfl ?_
  · intro b member
    obtain ⟨c, among, eq⟩ := List.mem_map.mp member
    split at eq
    · rw [← eq, kept]
      exact fixed
    · rw [← eq]
      exact h.active c among
  · show executionsOf (s.history ++ _) = _
    rw [executionsOf_append]
    exact List.append_nil _

end Recorded

/-- If every action injected so far was preset, the log is right and the actions that are still
to be healed are fixed. -/
def Faithful (e : Setup Builtin Cluster) (pending : List (FaultAction Builtin Cluster))
    (s : FaultEngine Builtin Cluster) : Prop :=
  InjectsPreset s.history → Recorded e s ∧ ∀ a ∈ pending, FixedIn e a

section Run

variable {e : Setup Builtin Cluster} {pending : List (FaultAction Builtin Cluster)}

theorem Faithful.draws (s : FaultEngine Builtin Cluster) (draws : Nat → Nat) (h : Faithful e pending s) :
    Faithful e pending { s with world := { s.world with draws } } := fun preset =>
  ⟨(h preset).1.congr rfl (h preset).1.active rfl rfl, (h preset).2⟩

theorem Faithful.paused (s : FaultEngine Builtin Cluster) (seconds : Int) (h : Faithful e pending s) :
    Faithful e pending (s.paused e seconds) := by
  intro preset
  have early : InjectsPreset s.history := InjectsPreset.of_append preset
  exact ⟨(h early).1.paused seconds, (h early).2⟩

theorem Faithful.none (s : FaultEngine Builtin Cluster) (h : Faithful e pending s) : Faithful e [] s :=
  fun preset => ⟨(h preset).1, by simp⟩

theorem Faithful.mended {a : FaultAction Builtin Cluster} {rest : List (FaultAction Builtin Cluster)}
    {s : FaultEngine Builtin Cluster} (h : Faithful e (a :: rest) s) : Faithful e rest (s.mended a) := by
  intro preset
  obtain ⟨recorded, fixed⟩ := h (InjectsPreset.of_append preset)
  exact ⟨recorded.mended (fixed a List.mem_cons_self), fun b member => fixed b (List.mem_cons_of_mem a member)⟩

theorem faithful_heals (e : Setup Builtin Cluster) : Heals e (Faithful e) (Faithful e []) where
  draws _ s draws h := h.draws s draws
  paused _ s seconds _ h := h.paused s seconds
  mended _ _ _ _ h := h.mended
  logged a rest s healable h := by
    intro preset
    rw [wrote_history] at preset
    have fixed := (h (InjectsPreset.of_append preset)).2 a List.mem_cons_self
    rw [fixed.heal_keeps s.world]
    exact ⟨(h.mended preset).1.wroteHeal fixed healable, (h.mended preset).2⟩
  raised _ s h := h.none s

theorem healAllActive_faithful : Keeps (Faithful e []) (healAllActive e) := by
  have heal := (faithful_heals e).healAllActive_upholds (I := Faithful e []) fun s faults draws perm h preset =>
    ⟨(h.draws s draws preset).1, fun a member => (h preset).1.active a (perm.subset member)⟩
  refine heal.conseq (fun _ h => h) ?_ fun _ _ h => h
  rintro _ _ ⟨t, ht, rfl⟩ preset
  exact ⟨(ht preset).1.congr rfl (by simp) rfl rfl, by simp⟩

/-- A constructed action that is preset is fixed. -/
theorem fixed_newAction (builtin : e.registry = defaultRegistry) {cls : ActionClass Builtin Cluster}
    {target : Option String} {self : ActionObj Builtin} {s : FaultEngine Builtin Cluster}
    (registered : Registered e cls) (built : construct e cls target (s.nextOrdinal + 1) = .ok self)
    (preset : Preset self) : FixedIn e (s.newAction cls self) := by
  obtain ⟨name, found⟩ := registered
  rw [builtin] at found
  obtain ⟨same, base⟩ := init_builtin (registered_builtin found) built
  refine ⟨same.symm, ?_, ?_, ?_, preset⟩
  · exact congrArg ActionBase.dbNodes base
  · exact congrArg ActionBase.extraNodes base
  · exact congrArg ActionBase.dcMap base

theorem faithful_preserved (builtin : e.registry = defaultRegistry) : Preserved e (Faithful e []) where
  draws _ := Faithful.draws
  checked s event silent h := by
    intro preset
    have early := (h (InjectsPreset.of_append preset)).1
    refine ⟨early.congr rfl early.active rfl ?_, by simp⟩
    rw [executionsOf_append]
    cases event with
    | action stage a raised => exact absurd rfl (silent stage a raised)
    | stopCleared | stopChecked answer | complexFault faultCount | complexFaultDone => exact List.append_nil _
  paused _ s seconds _ h := h.paused s seconds
  refused _ _ _ s h preset := ⟨(h preset).1.congr rfl (h preset).1.active rfl rfl, by simp⟩
  injected _ _ _ s cls self enabled _ _ built h := by
    intro preset
    have begun : InjectsPreset (s.history ++ [.action .injected (s.newAction cls self) none]) :=
      InjectsPreset.of_append preset
    have given : Preset self := begun (s.newAction cls self) none (by simp)
    have recorded := (h begun.of_append).1
    exact ⟨recorded.injected (fixed_newAction builtin enabled.registered built given), by simp⟩
  healed := healAllActive_faithful

/-- A log that tells its run is accepted, and names what was executed. -/
theorem Recorded.parsed (builtin : e.registry = defaultRegistry) {s : FaultEngine Builtin Cluster}
    (h : Recorded e s) :
    ∃ commands, parseLog e.registry e.config.dbNodes e.config.extraNodes e.dcMap (fileText s.scenario) = .ok commands ∧
      (commands.filter (! ·.2)).map (recorded ·.1) = (executionsOf s.history).map recorded := by
  obtain ⟨t, entries, scenario, fixed, healed, same⟩ := h.log
  obtain ⟨commands, parsed, told⟩ := parseLog_entries written (fun x member => (fixed x member).readable)
    healed t
  refine ⟨commands, ?_, ?_⟩
  · rw [builtin, scenario]
    exact parsed
  · have parameters := congrArg (fun l => (l.filter (! ·.2.2)).map fun y => (y.1, written y.2.1)) told
    simp only [List.filter_map, List.map_map, Function.comp_def, written_written] at parameters
    rw [← same, List.map_map]
    exact parameters

/-- The log is empty and nothing has been executed. -/
def Unopened (s : FaultEngine Builtin Cluster) : Prop :=
  s.scenario = [] ∧ s.activeFaults = [] ∧ executionsOf s.history = []

theorem Unopened.cleared {s : FaultEngine Builtin Cluster} (h : Unopened s) :
    Unopened { s with history := s.history ++ [.stopCleared] } := by
  refine ⟨h.1, h.2.1, ?_⟩
  rw [executionsOf_append, h.2.2]
  rfl

theorem Unopened.opened {s : FaultEngine Builtin Cluster} (h : Unopened s) : Faithful e [] s.opened := by
  intro _
  refine ⟨⟨rfl, ?_, s.clock 0, [], rfl, by simp, by simp, h.2.2.symm⟩, by simp⟩
  show ∀ a ∈ s.activeFaults, FixedIn e a
  rw [h.2.1]
  simp

/-- If every action a run injected was preset, the log it wrote is accepted, its entries other
than heals are the executions of the run in their order, and a replay of it executes them
again. -/
theorem runRandom_recorded (e : Setup Builtin Cluster) (builtin : e.registry = defaultRegistry) {stopAt : Nat}
    {world : World Cluster} {clock : Nat → DateTime} {s : FaultEngine Builtin Cluster}
    (ran : ((runRandom e stopAt).exec (.fresh world clock)).2 = s) (preset : InjectsPreset s.history) :
    ∃ commands, parseLog e.registry e.config.dbNodes e.config.extraNodes e.dcMap (fileText s.scenario) =
        .ok commands ∧
      (commands.filter (! ·.2)).map (recorded ·.1) = (executionsOf s.history).map recorded ∧
      ∀ world' clock', ∃ t, (runReplay e (fileText s.scenario) commands.length).exec (.fresh world' clock') =
          (.ok (), t) ∧
        ((callsOf t.history).filter (! ·.2)).map (recorded ·.1) = (executionsOf s.history).map recorded := by
  have run := (faithful_preserved builtin).runRandom_triple (J := Unopened) (fun _ => Unopened.cleared)
    (fun _ => Unopened.opened) stopAt (.fresh world clock) ⟨rfl, rfl, rfl⟩
  rcases result : (runRandom e stopAt).exec (.fresh world clock) with ⟨ending, final⟩
  rw [result] at run ran
  obtain rfl : final = s := ran
  have parsed : ∃ commands, parseLog e.registry e.config.dbNodes e.config.extraNodes e.dcMap (fileText final.scenario) =
      .ok commands ∧ (commands.filter (! ·.2)).map (recorded ·.1) = (executionsOf final.history).map recorded := by
    have ended : Unopened final ∨ ∃ t, Faithful e [] t ∧ final = closeLog t := by
      cases ending with
      | ok => exact Or.inr run
      | error exc => exact run
    rcases ended with ⟨scenario, _, nothing⟩ | ⟨t, faithful, rfl⟩
    · refine ⟨[], ?_, ?_⟩
      · rw [scenario]
        rfl
      · rw [nothing]
        rfl
    · exact (faithful preset).1.parsed builtin
  obtain ⟨commands, accepted, told⟩ := parsed
  refine ⟨commands, accepted, told, fun world' clock' => ?_⟩
  obtain ⟨t, replayed, calls, _⟩ := exec_runReplay e accepted commands.length world' clock'
  refine ⟨t, replayed, ?_⟩
  rw [calls, List.take_length]
  exact told

/-- One kill in each cycle, its process and its node to be picked. -/
def killSetup : Setup Builtin Cluster where
  config := { dbNodes := ["pg1", "pg2"], faultTypes := ["kill"], complexFaultsEnabled := false, parallelFaultsCount := 1 }
  registry := defaultRegistry
  dcMap := Dict.empty

/-- That engine after a run that was stopped in its first active wait. -/
def killRun : FaultEngine Builtin Cluster :=
  ((runRandom killSetup 1).exec (.fresh ⟨fun _ => 0, idleCluster⟩ fun _ => ⟨2024, 5, 17, 9, 30, 0, 0⟩)).2

/-- The log of the kill names no process and no node. -/
theorem killRun_not_recorded :
    ¬ ∃ commands, parseLog killSetup.registry killSetup.config.dbNodes killSetup.config.extraNodes killSetup.dcMap
        (fileText killRun.scenario) = .ok commands ∧
      (commands.filter (! ·.2)).map (recorded ·.1) = (executionsOf killRun.history).map recorded := by
  rintro ⟨commands, parsed, told⟩
  have parameters : (parseLog killSetup.registry killSetup.config.dbNodes killSetup.config.extraNodes killSetup.dcMap
      (fileText killRun.scenario)).toOption.map (fun l => (l.filter (! ·.2)).map fun c => written c.1.self) ≠
        some ((executionsOf killRun.history).map fun a => written a.self) := by
    decide +kernel
  apply parameters
  have selves := congrArg (List.map Prod.snd) told
  rw [List.map_map, List.map_map] at selves
  rw [parsed]
  exact congrArg some selves

/-- One partition of pg1 in each cycle. -/
def isolationSetup : Setup Builtin Cluster where
  config := { dbNodes := ["pg1", "pg2"], faultTypes := ["partition_random_node"], complexFaultsEnabled := false,
              parallelFaultsCount := 1,
              actionParams := Dict.empty.set "partition_random_node" [.node (some "pg1")] }
  registry := defaultRegistry
  dcMap := Dict.empty

/-- That engine after a run that was stopped in the active wait of its second cycle. -/
def isolationRun : FaultEngine Builtin Cluster :=
  ((runRandom isolationSetup 3).exec (.fresh ⟨fun _ => 0, idleCluster⟩ fun _ => ⟨2024, 5, 17, 9, 30, 0, 0⟩)).2

theorem isolationRun_recorded :
    ∃ commands, parseLog isolationSetup.registry isolationSetup.config.dbNodes isolationSetup.config.extraNodes
        isolationSetup.dcMap (fileText isolationRun.scenario) = .ok commands ∧
      (commands.filter (! ·.2)).map (recorded ·.1) = (executionsOf isolationRun.history).map recorded ∧
      ∀ world' clock', ∃ t, (runReplay isolationSetup (fileText isolationRun.scenario) commands.length).exec
          (.fresh world' clock') = (.ok (), t) ∧
        ((callsOf t.history).filter (! ·.2)).map (recorded ·.1) = (executionsOf isolationRun.history).map recorded := by
  have injections : injectionsOf isolationRun.history =
      [1, 5].map fun ordinal => .custom (.node ⟨⟨["pg1", "pg2"], [], ordinal, Dict.empty⟩, some "pg1"⟩) := by
    decide +kernel
  refine runRandom_recorded isolationSetup rfl rfl (preset_of_injectionsOf ?_)
  rw [injections]
  simp only [List.map_cons, List.map_nil, List.forall_mem_cons]
  have token : Given Token (some "pg1") := ⟨"pg1", rfl, by unfold Token; decide⟩
  exact ⟨token, token, nofun⟩

end Run

end FaultEngine

end FaultStorm
