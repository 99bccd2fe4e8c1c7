import FaultStorm.Faults.Engine.Loop
import FaultStorm.Faults.Engine.Replay
import FaultStorm.Faults.LeftAlone

/-!
# What the engine does to its environment

The engine reaches the environment through `execute` and `heal` only. So a property of the
environment that both methods of every registered class keep, when they are called on an object
of some kind, survives whole runs of either mode that make such objects only, and the clean-up,
whatever is drawn, logged or raised.
-/

namespace FaultStorm

open Python Proc

variable {β ω : Type} {P : ActionObj β → Prop} {G : ω → Prop}

/-- Both methods of the class, called on an object in `P`, keep it there and keep a property of the
environment. -/
def Sustains (P : ActionObj β → Prop) (G : ω → Prop) (cls : ActionClass β ω) : Prop :=
  ∀ method ∈ [cls.execute, cls.heal], Keeps (fun s => P s.1 ∧ G s.2.env) method

/-- The methods of the action's class keep the property, and the action is in `P`. -/
structure SustainedBy (P : ActionObj β → Prop) (G : ω → Prop) (a : FaultAction β ω) : Prop where
  cls : Sustains P G a.cls
  obj : P a.self

namespace SustainedBy

variable {a : FaultAction β ω}

theorem call (h : SustainedBy P G a) {method : Method β ω} (among : method ∈ [a.cls.execute, a.cls.heal]) {w : World ω}
    (hw : G w.env) : SustainedBy P G (a.call method w).2.1 ∧ G (a.call method w).2.2.env := by
  have final := Keeps.final (I := fun s : ActionObj β × World ω => P s.1 ∧ G s.2.env) (h.cls method among)
    (s := (a.self, w)) ⟨h.obj, hw⟩
  exact ⟨⟨h.cls, final.1⟩, final.2⟩

theorem execute (h : SustainedBy P G a) {w : World ω} (hw : G w.env) :
    SustainedBy P G (a.call a.cls.execute w).2.1 ∧ G (a.call a.cls.execute w).2.2.env :=
  h.call (by simp) hw

theorem heal (h : SustainedBy P G a) {w : World ω} (hw : G w.env) :
    SustainedBy P G (a.call a.cls.heal w).2.1 ∧ G (a.call a.cls.heal w).2.2.env :=
  h.call (by simp) hw

end SustainedBy

/-- The lines of an accepted log name registered classes. -/
theorem registered_of_parseLines {registry : FaultRegistry β ω} {dbNodes extraNodes : List String} {dcMap : DcMap}
    {lines : List (List Char)} {id : Nat} {commands : List (FaultAction β ω × Bool)}
    (accepted : parseLines registry dbNodes extraNodes dcMap id lines = .ok commands) :
    ∀ c ∈ commands, ∃ name, registry.get? name = some c.1.cls := by
  induction lines generalizing id commands with
  | nil =>
    cases accepted
    exact List.forall_mem_nil _
  | cons raw lines ih =>
    rw [parseLines] at accepted
    obtain ⟨entry, -, rest⟩ := bind_ok accepted
    rcases entry with _ | ⟨isHeal, name, params⟩
    · exact ih rest
    · obtain ⟨action, read, rest⟩ := bind_ok rest
      obtain ⟨results, later, result⟩ := bind_ok rest
      cases result
      refine List.forall_mem_cons.mpr ⟨⟨name, ?_⟩, ih later⟩
      rw [parseAction] at read
      cases found : registry.get? name with
      | none =>
        rw [found] at read
        cases read
      | some cls =>
        rw [found] at read
        obtain ⟨self, -, rfl⟩ := map_ok read
        rfl

namespace FaultEngine

/-- The property holds, and the faults to be healed will keep it. -/
structure Sustained (P : ActionObj β → Prop) (G : ω → Prop) (s : FaultEngine β ω) : Prop where
  env : G s.world.env
  active : ∀ a ∈ s.activeFaults, SustainedBy P G a

section Steps

variable {e : Setup β ω} {s t : FaultEngine β ω} {a : FaultAction β ω}

theorem Sustained.congr (h : Sustained P G s) (env : t.world.env = s.world.env)
    (active : t.activeFaults = s.activeFaults) : Sustained P G t :=
  ⟨env ▸ h.env, active ▸ h.active⟩

theorem Sustained.wrote (h : Sustained P G s) (a : FaultAction β ω) (healing : Bool) : Sustained P G (s.wrote a healing) :=
  h.congr (congrArg World.env (wrote_world a healing s)) (wrote_activeFaults a healing s)

theorem Sustained.ran (h : Sustained P G s) (sustains : SustainedBy P G a) : Sustained P G (s.ran a) :=
  ⟨(sustains.execute h.env).2, (ran_activeFaults a s).symm ▸ h.active⟩

/-- The engine's own waits do nothing. -/
theorem Sustained.paused (h : Sustained P G s) (e : Setup β ω) (seconds : Int) : Sustained P G (s.paused e seconds) :=
  h.congr rfl (ran_activeFaults ..)

theorem Sustained.injected (h : Sustained P G s) (sustains : SustainedBy P G a) : Sustained P G (s.injected a) := by
  have begun : Sustained P G (s.injecting a) := h.congr rfl rfl
  refine ⟨(begun.ran sustains).env, ?_⟩
  show ∀ b ∈ s.activeFaults ++ [(s.injecting a).executed a], _
  rw [List.forall_mem_append]
  exact ⟨h.active, List.forall_mem_singleton.mpr (sustains.execute h.env).1⟩

theorem Sustained.mended (h : Sustained P G s) (sustains : SustainedBy P G a) : Sustained P G (s.mended a) := by
  have healed := sustains.heal h.env
  refine ⟨healed.2, ?_⟩
  show ∀ b ∈ s.activeFaults.map _, _
  rw [List.forall_mem_map]
  intro b among
  split
  · exact healed.1
  · exact h.active b among

/-- What is still to be healed keeps the property. -/
theorem sustained_heals (e : Setup β ω) :
    Heals e (fun rest s => Sustained P G s ∧ ∀ a ∈ rest, SustainedBy P G a) (Sustained P G) where
  draws _ _ _ h := ⟨h.1.congr rfl rfl, h.2⟩
  paused _ _ seconds _ h := ⟨h.1.paused e seconds, h.2⟩
  mended _ _ _ _ h := ⟨h.1.mended (h.2 _ List.mem_cons_self), fun b among => h.2 b (List.mem_cons_of_mem _ among)⟩
  logged _ _ _ _ h :=
    ⟨(h.1.mended (h.2 _ List.mem_cons_self)).wrote _ true, fun b among => h.2 b (List.mem_cons_of_mem _ among)⟩
  raised _ _ h := h.1

theorem healAllActive_sustains (e : Setup β ω) : Keeps (Sustained P G) (healAllActive e) := by
  have heal := (sustained_heals e).healAllActive_upholds (I := Sustained P G) fun s faults draws perm h =>
    ⟨h.congr rfl rfl, fun a among => h.active a (perm.subset among)⟩
  refine heal.conseq (fun _ h => h) ?_ fun _ _ h => h
  rintro _ _ ⟨t, ⟨held, -⟩, rfl⟩
  exact ⟨held.env, List.forall_mem_nil _⟩

/-- Every object that the random mode may construct is in `P`. -/
def Constructs (e : Setup β ω) (P : ActionObj β → Prop) : Prop :=
  ∀ cls target ordinal self, Enabled e cls → Aimed e cls target → construct e cls target ordinal = .ok self → P self

theorem sustained_preserved (sustains : ∀ cls, Registered e cls → Sustains P G cls) (makes : Constructs e P) :
    Preserved e (Sustained P G) where
  draws _ _ _ h := h.congr rfl rfl
  checked _ _ _ h := h.congr rfl rfl
  paused _ _ seconds _ h := h.paused e seconds
  refused _ _ _ _ h := h.congr rfl rfl
  injected _ target _ _ cls self enabled _ aimed made h :=
    h.injected ⟨sustains cls enabled.registered, makes cls target _ self enabled aimed made⟩
  healed := healAllActive_sustains e

end Steps

/-! ## Whole runs -/

section Run

variable {e : Setup β ω}

theorem note_sustains (event : Event β ω) : Keeps (Sustained P G) (note event) := fun _ h => h.congr rfl rfl

theorem replayCommand_sustains {command : FaultAction β ω × Bool} (sustains : SustainedBy P G command.1) :
    Keeps (Sustained P G) (replayCommand command) := by
  obtain ⟨a, isHeal⟩ := command
  intro s h
  unfold replayCommand
  cases isHeal with
  | false =>
    simp only [Bool.false_eq_true, if_false]
    rw [exec_bind_ok (exec_logAndExecute a s)]
    exact h.ran sustains
  | true =>
    simp only [if_true]
    rw [exec_bind_ok (exec_note _ _), exec_bind_ok (exec_callMethod ..), exec_bind_ok (exec_note _ _), exec_writeAction]
    have healed : Sustained P G { s with
        world := (a.call a.cls.heal s.world).2.2
        history := s.history ++ [.action .healing a none] ++
          [.action .healed (a.call a.cls.heal s.world).2.1 (a.call a.cls.heal s.world).1] } :=
      ⟨(SustainedBy.heal sustains h.env).2, h.active⟩
    exact healed.wrote _ true

theorem replayCommands_sustains {commands : List (FaultAction β ω × Bool)}
    (sustains : ∀ c ∈ commands, SustainedBy P G c.1) (stopAt : Nat) :
    Keeps (Sustained P G) (replayCommands commands stopAt) := by
  induction commands generalizing stopAt with
  | nil => exact .pure ()
  | cons command rest ih =>
    cases stopAt with
    | zero => exact note_sustains _
    | succ stopAt =>
      obtain ⟨first, later⟩ := List.forall_mem_cons.mp sustains
      exact (note_sustains _).bind fun _ => (replayCommand_sustains first).bind fun _ => ih later stopAt

/-- The engine when some time has passed. -/
def resumed (s : FaultEngine β ω) (clock : Nat → DateTime) : FaultEngine β ω := { s with clock }

/-- What the fault thread of a test runs, where the objects it makes are in `P`. -/
inductive FaultThread (e : Setup β ω) (P : ActionObj β → Prop) : EngineM β ω Unit → Prop
  | random (makes : Constructs e P) (stopAt : Nat) : FaultThread e P (runRandom e stopAt)
  | replay (file : List Char)
      (makes : ∀ commands, parseLog e.registry e.config.dbNodes e.config.extraNodes e.dcMap file = .ok commands →
        ∀ c ∈ commands, P c.1.self)
      (stopAt : Nat) : FaultThread e P (runReplay e file stopAt)

theorem FaultThread.sustains {thread : EngineM β ω Unit} (h : FaultThread e P thread)
    (sustains : ∀ cls, Registered e cls → Sustains P G cls) : Keeps (Sustained P G) thread := by
  have opens : Keeps (Sustained P G) (openLog : EngineM β ω Unit) := fun _ h => h.congr rfl rfl
  cases h with
  | random makes stopAt =>
    exact (sustained_preserved sustains makes).runRandom_keeps (fun _ h => h.congr rfl rfl)
      (fun _ h => h.congr rfl rfl) stopAt
  | replay file makes stopAt =>
    unfold runReplay
    refine (note_sustains _).bind fun _ => ?_
    cases accepted : parseLog e.registry e.config.dbNodes e.config.extraNodes e.dcMap file with
    | error exc => exact .throw exc
    | ok commands =>
      have known : ∀ c ∈ commands, SustainedBy P G c.1 := fun c among =>
        ⟨sustains _ (registered_of_parseLines accepted c among), makes commands accepted c among⟩
      exact opens.bind fun _ => (replayCommands_sustains known stopAt).ensuring fun _ h => h.congr rfl rfl

theorem fresh_sustained {world : World ω} (clock : Nat → DateTime) (holds : G world.env) :
    Sustained P G (FaultEngine.fresh world clock : FaultEngine β ω) :=
  ⟨holds, List.forall_mem_nil _⟩

/-- The fault thread, and `heal_all` after it. -/
theorem FaultThread.healAll_sustains {thread : EngineM β ω Unit} (h : FaultThread e P thread)
    (sustains : ∀ cls, Registered e cls → Sustains P G cls) (world : World ω) (clock clock' : Nat → DateTime)
    (holds : G world.env) :
    G ((healAll e).exec ((thread.exec (.fresh world clock)).2.resumed clock')).2.world.env := by
  have ended := (h.sustains sustains).final (fresh_sustained clock holds)
  have healed : Keeps (Sustained P G) (healAll e) := healAllActive_sustains e
  exact (healed.final (s := (thread.exec (.fresh world clock)).2.resumed clock') (ended.congr rfl rfl)).env

end Run

/-! ## The built-in classes -/

theorem registered_leavesAlone {e : Setup Builtin Cluster} (builtin : e.registry = defaultRegistry) (start : Cluster) :
    ∀ cls, Registered e cls → Sustains ActionObj.Enclosed start.LeftAlone cls := by
  rintro cls ⟨name, found⟩
  rw [builtin] at found
  exact fun method among => builtin_leavesAlone (registered_builtin found) among

/-- Whatever docker does, whatever is drawn and raised, wherever the run is stopped and whatever
the log that is replayed says, if no freeze that is made of the configuration or of the log has the
delimiter of the here-document among its patterns: of the filter tables a test changes FaultStorm's
own chains and the jumps to them, of the files the flag file, and no traffic control. -/
theorem faultThread_leavesAlone {e : Setup Builtin Cluster} (builtin : e.registry = defaultRegistry)
    {thread : EngineM Builtin Cluster Unit} (h : FaultThread e ActionObj.Enclosed thread) (world : World Cluster)
    (clock clock' : Nat → DateTime) :
    world.env.LeftAlone
      ((healAll e).exec ((thread.exec (.fresh world clock)).2.resumed clock')).2.world.env := by
  exact h.healAll_sustains (registered_leavesAlone builtin world.env) world clock clock'
    ⟨rfl, fun name => .refl _⟩

/-- A log of a freeze and a partition, neither of them healed. -/
def unhealedLog : List Char :=
  ("# FaultStorm scenario log\n[2024-05-17T09:30:00.000] +freeze_processes 1 pg1 postgres,walwriter 100-200 50-80\n" ++
    "[2024-05-17T09:30:05.000] +partition_random_node 2 pg2\n").toList

theorem parseLog_unhealedLog :
    (parseLog pairSetup.registry pairSetup.config.dbNodes pairSetup.config.extraNodes pairSetup.dcMap unhealedLog).map
        (·.map (·.1.self)) =
      .ok [.custom (.freeze
             ⟨⟨⟨["pg1", "pg2"], [], 1, Dict.empty⟩, ["postgres", "walwriter"], (100, 200), (50, 80)⟩, some "pg1"⟩),
           .custom (.node ⟨⟨["pg1", "pg2"], [], 2, Dict.empty⟩, some "pg2"⟩)] := by
  decide +kernel

theorem unhealedLog_enclosed (commands : List (FaultAction Builtin Cluster × Bool))
    (accepted : parseLog pairSetup.registry pairSetup.config.dbNodes pairSetup.config.extraNodes pairSetup.dcMap
      unhealedLog = .ok commands) : ∀ c ∈ commands, c.1.self.Enclosed := by
  have read := parseLog_unhealedLog
  rw [accepted] at read
  have made : commands.map (·.1.self) = _ := Except.ok.inj read
  have objects : ∀ obj ∈ commands.map (·.1.self), obj.Enclosed := by
    rw [made, List.forall_mem_cons, List.forall_mem_singleton]
    exact ⟨List.forall_mem_cons.mpr ⟨by decide, List.forall_mem_singleton.mpr (by decide)⟩, trivial⟩
  exact fun c among => objects _ (List.mem_map_of_mem among)

/-- The replay of that log, and `heal_all` after it. -/
theorem unhealedLog_leavesAlone :
    idleCluster.LeftAlone ((healAll pairSetup).exec
      (((runReplay pairSetup unhealedLog 5).exec (.fresh ⟨id, idleCluster⟩ fun _ => ⟨2024, 5, 17, 10, 0, 0, 0⟩)).2.resumed
        fun _ => ⟨2024, 5, 17, 10, 5, 0, 0⟩)).2.world.env :=
  faultThread_leavesAlone (e := pairSetup) rfl (.replay unhealedLog unhealedLog_enclosed 5) ⟨id, idleCluster⟩
    (fun _ => ⟨2024, 5, 17, 10, 0, 0, 0⟩) fun _ => ⟨2024, 5, 17, 10, 5, 0, 0⟩

end FaultEngine

end FaultStorm
