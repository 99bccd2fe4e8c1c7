import FaultStorm.Faults.Engine.Steps

/-!
# What an injection and a clean-up do to the engine

`Injects e I E` lists what `_inject_complex_fault` does, one field for each kind of step, and
`Heals e J E` what `_heal_all_active` does; each says that the invariant survives the step and
that `E` holds where one raises. The invariants are told where the loops stand. The rules below
carry them from there through the nested loops, whatever is drawn and whichever constructor
raises.
-/

namespace FaultStorm.FaultEngine

open Python Proc

variable {β ω : Type}

/-- An entry of the history that is not about an action. -/
def Silent (event : Event β ω) : Prop := ∀ stage a raised, event ≠ .action stage a raised

theorem silent_stopCleared : Silent (.stopCleared : Event β ω) :=
  fun _ _ _ eq => by cases eq

theorem silent_stopChecked (answer : Bool) : Silent (.stopChecked answer : Event β ω) :=
  fun _ _ _ eq => by cases eq

theorem silent_complexFault (faultCount : Nat) : Silent (.complexFault faultCount : Event β ω) :=
  fun _ _ _ eq => by cases eq

theorem silent_complexFaultDone : Silent (.complexFaultDone : Event β ω) :=
  fun _ _ _ eq => by cases eq

/-- A class that is in the registry. -/
def Registered (e : Setup β ω) (cls : ActionClass β ω) : Prop := ∃ name, e.registry.get? name = some cls

/-- The class has one of the configured names. -/
def Enabled (e : Setup β ω) (cls : ActionClass β ω) : Prop :=
  ∃ name ∈ e.config.faultTypes, e.registry.get? name = some cls

theorem Enabled.registered {e : Setup β ω} {cls : ActionClass β ω} (h : Enabled e cls) : Registered e cls :=
  ⟨h.choose, h.choose_spec.2⟩

theorem enabled_of_getClasses {e : Setup β ω} {classes : List (ActionClass β ω)}
    (found : e.registry.getClasses (some e.config.faultTypes) = .ok classes) : ∀ cls ∈ classes, Enabled e cls := by
  intro cls member
  obtain ⟨name, among, looked⟩ := mem_of_mapM_ok found cls member
  refine ⟨name, among, ?_⟩
  cases got : e.registry.get? name with
  | none =>
    rw [got] at looked
    cases looked
  | some c =>
    rw [got] at looked
    exact congrArg some (Except.ok.inj looked)

/-- What the classes of a random run are. -/
structure Chosen (e : Setup β ω) (faultClasses complexClasses : List (ActionClass β ω)) : Prop where
  enabled : ∀ cls ∈ faultClasses, Enabled e cls
  complex : ∀ cls ∈ complexClasses, Enabled e cls ∧ cls.hostTargetable = true ∧ e.config.complexFaultsEnabled = true

/-- The classes of `run_random` that take part in combinations are among its fault classes. -/
theorem chosen_of_getClasses {e : Setup β ω} {classes : List (ActionClass β ω)}
    (found : e.registry.getClasses (some e.config.faultTypes) = .ok classes) :
    Chosen e classes (if e.config.complexFaultsEnabled then classes.filter (·.hostTargetable) else []) := by
  have enabled := enabled_of_getClasses found
  refine ⟨enabled, fun cls member => ?_⟩
  split at member
  · rename_i complex
    obtain ⟨among, targetable⟩ := List.mem_filter.mp member
    exact ⟨enabled cls among, targetable, complex⟩
  · cases member

/-- The configuration asks for a wait of this length. -/
def Waits (e : Setup β ω) (seconds : Int) : Prop :=
  seconds = e.config.faultActiveDuration ∨ seconds = e.config.faultPauseDuration ∨
    e.config.complexFaultMinWait ≤ seconds ∧ seconds ≤ e.config.complexFaultMaxWait

/-- Only a class that can be pointed at a node is, and only at a database node. -/
def Aimed (e : Setup β ω) (cls : ActionClass β ω) (target : Option String) : Prop :=
  ∀ node, target = some node → node ∈ e.config.dbNodes ∧ cls.hostTargetable = true

/-- What `_inject_complex_fault` sets out to inject: one fault that is not aimed, or up to three at
one database node. -/
inductive Planned (e : Setup β ω) : Option String → Nat → Prop
  | single : Planned e none 1
  | combined (complex : e.config.complexFaultsEnabled = true) (node : String) (known : node ∈ e.config.dbNodes)
      (faultCount : Nat) (some : 0 < faultCount) (few : faultCount ≤ 3) : Planned e (.some node) faultCount

/-- Where the injections of a cycle stand: how many calls of `_inject_complex_fault` are still to
come, and inside one what it aims at and how many faults it has still to inject. -/
inductive Injection
  | between (calls : Nat)
  | within (calls : Nat) (target : Option String) (faults : Nat)

/-- The limit lets an action of the class through. -/
def Allowed (e : Setup β ω) (s : FaultEngine β ω) (cls : ActionClass β ω) : Prop :=
  cls.destructive = true → ∀ limit, e.config.maxDestructiveActions = some limit → s.destructiveCount < limit

/-- `I` holds of the engine wherever the injections stand, and `E` where one raises. -/
structure Injects (e : Setup β ω) (I : Injection → FaultEngine β ω → Prop) (E : FaultEngine β ω → Prop) : Prop where
  draws : ∀ place s draws, I place s → I place { s with world := { s.world with draws } }
  paused : ∀ place s seconds, Waits e seconds → I place s → I place (s.paused e seconds)
  begins : ∀ calls target faultCount s, Planned e target faultCount → I (.between (calls + 1)) s →
    I (.within calls target faultCount) { s with history := s.history ++ [.complexFault faultCount] }
  refused : ∀ calls target faults s, I (.within calls target (faults + 1)) s → E { s with nextOrdinal := s.nextOrdinal + 1 }
  injected : ∀ calls target faults s cls self, Enabled e cls → Allowed e s cls → Aimed e cls target →
    construct e cls target (s.nextOrdinal + 1) = .ok self → I (.within calls target (faults + 1)) s →
    I (.within calls target faults) (s.injected (s.newAction cls self))
  done : ∀ calls target faults s, I (.within calls target faults) s →
    I (.between calls) { s with history := s.history ++ [.complexFaultDone] }
  raised : ∀ place s, I place s → E s := by exact fun _ _ h => h

/-- `J rest` holds in the loop of `_heal_all_active` whenever `rest` is still to be healed, and `E`
where the loop raises. -/
structure Heals (e : Setup β ω) (J : List (FaultAction β ω) → FaultEngine β ω → Prop)
    (E : FaultEngine β ω → Prop) : Prop where
  draws : ∀ rest s draws, J rest s → J rest { s with world := { s.world with draws } }
  paused : ∀ rest s seconds, Waits e seconds → J rest s → J rest (s.paused e seconds)
  mended : ∀ a rest s, a.cls.healable = false → J (a :: rest) s → J rest (s.mended a)
  logged : ∀ a rest s, a.cls.healable = true → J (a :: rest) s →
    J rest (wrote (a.call a.cls.heal s.world).2.1 true (s.mended a))
  raised : ∀ rest s, J rest s → E s

variable {e : Setup β ω} {I E : FaultEngine β ω → Prop}

theorem draw_keeps {α : Type} (draws : ∀ s draws, I s → I { s with world := { s.world with draws } })
    (d : Random.Draw α) : Keeps I (draw d) := by
  intro s hs
  rw [exec_draw]
  rcases (d.exec s.world.draws).1 with _ | _ <;> exact draws s _ hs

theorem draw_choice {α : Type} (draws : ∀ s draws, I s → I { s with world := { s.world with draws } })
    (options : List α) :
    Triple I (draw (Random.choice options)) (fun a s => a ∈ options ∧ I s) (fun _ => I) := by
  intro s hs
  by_cases empty : options = []
  · rw [exec_draw, empty, Random.exec_choice_nil]
    exact draws s _ hs
  · obtain ⟨a, member, drawn⟩ := Random.exec_choice empty s.world.draws
    rw [exec_draw, drawn]
    exact ⟨member, draws s _ hs⟩

/-- A draw in a range comes to a number of the range, or raises. -/
theorem draw_randint (draws : ∀ s draws, I s → I { s with world := { s.world with draws } }) (lo hi : Int) :
    Triple I (draw (Random.randint lo hi)) (fun v s => (lo ≤ v ∧ v ≤ hi) ∧ I s) (fun _ => I) := by
  intro s hs
  rw [exec_draw]
  by_cases range : lo ≤ hi
  · obtain ⟨v, above, below, drawn⟩ := Random.exec_randint range s.world.draws
    rw [drawn]
    exact ⟨⟨above, below⟩, draws s _ hs⟩
  · have raises : (Random.randint lo hi).exec s.world.draws = (.error .valueError, s.world.draws) := by
      rw [Random.randint, if_pos (by omega)]
      rfl
    rw [raises]
    exact draws s _ hs

theorem pause_keeps {seconds : Int} (paused : ∀ s, I s → I (s.paused e seconds)) : Keeps I (pause e seconds) := by
  intro s hs
  rw [exec_pause]
  exact paused s hs

theorem randomPause_keeps (draws : ∀ s draws, I s → I { s with world := { s.world with draws } })
    (paused : ∀ s seconds, Waits e seconds → I s → I (s.paused e seconds)) : Keeps I (randomPause e) :=
  (draw_randint draws _ _).bind fun seconds => Triple.given fun range =>
    pause_keeps fun s => paused s seconds (Or.inr (Or.inr range))

/-- The limit takes classes away only, and leaves those it allows. -/
theorem filterByDestructiveLimit_keeps (classes : List (ActionClass β ω)) :
    Triple I (filterByDestructiveLimit e classes)
      (fun available s => available ⊆ classes ∧ (∀ cls ∈ available, Allowed e s cls) ∧ I s) (fun _ => I) := by
  intro s hs
  unfold filterByDestructiveLimit
  rw [exec_bind_ok (exec_get s)]
  cases limited : e.config.maxDestructiveActions with
  | none =>
    have allowed : ∀ cls ∈ classes, Allowed e s cls := by
      intro cls _ _ limit eq
      rw [limited] at eq
      cases eq
    exact ⟨List.Subset.refl _, allowed, hs⟩
  | some limit =>
    by_cases reached : limit ≤ s.destructiveCount
    · have allowed : ∀ cls ∈ classes.filter (! ·.destructive), Allowed e s cls := by
        intro cls member destructive
        have harmless := (List.mem_filter.mp member).2
        rw [destructive] at harmless
        cases harmless
      dsimp only
      rw [if_pos reached]
      exact ⟨List.filter_subset_self _, allowed, hs⟩
    · have allowed : ∀ cls ∈ classes, Allowed e s cls := by
        intro cls _ _ other eq
        rw [limited, Option.some.injEq] at eq
        omega
      dsimp only
      rw [if_neg reached]
      exact ⟨List.Subset.refl _, allowed, hs⟩

namespace Heals

variable {J : List (FaultAction β ω) → FaultEngine β ω → Prop}

theorem healFault_upholds (h : Heals e J E) (a : FaultAction β ω) (rest : List (FaultAction β ω)) :
    Triple (J (a :: rest)) (healFault e a) (fun _ => J rest) (fun _ => E) := by
  intro s hs
  rw [exec_healFault]
  by_cases healable : a.cls.healable = true
  · have pause : Keeps (J rest) (randomPause e) := randomPause_keeps (h.draws rest) (h.paused rest)
    rw [if_pos healable]
    exact pause.upholds (h.raised rest) _ (h.logged a rest s healable hs)
  · rw [if_neg healable]
    exact h.mended a rest s (Bool.not_eq_true _ ▸ healable) hs

/-- A turn of the loop does not raise where the range of the waits is not empty. -/
theorem healFault_returns (h : Heals e J E) (range : e.config.complexFaultMinWait ≤ e.config.complexFaultMaxWait)
    (a : FaultAction β ω) (rest : List (FaultAction β ω)) :
    Triple (J (a :: rest)) (healFault e a) (fun _ => J rest) (fun _ _ => False) := by
  intro s hs
  rw [exec_healFault]
  by_cases healable : a.cls.healable = true
  · have kept := randomPause_keeps (h.draws rest) (h.paused rest) _ (h.logged a rest s healable hs)
    obtain ⟨seconds, draws, run⟩ := exec_randomPause e range (wrote (a.call a.cls.heal s.world).2.1 true (s.mended a))
    rw [run] at kept
    rw [if_pos healable, run]
    exact kept
  · rw [if_neg healable]
    exact h.mended a rest s (Bool.not_eq_true _ ▸ healable) hs

/-- `_heal_all_active` runs its loop over the active faults in some order, and clears the list
if the loop returns. -/
theorem healAllActive_of_turns
    (turn : ∀ a rest, Triple (J (a :: rest)) (healFault e a) (fun _ => J rest) (fun _ => E))
    (start : ∀ s faults draws, faults.Perm s.activeFaults → I s → J faults { s with world := { s.world with draws } }) :
    Triple I (healAllActive e) (fun _ s => ∃ t, J [] t ∧ s = { t with activeFaults := [] }) (fun _ => E) := by
  intro s hs
  obtain ⟨faults, draws, perm, drawn⟩ := Random.exec_shuffle s.activeFaults s.world.draws
  have shuffled : (draw (Random.shuffle s.activeFaults)).exec s =
      (.ok faults, { s with world := { s.world with draws } }) := by
    rw [exec_draw, drawn]
  have loop := Triple.forEach (I := J) faults turn _ (start s faults draws perm hs)
  unfold healAllActive
  rw [exec_bind_ok (exec_get s), exec_bind_ok shuffled, exec_bind]
  rcases ran : (forEach faults (healFault e)).exec _ with ⟨exc | _, t⟩ <;> rw [ran] at loop
  · exact loop
  · exact ⟨t, loop, rfl⟩

theorem healAllActive_upholds (h : Heals e J E)
    (start : ∀ s faults draws, faults.Perm s.activeFaults → I s → J faults { s with world := { s.world with draws } }) :
    Triple I (healAllActive e) (fun _ s => ∃ t, J [] t ∧ s = { t with activeFaults := [] }) (fun _ => E) :=
  healAllActive_of_turns h.healFault_upholds start

theorem healAllActive_returns (h : Heals e J E) (range : e.config.complexFaultMinWait ≤ e.config.complexFaultMaxWait)
    (start : ∀ s faults draws, faults.Perm s.activeFaults → I s → J faults { s with world := { s.world with draws } }) :
    Triple I (healAllActive e) (fun _ s => ∃ t, J [] t ∧ s = { t with activeFaults := [] }) (fun _ _ => False) :=
  healAllActive_of_turns (h.healFault_returns range) start

end Heals

namespace Injects

variable {I : Injection → FaultEngine β ω → Prop}

theorem randomPause_upholds (h : Injects e I E) (place : Injection) : Upholds (I place) E (randomPause e) :=
  (randomPause_keeps (h.draws place) (h.paused place)).upholds (h.raised place)

theorem injectFault_upholds (h : Injects e I E) {cls : ActionClass β ω} {target : Option String}
    (enabled : Enabled e cls) (aimed : Aimed e cls target) (calls faults : Nat) :
    Triple (fun s => Allowed e s cls ∧ I (.within calls target (faults + 1)) s) (injectFault e cls target)
      (fun _ => I (.within calls target faults)) (fun _ => E) := by
  rintro s ⟨allowed, hs⟩
  cases built : construct e cls target (s.nextOrdinal + 1) with
  | error exc =>
    rw [exec_injectFault_refused built]
    exact h.refused calls target faults s hs
  | ok self =>
    rw [exec_injectFault built]
    exact h.injected calls target faults s cls self enabled allowed aimed built hs

/-- The loop ends where its faults are used up, or where the limit leaves no class. -/
theorem done_upholds (h : Injects e I E) (calls : Nat) (target : Option String) (faults : Nat) :
    Triple (I (.within calls target faults)) (note .complexFaultDone) (fun _ => I (.between calls)) (fun _ => E) :=
  fun s hs => h.done calls target faults s hs

theorem injectFaults_upholds (h : Injects e I E) {pool : List (ActionClass β ω)} {target : Option String}
    (known : ∀ cls ∈ pool, Enabled e cls ∧ Aimed e cls target) (calls remaining : Nat) :
    Triple (I (.within calls target remaining)) (injectFaults e pool target remaining) (fun _ => I (.between calls))
      (fun _ => E) := by
  induction remaining with
  | zero => exact h.done_upholds calls target 0
  | succ remaining ih =>
    have filtered := filterByDestructiveLimit_keeps (e := e) (I := I (.within calls target (remaining + 1))) pool
    refine Triple.bind (filtered.conseq (fun _ hs => hs) (fun _ _ hs => hs) fun _ => h.raised _) fun available =>
      Triple.given fun among => Triple.ite (fun _ => ?_) fun _ => ?_
    · exact (h.done_upholds calls target (remaining + 1)).conseq (fun _ hs => hs.2) (fun _ _ hs => hs) fun _ _ hs => hs
    -- drawing a class does not touch the counter, so the class drawn is still allowed
    have drawn := draw_choice
      (I := fun s => (∀ cls ∈ available, Allowed e s cls) ∧ I (.within calls target (remaining + 1)) s)
      (fun s draws hs => ⟨hs.1, h.draws _ s draws hs.2⟩) available
    refine Triple.bind (drawn.conseq (fun _ hs => hs) (fun _ _ hs => hs) fun _ s hs => h.raised _ s hs.2) fun cls =>
      Triple.given fun member => ?_
    obtain ⟨enabled, aimed⟩ := known cls (among member)
    refine Triple.bind ((h.injectFault_upholds enabled aimed calls remaining).conseq
      (fun s hs => ⟨hs.1 cls member, hs.2⟩) (fun _ _ hs => hs) fun _ _ hs => hs) fun _ => ?_
    by_cases more : 0 < remaining
    · rw [if_pos more]
      exact Triple.bind (h.randomPause_upholds _) fun _ => ih
    · rw [if_neg more]
      exact ih

variable {faultClasses complexClasses : List (ActionClass β ω)}

/-- A combination is aimed at one database node, and a single fault is not aimed. -/
theorem injectComplexFault_upholds (h : Injects e I E) (chosen : Chosen e faultClasses complexClasses) (calls : Nat) :
    Triple (I (.between (calls + 1))) (injectComplexFault e faultClasses complexClasses) (fun _ => I (.between calls))
      (fun _ => E) := by
  have draws := h.draws (.between (calls + 1))
  have raised := h.raised (.between (calls + 1))
  have begins : ∀ {target faultCount}, Planned e target faultCount →
      Triple (I (.between (calls + 1))) (note (.complexFault faultCount))
        (fun _ => I (.within calls target faultCount)) (fun _ => E) :=
    fun planned s hs => h.begins calls _ _ s planned hs
  have choice : Triple (I (.between (calls + 1))) (if complexClasses.isEmpty then pure false
      else draw Random.coin : EngineM β ω Bool)
      (fun useCombo s => (useCombo = true → complexClasses ≠ []) ∧ I (.between (calls + 1)) s) (fun _ => E) := by
    refine Triple.ite (fun _ => Triple.pure fun _ hs => ⟨(fun combo => by cases combo), hs⟩) fun some => ?_
    refine (draw_keeps draws _).conseq (fun _ hs => hs) (fun _ _ hs => ⟨fun _ none => some ?_, hs⟩) fun _ => raised
    rw [none]
    rfl
  refine choice.bind fun useCombo => Triple.given fun combined => Triple.ite (fun combo => ?_) fun _ => ?_
  · obtain ⟨cls, among⟩ := List.exists_mem_of_ne_nil _ (combined combo)
    have complex := (chosen.complex cls among).2.2
    have count := (draw_randint draws 1 3).conseq (fun _ hs => hs) (fun _ _ hs => hs) fun _ => raised
    have node := (draw_choice draws e.config.dbNodes).conseq (fun _ hs => hs) (fun _ _ hs => hs) fun _ => raised
    refine Triple.bind count fun faultCount => Triple.given fun range => Triple.bind node fun node =>
      Triple.given fun among => ?_
    refine (begins (.combined complex node among _ (by omega) (by omega))).bind fun _ =>
      h.injectFaults_upholds (fun cls member => ⟨(chosen.complex cls member).1, fun other same => ?_⟩) calls _
    cases same
    exact ⟨among, (chosen.complex cls member).2.1⟩
  · exact (begins .single).bind fun _ =>
      h.injectFaults_upholds (fun cls member => ⟨chosen.enabled cls member, fun node none => by cases none⟩) calls 1

end Injects

end FaultStorm.FaultEngine
