import FaultStorm.Faults.Engine.Loop
import FaultStorm.Faults.Engine.Stages
import FaultStorm.Faults.Builtin
import Mathlib.Logic.Relation

/-!
# TestRunner

The main thread of `_run_phases` from the start of the fault thread on, interleaved with the
fault thread in random mode. At every step of the main thread an exception may be raised,
which leaves `run()`; the fault thread goes on. What the two threads have done to the
faults is the engine's history.
-/

namespace FaultStorm

open Python

variable {β ω : Type}

/-- The `heal()` of the object `id` has been called and has returned. -/
def healed (history : List (Event β ω)) (id : Nat) : Bool :=
  history.any fun
    | .action .healed a none => a.id == id
    | _ => false

/-- A `heal()` has raised. -/
def healRaised : Event β ω → Bool
  | .action .healed _ (some _) => true
  | _ => false

/-- The healable faults that were injected and have not been healed. -/
def unhealed (history : List (Event β ω)) : List Nat :=
  history.filterMap fun
    | .action .injected a _ => if a.cls.healable && !healed history a.id then some a.id else none
    | _ => none

namespace FaultEngine

/-- Every injected fault is one of `faults`, or its `heal()` has been called. -/
def Answered (faults : List (FaultAction β ω)) (s : FaultEngine β ω) : Prop :=
  ∀ id, Stage.injected ∈ stagesOf id s.history →
    id ∈ faults.map (·.id) ∨ Stage.healed ∈ stagesOf id s.history

/-- Every injected fault is active, or its `heal()` has been called. -/
def Covered (s : FaultEngine β ω) : Prop := Answered s.activeFaults s

section Answered

variable {s t : FaultEngine β ω} {faults : List (FaultAction β ω)}

theorem Answered.congr (h : Answered faults s) (history : t.history = s.history) : Answered faults t := by
  unfold Answered
  rw [history]
  exact h

theorem Answered.paused (h : Answered faults s) (e : Setup β ω) (seconds : Int) :
    Answered faults (s.paused e seconds) := by
  intro id injected
  rw [stagesOf_paused] at injected ⊢
  have before : Stage.injected ∈ stagesOf id s.history := by
    rcases List.mem_append.mp injected with before | own
    · exact before
    · split at own <;> simp at own
  exact (h id before).imp_right (List.mem_append_left _)

theorem Answered.mended {a : FaultAction β ω} (h : Answered (a :: faults) s) :
    Answered faults (s.mended a) := by
  intro id injected
  rw [stagesOf_mended] at injected ⊢
  by_cases eq : a.id = id
  · rw [if_pos eq]
    exact Or.inr (List.mem_append_right _ (by decide))
  · rw [if_neg eq, List.append_nil] at injected ⊢
    refine (h id injected).imp_left fun member => ?_
    rcases List.mem_cons.mp member with same | member
    · exact absurd same.symm eq
    · exact member

theorem Covered.paused (h : Covered s) (e : Setup β ω) (seconds : Int) : Covered (s.paused e seconds) := by
  have active : (s.paused e seconds).activeFaults = s.activeFaults := ran_activeFaults ..
  unfold Covered
  rw [active]
  exact Answered.paused h e seconds

theorem Covered.injected (h : Covered s) (a : FaultAction β ω) : Covered (s.injected a) := by
  intro id started
  rw [stagesOf_injected] at started ⊢
  have active : (s.injected a).activeFaults = s.activeFaults ++ [(s.injecting a).executed a] := rfl
  rw [active, List.map_append, List.mem_append]
  by_cases eq : a.id = id
  · exact Or.inl (Or.inr (by simp [eq]))
  · rw [if_neg eq, List.append_nil] at started ⊢
    exact (h id started).imp_left Or.inl

/-- Healing an active fault again or for the first time leaves it answered for. -/
theorem Covered.mended (h : Covered s) (a : FaultAction β ω) : Covered (s.mended a) := by
  have ids : (s.mended a).activeFaults.map (·.id) = s.activeFaults.map (·.id) := by
    show ((s.activeFaults.map fun b => if b.id = a.id then (a.call a.cls.heal s.world).2.1 else b).map _) = _
    rw [List.map_map]
    refine List.map_congr_left fun b _ => ?_
    by_cases eq : b.id = a.id
    · simp [eq]
    · simp [eq]
  intro id injected
  rw [stagesOf_mended] at injected ⊢
  rw [ids]
  have before : Stage.injected ∈ stagesOf id s.history := by
    rcases List.mem_append.mp injected with before | own
    · exact before
    · split at own <;> simp at own
  exact (h id before).imp_right (List.mem_append_left _)

end Answered

open Proc

/-- Every turn of the loop of `_heal_all_active` answers for its fault. -/
theorem answered_heals (e : Setup β ω) : Heals e (fun rest s => Covered s ∧ Answered rest s) Covered where
  draws _ _ _ h := ⟨Answered.congr h.1 rfl, h.2.congr rfl⟩
  paused _ _ seconds _ h := ⟨h.1.paused e seconds, h.2.paused e seconds⟩
  mended a _ _ _ h := ⟨h.1.mended a, h.2.mended⟩
  logged a _ s _ h := by
    refine ⟨?_, h.2.mended.congr (wrote_history ..)⟩
    unfold Covered
    rw [wrote_activeFaults]
    exact Answered.congr (h.1.mended a) (wrote_history ..)
  raised _ _ h := h.1

/-- If `_heal_all_active` returns, `heal()` has been called for every injected fault. -/
theorem healAllActive_answers (e : Setup β ω) :
    Triple Covered (healAllActive e) (fun _ s => Covered s ∧ Answered [] s) (fun _ s => Covered s) := by
  have heal := (answered_heals e).healAllActive_upholds (I := Covered) fun s faults draws perm covered =>
    ⟨Answered.congr covered rfl, fun id injected => (covered id injected).imp_left (perm.map _).mem_iff.mpr⟩
  refine heal.conseq (fun _ h => h) ?_ fun _ _ h => h
  rintro _ _ ⟨t, ⟨-, answered⟩, rfl⟩
  exact ⟨Answered.congr answered rfl, Answered.congr answered rfl⟩

/-- Every injected fault stays answered for through the random mode. -/
theorem covered_preserved (e : Setup β ω) : Preserved e Covered where
  draws _ _ _ covered := Answered.congr covered rfl
  checked s event silent covered id injected := by
    have history := stagesOf_silent id s.history silent
    have injected : Stage.injected ∈ stagesOf id (s.history ++ [event]) := injected
    rw [history] at injected
    exact (covered id injected).imp_right fun healed => history.symm ▸ healed
  paused _ _ seconds _ covered := covered.paused e seconds
  refused _ _ _ _ covered := Answered.congr covered rfl
  injected _ _ _ _ _ _ _ _ _ _ covered := covered.injected _
  healed := (healAllActive_answers e).conseq (fun _ h => h) (fun _ _ h => h.1) fun _ _ h => h

end FaultEngine

/-! ## The two threads -/

/-- The steps of `_run_phases` after the start of the fault thread. -/
inductive MainStep
  | runWritePhase | stop | join | healAll | runReadPhase | stopLoad | checkConsistency
  deriving DecidableEq, Repr

/-- The main thread: about to finish a step, or out of `run()`, by an exception raised at a
step or by its return. -/
inductive Main
  | at (step : MainStep)
  | left (raisedAt : Option MainStep)
  deriving DecidableEq, Repr

/-- The two threads and the engine between them. `thread` holds, once the fault thread has
ended, how many calls of `is_set()` answered `False`. -/
structure TestRunner (β ω : Type) where
  main : Main
  thread : Option Nat
  stopCalled : Bool
  stopEvent : Bool
  history : List (Event β ω)

/-- What a test runs with, and what happens to the cluster and the clock between the end of
the fault thread and `heal_all`. -/
structure Test (β ω : Type) where
  setup : Setup β ω
  world : World ω
  clock : Nat → DateTime
  healWorld : World ω
  healClock : Nat → DateTime

namespace Test

/-- The engine at the end of a run of the fault thread. -/
def faultRun (test : Test β ω) (stopAt : Nat) : FaultEngine β ω :=
  ((FaultEngine.runRandom test.setup stopAt).exec (.fresh test.world test.clock)).2

/-- `engine.heal_all()` after that run. -/
def healRun (test : Test β ω) (stopAt : Nat) : Except PyExc Unit × FaultEngine β ω :=
  (FaultEngine.healAll test.setup).exec
    { test.faultRun stopAt with world := test.healWorld, clock := test.healClock }

end Test

namespace TestRunner

/-- The fault thread has just been started. -/
def start : TestRunner β ω where
  main := .at .runWritePhase
  thread := none
  stopCalled := false
  stopEvent := false
  history := []

/-- A call of `is_set()` answers as the stop event stands. -/
def Answers (stopEvent : Bool) : Event β ω → Prop
  | .stopChecked answer => answer = stopEvent
  | _ => True

instance (stopEvent : Bool) : DecidablePred (Answers stopEvent : Event β ω → Prop)
  | .stopChecked answer => inferInstanceAs (Decidable (answer = stopEvent))
  | .stopCleared | .action .. | .complexFault _ | .complexFaultDone => .isTrue trivial

/-- The stop event after an entry of the fault thread. -/
def eventAfter (stopEvent : Bool) : Event β ω → Bool
  | .stopCleared => false
  | _ => stopEvent

/-- One step of one of the threads, of the duration timer, or of an exception. -/
inductive Step (test : Test β ω) : TestRunner β ω → TestRunner β ω → Prop
  | faultThread {s} (stopAt : Nat) (event : Event β ω) (running : s.thread = none)
      (next : s.history ++ [event] <+: (test.faultRun stopAt).history) (answers : Answers s.stopEvent event) :
      Step test s { s with history := s.history ++ [event], stopEvent := eventAfter s.stopEvent event }
  | faultThreadEnds {s} (stopAt : Nat) (running : s.thread = none)
      (all : s.history = (test.faultRun stopAt).history) : Step test s { s with thread := some stopAt }
  | timer {s} : Step test s { s with stopEvent := true }
  | runWritePhase {s} (here : s.main = .at .runWritePhase) : Step test s { s with main := .at .stop }
  | stop {s} (here : s.main = .at .stop) :
      Step test s { s with main := .at .join, stopCalled := true, stopEvent := true }
  | join {s} (here : s.main = .at .join) (ended : s.thread.isSome) : Step test s { s with main := .at .healAll }
  | heal {s} (stopAt : Nat) (event : Event β ω) (here : s.main = .at .healAll) (ended : s.thread = some stopAt)
      (next : s.history ++ [event] <+: (test.healRun stopAt).2.history) :
      Step test s { s with history := s.history ++ [event] }
  | healAll {s} (stopAt : Nat) (here : s.main = .at .healAll) (ended : s.thread = some stopAt)
      (all : s.history = (test.healRun stopAt).2.history) (returns : (test.healRun stopAt).1 = .ok ()) :
      Step test s { s with main := .at .runReadPhase }
  | runReadPhase {s} (here : s.main = .at .runReadPhase) : Step test s { s with main := .at .stopLoad }
  | stopLoad {s} (here : s.main = .at .stopLoad) : Step test s { s with main := .at .checkConsistency }
  | checkConsistency {s} (here : s.main = .at .checkConsistency) : Step test s { s with main := .left none }
  | raise {s} (step : MainStep) (here : s.main = .at step) : Step test s { s with main := .left (some step) }

/-- The states of a test. -/
def Reaches (test : Test β ω) (s : TestRunner β ω) : Prop := Relation.ReflTransGen (Step test) start s

/-- The engine has been stopped and every healable fault it injected has been healed. -/
def Clean (s : TestRunner β ω) : Prop := s.stopCalled = true ∧ unhealed s.history = []

instance (s : TestRunner β ω) : Decidable s.Clean := inferInstanceAs (Decidable (_ ∧ _))

end TestRunner

/-- `engine.heal_all()` has returned when the main thread is at the step. -/
def MainStep.AfterHealAll : MainStep → Prop
  | .runWritePhase | .stop | .join | .healAll => False
  | .runReadPhase | .stopLoad | .checkConsistency => True

/-- `engine.heal_all()` has returned. -/
def Main.AfterHealAll : Main → Prop
  | .at step => step.AfterHealAll
  | .left (some step) => step.AfterHealAll
  | .left none => True

namespace Test

open FaultEngine

theorem unhealed_eq_nil {s : FaultEngine β ω} (answered : Answered [] s) (none : NoHealRaised s.history) :
    unhealed s.history = [] := by
  refine List.filterMap_eq_nil_iff.mpr fun event member => ?_
  split
  · rename_i a raised
    have injected : Stage.injected ∈ stagesOf a.id s.history := mem_stagesOf.mpr ⟨a, raised, rfl, member⟩
    obtain ⟨b, ending, same, called⟩ := mem_stagesOf.mp ((answered a.id injected).resolve_left List.not_mem_nil)
    obtain rfl := none b ending called
    have returned : healed s.history a.id = true := List.any_eq_true.mpr ⟨_, called, beq_iff_eq.mpr same⟩
    rw [returned, Bool.not_true, Bool.and_false]
    rfl
  · rfl

/-- When `heal_all` returns after a run of the fault thread, nothing is left unhealed, unless a
`heal()` has raised. -/
theorem healRun_heals (test : Test β ω) {stopAt : Nat} (returns : (test.healRun stopAt).1 = .ok ())
    (none : NoHealRaised (test.healRun stopAt).2.history) : unhealed (test.healRun stopAt).2.history = [] := by
  have fresh : Covered (.fresh test.world test.clock : FaultEngine β ω) := by
    intro id injected
    cases injected
  have covered := ((covered_preserved test.setup).runRandom_keeps (fun _ h => Answered.congr h rfl)
    (fun _ h => Answered.congr h rfl) stopAt).final fresh
  have answers := healAllActive_answers test.setup
    { test.faultRun stopAt with world := test.healWorld, clock := test.healClock }
    (Answered.congr covered rfl)
  unfold healRun healAll at *
  rcases run : (healAllActive test.setup).exec _ with ⟨exc | _, s⟩ <;> rw [run] at answers returns none
  · cases returns
  · exact unhealed_eq_nil answers.2 none

/-- Where the waits have a range, `heal_all` returns, and the history goes on from the run's. -/
theorem healRun_goesOn (test : Test β ω)
    (range : test.setup.config.complexFaultMinWait ≤ test.setup.config.complexFaultMaxWait) (stopAt : Nat) :
    (test.healRun stopAt).1 = .ok () ∧ (test.faultRun stopAt).history <+: (test.healRun stopAt).2.history := by
  let after : List (FaultAction β ω) → FaultEngine β ω → Prop :=
    fun _ s => (test.faultRun stopAt).history <+: s.history
  have heals : Heals test.setup after fun _ => True := by
    refine ⟨fun _ _ _ h => h, fun _ s seconds _ h => ?_, fun a _ s _ h => ?_, fun a _ s _ h => ?_, fun _ _ _ => trivial⟩
    · exact h.trans (List.prefix_append _ _)
    · exact h.trans (List.prefix_append _ _)
    · have line := wrote_history (a.call a.cls.heal s.world).2.1 true (s.mended a)
      show _ <+: (wrote (a.call a.cls.heal s.world).2.1 true (s.mended a)).history
      rw [line]
      exact h.trans (List.prefix_append s.history _)
  have run := heals.healAllActive_returns (I := after []) range (fun _ _ _ _ h => h)
    { test.faultRun stopAt with world := test.healWorld, clock := test.healClock } (List.prefix_refl _)
  unfold healRun healAll
  rcases ran : (healAllActive test.setup).exec _ with ⟨exc | _, s⟩ <;> rw [ran] at run
  · exact run.elim
  · obtain ⟨t, early, rfl⟩ := run
    exact ⟨rfl, early⟩

end Test

namespace TestRunner

open FaultEngine

/-- What holds at the later steps of the main thread. -/
structure Inv (test : Test β ω) (s : TestRunner β ω) : Prop where
  stopped : s.main = .at .join ∨ s.main = .at .healAll ∨ s.main.AfterHealAll → s.stopCalled = true
  healed : s.main.AfterHealAll → ∃ stopAt, s.thread = some stopAt ∧
    s.history = (test.healRun stopAt).2.history ∧ (test.healRun stopAt).1 = .ok ()

theorem inv_start (test : Test β ω) : Inv test start where
  stopped := by rintro (h | h | h) <;> cases h
  healed h := by cases h

theorem inv_step {test : Test β ω} {s t : TestRunner β ω} (h : Inv test s) (step : Step test s t) :
    Inv test t := by
  obtain ⟨stopped, healed⟩ := h
  cases step with
  | faultThread stopAt event running =>
    refine ⟨stopped, fun after => ?_⟩
    obtain ⟨_, ended, _⟩ := healed after
    rw [running] at ended
    cases ended
  | faultThreadEnds stopAt running =>
    refine ⟨stopped, fun after => ?_⟩
    obtain ⟨_, ended, _⟩ := healed after
    rw [running] at ended
    cases ended
  | timer => exact ⟨stopped, healed⟩
  | runWritePhase here =>
    constructor
    · rintro (h | h | h) <;> cases h
    · exact fun h => h.elim
  | stop here => exact ⟨fun _ => rfl, fun h => h.elim⟩
  | join here ended => exact ⟨fun _ => stopped (Or.inl here), fun h => h.elim⟩
  | heal stopAt event here =>
    refine ⟨stopped, fun after => ?_⟩
    rw [here] at after
    exact after.elim
  | healAll stopAt here ended all returns =>
    exact ⟨fun _ => stopped (Or.inr (Or.inl here)), fun _ => ⟨stopAt, ended, all, returns⟩⟩
  | runReadPhase here =>
    have after : s.main.AfterHealAll := here ▸ trivial
    exact ⟨fun _ => stopped (Or.inr (Or.inr after)), fun _ => healed after⟩
  | stopLoad here =>
    have after : s.main.AfterHealAll := here ▸ trivial
    exact ⟨fun _ => stopped (Or.inr (Or.inr after)), fun _ => healed after⟩
  | checkConsistency here =>
    have after : s.main.AfterHealAll := here ▸ trivial
    exact ⟨fun _ => stopped (Or.inr (Or.inr after)), fun _ => healed after⟩
  | raise step here =>
    constructor
    · rintro (h | h | after)
      · cases h
      · cases h
      · exact stopped (Or.inr (Or.inr (here ▸ after)))
    · exact fun after => healed (here ▸ after)

theorem inv_reaches {test : Test β ω} {s : TestRunner β ω} (reaches : Reaches test s) : Inv test s := by
  induction reaches with
  | refl => exact inv_start test
  | tail _ step ih => exact inv_step ih step

/-- Once `heal_all` has returned, the test is clean, unless a `heal()` has raised. -/
theorem clean_of_afterHealAll {test : Test β ω} {s : TestRunner β ω} (reaches : Reaches test s)
    (after : s.main.AfterHealAll) (none : NoHealRaised s.history) : s.Clean := by
  obtain ⟨stopped, healed⟩ := inv_reaches reaches
  obtain ⟨stopAt, _, all, returns⟩ := healed after
  exact ⟨stopped (Or.inr (Or.inr after)), all ▸ test.healRun_heals returns (all ▸ none)⟩

/-! ## Exceptions before `heal_all` has returned -/

/-- The fault thread makes a stretch of its run in which the stop event does not change. -/
theorem Reaches.faultThread {test : Test β ω} {s : TestRunner β ω} (reaches : Reaches test s)
    (running : s.thread = none) (stopAt : Nat) (events : List (Event β ω))
    (next : s.history ++ events <+: (test.faultRun stopAt).history)
    (steady : ∀ event ∈ events, Answers s.stopEvent event ∧ eventAfter s.stopEvent event = s.stopEvent) :
    Reaches test { s with history := s.history ++ events } := by
  induction events generalizing s with
  | nil => simpa using reaches
  | cons event events ih =>
    obtain ⟨answers, same⟩ := steady event List.mem_cons_self
    have first : s.history ++ [event] <+: (test.faultRun stopAt).history := by
      refine List.IsPrefix.trans ⟨events, ?_⟩ next
      simp
    have step := Step.faultThread stopAt event running first answers
    rw [same] at step
    have later := ih (reaches.tail step) running (by simpa using next)
      fun other member => steady other (List.mem_cons_of_mem event member)
    simpa using later

/-- A first stretch of the fault thread's run, before the stop event is set. -/
theorem reaches_prefix {test : Test β ω} {events : List (Event β ω)} (stopAt : Nat)
    (next : events <+: (test.faultRun stopAt).history)
    (steady : ∀ event ∈ events, Answers false event ∧ eventAfter false event = false) :
    Reaches test ⟨.at .runWritePhase, none, false, false, events⟩ :=
  Reaches.faultThread .refl rfl stopAt events next steady

/-- The fault thread completes its run while the main thread waits for it. -/
theorem Reaches.completed {test : Test β ω} {events more : List (Event β ω)} (stopAt : Nat)
    (reaches : Reaches test ⟨.at .join, none, true, true, events⟩)
    (all : events ++ more = (test.faultRun stopAt).history)
    (steady : ∀ event ∈ more, Answers true event ∧ eventAfter true event = true) :
    Reaches test ⟨.at .join, none, true, true, events ++ more⟩ :=
  reaches.faultThread rfl stopAt more (all ▸ List.prefix_rfl) steady

/-- The write phase is over, and the engine has not been stopped yet. -/
theorem Reaches.stopping {test : Test β ω} {history : List (Event β ω)}
    (reaches : Reaches test ⟨.at .runWritePhase, none, false, false, history⟩) :
    Reaches test ⟨.at .stop, none, false, false, history⟩ :=
  reaches.tail (.runWritePhase rfl)

/-- The main thread comes to wait for the fault thread, which makes no step meanwhile. -/
theorem Reaches.joining {test : Test β ω} {history : List (Event β ω)}
    (reaches : Reaches test ⟨.at .runWritePhase, none, false, false, history⟩) :
    Reaches test ⟨.at .join, none, true, true, history⟩ :=
  reaches.stopping.tail (.stop rfl)

/-- The fault thread ends, and the main thread is about to heal. -/
theorem Reaches.healing {test : Test β ω} {history : List (Event β ω)} (stopAt : Nat)
    (reaches : Reaches test ⟨.at .join, none, true, true, history⟩)
    (all : history = (test.faultRun stopAt).history) :
    Reaches test ⟨.at .healAll, some stopAt, true, true, history⟩ := by
  have ended : Reaches test ⟨.at .join, some stopAt, true, true, history⟩ :=
    reaches.tail (.faultThreadEnds stopAt rfl all)
  exact ended.tail (.join rfl rfl)

/-- `heal_all` makes a stretch of its run. -/
theorem Reaches.heals {test : Test β ω} {stopAt : Nat} {called event : Bool} {history : List (Event β ω)}
    (reaches : Reaches test ⟨.at .healAll, some stopAt, called, event, history⟩) (events : List (Event β ω))
    (next : history ++ events <+: (test.healRun stopAt).2.history) :
    Reaches test ⟨.at .healAll, some stopAt, called, event, history ++ events⟩ := by
  induction events generalizing history with
  | nil => simpa using reaches
  | cons entry events ih =>
    have first : history ++ [entry] <+: (test.healRun stopAt).2.history := by
      refine List.IsPrefix.trans ⟨events, ?_⟩ next
      simp
    have later := ih (reaches.tail (.heal stopAt entry rfl rfl first)) (by simpa using next)
    simpa using later

/-- `heal_all` returns, and the read phase begins. -/
theorem Reaches.reading {test : Test β ω} {stopAt : Nat} {called event : Bool} {history events : List (Event β ω)}
    (reaches : Reaches test ⟨.at .healAll, some stopAt, called, event, history⟩)
    (all : history ++ events = (test.healRun stopAt).2.history) (returns : (test.healRun stopAt).1 = .ok ()) :
    Reaches test ⟨.at .runReadPhase, some stopAt, called, event, (test.healRun stopAt).2.history⟩ := by
  have healed := reaches.heals events (all ▸ List.prefix_rfl)
  rw [all] at healed
  exact healed.tail (.healAll stopAt rfl rfl rfl returns)

theorem Reaches.raised {test : Test β ω} {thread : Option Nat} {called event : Bool}
    {history : List (Event β ω)} (step : MainStep)
    (reaches : Reaches test ⟨.at step, thread, called, event, history⟩) :
    Reaches test ⟨.left (some step), thread, called, event, history⟩ :=
  reaches.tail (.raise step rfl)

/-- One isolated node in each cycle, on two database nodes. -/
def isolationTest : Test Builtin Cluster where
  setup := { config := { dbNodes := ["pg1", "pg2"], faultTypes := ["partition_random_node"],
                         complexFaultsEnabled := false, parallelFaultsCount := 1 }
             registry := defaultRegistry
             dcMap := Dict.empty }
  world := ⟨fun _ => 0, idleCluster⟩
  clock _ := ⟨2024, 5, 17, 9, 30, 0, 0⟩
  healWorld := ⟨fun _ => 0, idleCluster⟩
  healClock _ := ⟨2024, 5, 17, 9, 40, 0, 0⟩

/-- The run of its fault thread that sees the stop event at its second look. -/
def isolationRun : List (Event Builtin Cluster) := (isolationTest.faultRun 1).history

/-- The fault thread has injected a partition and is in its active wait. -/
theorem reaches_isolated :
    Reaches isolationTest ⟨.at .runWritePhase, none, false, false, isolationRun.take 7⟩ :=
  reaches_prefix 1 (List.take_prefix 7 isolationRun) (by decide +kernel)

/-- The fault thread has then seen the stop event and ended. -/
theorem reaches_healing :
    Reaches isolationTest ⟨.at .healAll, some 1, true, true, isolationRun.take 7 ++ isolationRun.drop 7⟩ :=
  (reaches_isolated.joining.completed 1 (List.take_append_drop 7 isolationRun) (by decide +kernel)).healing 1
    (List.take_append_drop 7 isolationRun)

/-- `heal_all` returns after it. -/
theorem isolationRun_goesOn :
    (isolationTest.healRun 1).1 = .ok () ∧ isolationRun <+: (isolationTest.healRun 1).2.history := by
  unfold isolationRun
  exact isolationTest.healRun_goesOn (by decide) 1

/-- No `heal()` raises, up to the end of `heal_all`. -/
theorem isolationTest_noHealRaised {history : List (Event Builtin Cluster)}
    (early : history <+: (isolationTest.healRun 1).2.history) : NoHealRaised history := by
  have none : (isolationTest.healRun 1).2.history.any healRaised = false := by
    decide +kernel
  intro a raised healed
  cases raised with
  | none => rfl
  | some exc => exact absurd rfl (List.any_eq_false.mp none _ (early.subset healed))

/-- A step of the main thread at which an exception leaves the test clean, whatever the fault
thread has done by then and as long as no `heal()` has raised, is one after `heal_all` has
returned, and each of these is one. -/
theorem runPhases_clean_iff (step : MainStep) :
    (∀ (β ω : Type) (test : Test β ω) (s : TestRunner β ω), Reaches test s →
      s.main = .left (some step) → NoHealRaised s.history → s.Clean) ↔ step.AfterHealAll := by
  have goesOn : isolationRun <+: (isolationTest.healRun 1).2.history := isolationRun_goesOn.2
  have early : NoHealRaised (isolationRun.take 7) :=
    isolationTest_noHealRaised ((List.take_prefix 7 isolationRun).trans goesOn)
  have ended : NoHealRaised (isolationRun.take 7 ++ isolationRun.drop 7) := by
    rw [List.take_append_drop]
    exact isolationTest_noHealRaised goesOn
  constructor
  · intro clean
    have clean : ∀ {thread called event history}, Reaches isolationTest ⟨.at step, thread, called, event, history⟩ →
        NoHealRaised history → Clean ⟨.left (some step), thread, called, event, history⟩ :=
      fun reaches none => clean _ _ _ _ (reaches.raised step) rfl none
    cases step with
    | runWritePhase => exact absurd (clean reaches_isolated early) (by decide)
    | stop => exact absurd (clean reaches_isolated.stopping early) (by decide)
    | join => exact absurd (clean reaches_isolated.joining early) (by decide +kernel)
    | healAll => exact absurd (clean reaches_healing ended) (by decide +kernel)
    | runReadPhase => trivial
    | stopLoad => trivial
    | checkConsistency => trivial
  · intro after β ω test s reaches left none
    refine clean_of_afterHealAll reaches ?_ none
    rw [left]
    exact after

/-- An interrupt in the read phase, after `heal_all` has healed the partition. -/
theorem interrupt_after_heal :
    ∃ s, Reaches isolationTest s ∧ s.main = .left (some .runReadPhase) ∧ healed s.history 1 = true ∧ s.Clean := by
  obtain ⟨returns, events, all⟩ := isolationRun_goesOn
  have whole : isolationRun.take 7 ++ isolationRun.drop 7 ++ events = (isolationTest.healRun 1).2.history := by
    rw [List.take_append_drop]
    exact all
  have reached := (reaches_healing.reading whole returns).raised .runReadPhase
  have none := isolationTest_noHealRaised (List.prefix_refl _)
  have mended : healed (isolationTest.healRun 1).2.history 1 = true := by
    decide +kernel
  generalize (isolationTest.healRun 1).2.history = history at reached none mended
  exact ⟨_, reached, rfl, mended, (runPhases_clean_iff .runReadPhase).mpr trivial _ _ _ _ reached rfl none⟩

/-- A keyboard interrupt in the write phase, while a node is isolated: the engine has not been
stopped, and the partition with ordinal 1 stays. -/
theorem interrupt_leaves_partition :
    ∃ s, Reaches isolationTest s ∧ s.main = .left (some .runWritePhase) ∧ unhealed s.history = [1] ∧
      ¬ s.Clean :=
  ⟨_, reaches_isolated.raised .runWritePhase, rfl, by decide +kernel, by decide⟩

end TestRunner

end FaultStorm
