import FaultStorm.Faults.Engine.Loop
import FaultStorm.Faults.Engine.Replay

/-!
# The stop event

`stop()` and the duration timer set the event at any moment between two steps of the engine's
thread. An `Interleaving` inserts those moments into the history of a run, so that each poll
answers what the event is. `stand` reads off the history where the thread stands; where it is
`Quiet`, the next thing it can do about a fault is to poll the event.
-/

namespace FaultStorm

open Python Proc

variable {β ω : Type}

/-- A step of the engine's thread, or a `set()` of the stop event. -/
inductive Moment (β ω : Type)
  | step (event : Event β ω)
  | stopped

/-- The steps of the engine's thread. -/
def stepsOf (moments : List (Moment β ω)) : List (Event β ω) :=
  moments.filterMap fun
    | .step event => some event
    | .stopped => none

/-- Each poll answers what the event is, `flag` at first. -/
def answered : Bool → List (Moment β ω) → Bool
  | _, [] => true
  | _, .stopped :: rest => answered true rest
  | _, .step .stopCleared :: rest => answered false rest
  | flag, .step (.stopChecked answer) :: rest => answer == flag && answered flag rest
  | flag, .step _ :: rest => answered flag rest

/-- The event is set after a `set()`. -/
theorem answered_stopped {flag : Bool} {before after : List (Moment β ω)}
    (h : answered flag (before ++ .stopped :: after) = true) : answered true after = true := by
  induction before generalizing flag with
  | nil => exact h
  | cons moment before ih =>
    rcases moment with event | _
    · rcases event with _ | _ | answer | _ | _
      · exact ih h
      · exact ih h
      · exact ih (Bool.and_eq_true_iff.mp h).2
      · exact ih h
      · exact ih h
    · exact ih h

/-- A step answers what the event is, and leaves it set unless it clears it. -/
theorem answered_step {event : Event β ω} {rest : List (Moment β ω)} (h : answered true (.step event :: rest) = true)
    (kept : event ≠ .stopCleared) : event ≠ .stopChecked false ∧ answered true rest = true := by
  rcases event with _ | _ | answer | _ | _
  · exact ⟨(fun eq => by cases eq), h⟩
  · exact absurd rfl kept
  · obtain ⟨same, rest⟩ := Bool.and_eq_true_iff.mp h
    obtain rfl := eq_of_beq same
    exact ⟨(fun eq => by cases eq), rest⟩
  · exact ⟨(fun eq => by cases eq), h⟩
  · exact ⟨(fun eq => by cases eq), h⟩

theorem stepsOf_append (l k : List (Moment β ω)) : stepsOf (l ++ k) = stepsOf l ++ stepsOf k :=
  List.filterMap_append

theorem stepsOf_cons (event : Event β ω) (l : List (Moment β ω)) : stepsOf (.step event :: l) = event :: stepsOf l :=
  rfl

namespace FaultEngine

/-- What the thread runs. -/
inductive Task
  | random
  | replay (file : List Char)

/-- The history of a run of `run_random` or `run_replay`, from the start of its thread. -/
inductive ThreadRun (e : Setup β ω) : Task → List (Event β ω) → Prop
  | random (stopAt : Nat) (world : World ω) (clock : Nat → DateTime) :
      ThreadRun e .random ((runRandom e stopAt).exec (.fresh world clock)).2.history
  | replay (file : List Char) (stopAt : Nat) (world : World ω) (clock : Nat → DateTime) :
      ThreadRun e (.replay file) ((runReplay e file stopAt).exec (.fresh world clock)).2.history

/-- A run with the moments at which the stop event is set. -/
structure Interleaving (e : Setup β ω) (task : Task) (moments : List (Moment β ω)) : Prop where
  ran : ThreadRun e task (stepsOf moments)
  answered : answered false moments = true

/-- No fault begins its `execute()`. -/
def NoFaultStarts (moments : List (Moment β ω)) : Prop :=
  ∀ a raised, .step (.action .started a raised) ∈ moments → a.cls = WaitAction.cls

/-! ## Where the thread stands -/

/-- Where the thread stands, as far as the next polls and faults are concerned. -/
inductive Standing (β ω : Type)
  /-- before its `clear()` -/
  | starting
  /-- in the random mode, before the poll at the head of a cycle -/
  | resting
  /-- in a cycle, before the poll that follows its active wait: so many calls of `_inject_complex_fault`
  are still to come, and so many faults inside the current one -/
  | injecting (calls faults : Nat)
  /-- an action has been constructed, and its `execute()` is next -/
  | beginning (calls faults : Nat)
  /-- in the replay mode, before a poll -/
  | replaying (commands : List (FaultAction β ω × Bool))
  /-- the poll before a command has been answered, and the command is next -/
  | polled (command : FaultAction β ω × Bool) (commands : List (FaultAction β ω × Bool))
  /-- a poll has answered `True` -/
  | stopped

/-- Where the thread stands after its `clear()`. -/
def Task.cleared (e : Setup β ω) : Task → Standing β ω
  | .random => .resting
  | .replay file =>
    match parseLog e.registry e.config.dbNodes e.config.extraNodes e.dcMap file with
    | .error _ => .replaying []
    | .ok commands => .replaying commands

/-- Where a step brings the thread. -/
def advance (e : Setup β ω) (task : Task) : Standing β ω → Event β ω → Standing β ω
  | .starting => fun _ => task.cleared e
  | .resting => fun
    | .stopChecked true => .stopped
    | .stopChecked false => .injecting e.config.parallelFaultsCount.toNat 0
    | _ => .resting
  | .injecting calls faults => fun
    | .stopChecked true => .stopped
    | .stopChecked false => .resting
    | .complexFault faultCount => .injecting (calls - 1) faultCount
    | .complexFaultDone => .injecting calls 0
    | .action .injected _ _ => .beginning calls (faults - 1)
    | _ => .injecting calls faults
  | .beginning calls faults => fun _ => .injecting calls faults
  | .replaying commands => fun
    | .stopChecked true => .stopped
    | .stopChecked false =>
      match commands with
      | [] => .replaying []
      | command :: rest => .polled command rest
    | _ => .replaying commands
  | .polled _ commands => fun _ => .replaying commands
  | .stopped => fun _ => .stopped

/-- Where the steps bring the thread from its start. -/
def stand (e : Setup β ω) (task : Task) (history : List (Event β ω)) : Standing β ω :=
  history.foldl (advance e task) .starting

/-- The thread polls the event, and does not clear it before, before it can begin a fault. -/
def Quiet : Standing β ω → Prop
  | .starting | .beginning _ _ => False
  | .injecting calls faults => calls = 0 ∧ faults = 0
  | .polled command _ => command.2 = true ∨ command.1.cls = WaitAction.cls
  | .resting | .replaying _ | .stopped => True

/-- What the thread can do next. -/
def Possible : Standing β ω → Event β ω → Prop
  | .starting => (· = .stopCleared)
  | .resting => fun
    | .stopChecked _ => True
    | .action .started a _ => a.cls = WaitAction.cls
    | .action .finished _ _ | .action .healing _ _ | .action .healed _ _ => True
    | _ => False
  | .injecting calls faults => fun
    | .stopChecked _ | .complexFaultDone => True
    | .complexFault _ => 0 < calls
    | .action .injected _ _ => 0 < faults
    | .action .started a _ => a.cls = WaitAction.cls
    | .action .finished _ _ => True
    | _ => False
  | .beginning _ _ => fun
    | .action .started _ _ => True
    | _ => False
  | .replaying _ => fun
    | .stopChecked _ | .action .finished _ _ | .action .healed _ _ => True
    | _ => False
  | .polled command _ => fun
    | .action .started a _ => command = (a, false)
    | .action .healing _ _ => command.2 = true
    | _ => False
  | .stopped => fun _ => False

/-- Each step is one the thread can do where it stands. -/
def Goes (e : Setup β ω) (task : Task) : Standing β ω → List (Event β ω) → Prop
  | _, [] => True
  | standing, event :: rest => Possible standing event ∧ Goes e task (advance e task standing event) rest

section Standing

variable {e : Setup β ω} {task : Task}

theorem goes_append {standing : Standing β ω} {l k : List (Event β ω)} :
    Goes e task standing (l ++ k) ↔ Goes e task standing l ∧ Goes e task (l.foldl (advance e task) standing) k := by
  induction l generalizing standing with
  | nil => exact (true_and _).symm.to_iff
  | cons event l ih => exact (and_congr_right fun _ => ih).trans and_assoc.symm

/-- From a quiet place the thread does not clear the event, begins no fault, and is quiet still unless
it has polled the event and gone on. -/
theorem Quiet.step (e : Setup β ω) (task : Task) {standing : Standing β ω} {event : Event β ω} (quiet : Quiet standing)
    (possible : Possible standing event) :
    event ≠ .stopCleared ∧ (∀ a raised, event = .action .started a raised → a.cls = WaitAction.cls) ∧
      (event ≠ .stopChecked false → Quiet (advance e task standing event)) := by
  cases standing with
  | starting | beginning _ _ => exact quiet.elim
  | stopped => exact possible.elim
  -- what is left are the kinds of step, of which the places allow few
  | resting | injecting _ _ | replaying _ | polled _ _ =>
    rcases event with ⟨_ | _ | _ | _ | _, a, raised⟩ | _ | ⟨_ | _⟩ | _ | _ <;> simp_all [Possible, Quiet, advance]

/-- A thread that is quiet when the event is set begins no fault afterwards. -/
theorem Goes.noFaultStarts {moments : List (Moment β ω)} {standing : Standing β ω}
    (goes : Goes e task standing (stepsOf moments)) (quiet : Quiet standing) (set : answered true moments = true) :
    NoFaultStarts moments := by
  induction moments generalizing standing with
  | nil => exact fun _ _ member => absurd member List.not_mem_nil
  | cons moment rest ih =>
    cases moment with
    | stopped =>
      intro a raised member
      exact ih goes quiet set a raised ((List.mem_cons.mp member).resolve_left fun eq => by cases eq)
    | step event =>
      obtain ⟨possible, goes⟩ := goes
      obtain ⟨kept, waits, still⟩ := quiet.step e task possible
      obtain ⟨polled, set⟩ := answered_step set kept
      intro a raised member
      rcases List.mem_cons.mp member with eq | later
      · cases eq
        exact waits a raised rfl
      · exact ih goes (still polled) set a raised later

end Standing

/-! ## The thread goes so -/

section Runs

variable {e : Setup β ω} {task : Task} {standing : Standing β ω} {s t : FaultEngine β ω}

/-- The thread has gone as it can, and stands there. -/
structure Stands (e : Setup β ω) (task : Task) (standing : Standing β ω) (s : FaultEngine β ω) : Prop where
  place : stand e task s.history = standing
  goes : Goes e task .starting s.history

theorem Stands.append (h : Stands e task standing s) {events : List (Event β ω)}
    (history : t.history = s.history ++ events)
    (goes : Goes e task standing events) : Stands e task (events.foldl (advance e task) standing) t := by
  have place := h.place
  unfold stand at place
  refine ⟨?_, ?_⟩
  · rw [stand, history, List.foldl_append, place]
  · rw [history, goes_append, place]
    exact ⟨h.goes, goes⟩

theorem Stands.congr (h : Stands e task standing s) (history : t.history = s.history) : Stands e task standing t :=
  ⟨history ▸ h.place, history ▸ h.goes⟩

theorem Stands.note (h : Stands e task standing s) (event : Event β ω) (possible : Possible standing event) :
    Stands e task (advance e task standing event) { s with history := s.history ++ [event] } :=
  Stands.append (t := { s with history := s.history ++ [event] }) h rfl ⟨possible, trivial⟩

theorem Stands.start (h : s.history = []) : Stands e task .starting s :=
  ⟨by rw [h]; rfl, by rw [h]; trivial⟩

/-- A wait leaves the thread where it is. -/
theorem Stands.paused (h : Stands e task standing s) (seconds : Int)
    (inside : standing = .resting ∨ ∃ calls faults, standing = .injecting calls faults) :
    Stands e task standing (s.paused e seconds) := by
  have history : (s.paused e seconds).history = s.history ++ execution (waitAction e (s.nextOrdinal + 1) seconds) _ _ := rfl
  rcases inside with rfl | ⟨calls, faults, rfl⟩
  · exact h.append history ⟨rfl, trivial, trivial⟩
  · exact h.append history ⟨rfl, trivial, trivial⟩

/-- A call of `heal()` in the clean-up leaves the thread where it is. -/
theorem Stands.mended (h : Stands e task .resting s) (a : FaultAction β ω) : Stands e task .resting (s.mended a) :=
  have history : (s.mended a).history = s.history ++ healingOf a _ _ := rfl
  h.append history ⟨trivial, trivial, trivial⟩

/-- Where the loops of a cycle have the thread. -/
def Injection.stands : Injection → Standing β ω
  | .between calls => .injecting calls 0
  | .within calls _ faults => .injecting calls faults

/-- Where the thread is between two calls of the random mode. -/
def Point.Stands (e : Setup β ω) (s : FaultEngine β ω) : Point → Prop
  | .head | .heal | .pause => FaultEngine.Stands e .random .resting s
  | .inject remaining | .gap remaining => FaultEngine.Stands e .random (.injecting remaining 0) s
  | .check => FaultEngine.Stands e .random (.injecting 0 0) s
  | .left => FaultEngine.Stands e .random .stopped s
  | .raised => Goes e .random .starting s.history

theorem stands_heals (e : Setup β ω) :
    Heals e (fun _ => Stands e .random .resting) (fun s => Goes e .random .starting s.history) where
  draws _ _ _ h := h.congr rfl
  paused _ _ seconds _ h := h.paused seconds (Or.inl rfl)
  mended a _ _ _ h := h.mended a
  logged a _ _ _ h := (h.mended a).congr (wrote_history ..)
  raised _ _ h := h.goes

theorem stands_cycles (e : Setup β ω) :
    Cycles e (fun place => Stands e .random place.stands) (fun point s => point.Stands e s)
      (fun s => Goes e .random .starting s.history) where
  draws _ _ _ h := h.congr rfl
  paused place _ seconds _ h := h.paused seconds (Or.inr (by cases place <;> exact ⟨_, _, rfl⟩))
  begins calls _ faultCount _ _ h := Stands.note h (.complexFault faultCount) (Nat.succ_pos calls)
  refused _ _ _ _ h := h.goes
  injected _ _ faults s cls self _ _ _ _ h := by
    have history : (s.injected (s.newAction cls self)).history =
        s.history ++ (.action .injected (s.newAction cls self) none :: execution _ _ _) := List.append_assoc ..
    exact h.append history ⟨Nat.succ_pos faults, trivial, trivial, trivial⟩
  done _ _ _ _ h := Stands.note h .complexFaultDone trivial
  raised _ _ h := h.goes
  enters _ h := Stands.note h (.stopChecked false) trivial
  leaves _ h := Stands.note h (.stopChecked true) trivial
  waits _ h := h.paused _ (Or.inr ⟨_, _, rfl⟩)
  carriesOn _ h := Stands.note h (.stopChecked false) trivial
  stops _ h := Stands.note h (.stopChecked true) trivial
  heals := by
    have heal := (stands_heals e).healAllActive_upholds (I := Stands e .random .resting) fun _ _ _ _ h => h.congr rfl
    refine heal.conseq (fun _ h => h) ?_ fun _ _ h => h
    rintro _ _ ⟨t, h, rfl⟩
    exact h.congr rfl
  rests _ h := h.paused _ (Or.inl rfl)
  fails _ h := h

/-- A command of the replay is begun after its poll. -/
theorem replayCommand_stands {command : FaultAction β ω × Bool} {rest : List (FaultAction β ω × Bool)} :
    Triple (Stands e task (.polled command rest)) (replayCommand command) (fun _ => Stands e task (.replaying rest))
      (fun _ s => Goes e task .starting s.history) := by
  intro s h
  obtain ⟨a, isHeal⟩ := command
  unfold replayCommand
  cases isHeal with
  | true =>
    simp only [if_true]
    rw [exec_bind_ok (exec_note _ _), exec_bind_ok (exec_callMethod ..), exec_bind_ok (exec_note _ _), exec_writeAction]
    have history : s.history ++ [.action .healing a none] ++
        [.action .healed (a.call a.cls.heal s.world).2.1 (a.call a.cls.heal s.world).1] =
        s.history ++ healingOf a _ _ := List.append_assoc ..
    have goes : Goes e task (.polled (a, true) rest)
        (healingOf a (a.call a.cls.heal s.world).2.1 (a.call a.cls.heal s.world).1) := ⟨rfl, trivial, trivial⟩
    exact h.append ((wrote_history ..).trans history) goes
  | false =>
    simp only [Bool.false_eq_true, if_false]
    rw [exec_bind_ok (exec_logAndExecute a s)]
    exact h.append (ran_history a s) ⟨rfl, trivial, trivial⟩

theorem replayCommands_goes (commands : List (FaultAction β ω × Bool)) (stopAt : Nat) :
    Triple (Stands e task (.replaying commands)) (replayCommands commands stopAt)
      (fun _ s => Goes e task .starting s.history) (fun _ s => Goes e task .starting s.history) := by
  induction commands generalizing stopAt with
  | nil => exact Triple.pure fun _ h => h.goes
  | cons command rest ih =>
    cases stopAt with
    | zero => exact fun s h => (Stands.note h (.stopChecked true) trivial).goes
    | succ stopAt =>
      have poll : Triple (Stands e task (.replaying (command :: rest))) (note (.stopChecked false))
          (fun _ => Stands e task (.polled command rest)) (fun _ s => Goes e task .starting s.history) :=
        fun s h => Stands.note h (.stopChecked false) trivial
      exact poll.bind fun _ => replayCommand_stands.bind fun _ => ih stopAt

theorem runRandom_goes (e : Setup β ω) (stopAt : Nat) :
    Triple (·.history = []) (runRandom e stopAt) (fun _ s => Goes e .random .starting s.history)
      (fun _ s => Goes e .random .starting s.history) := by
  have run := (stands_cycles e).runRandom_triple (P := (·.history = [])) (J := Stands e .random .resting)
    (fun s h => (Stands.start h).note .stopCleared rfl) (fun s h => h.congr rfl) stopAt
  refine run.conseq (fun _ h => h) ?_ ?_
  · rintro _ _ ⟨t, h, rfl⟩
    exact h.goes
  · rintro _ _ (h | ⟨t, h, rfl⟩)
    · exact h.goes
    · exact h

theorem runReplay_goes (e : Setup β ω) (file : List Char) (stopAt : Nat) :
    Triple (·.history = []) (runReplay e file stopAt) (fun _ s => Goes e (.replay file) .starting s.history)
      (fun _ s => Goes e (.replay file) .starting s.history) := by
  have clear : Triple (·.history = []) (note (.stopCleared : Event β ω))
      (fun _ => Stands e (.replay file) (Task.cleared e (.replay file)))
      (fun _ s => Goes e (.replay file) .starting s.history) := fun s h => (Stands.start h).note .stopCleared rfl
  refine clear.bind fun _ => ?_
  cases parsed : parseLog e.registry e.config.dbNodes e.config.extraNodes e.dcMap file with
  | error exc => exact Triple.throw fun _ h => h.goes
  | ok commands =>
    have place : Task.cleared e (.replay file) = .replaying commands := by
      simp only [Task.cleared, parsed]
    rw [place]
    have opens : Triple (Stands e (.replay file) (.replaying commands)) (openLog : EngineM β ω Unit)
        (fun _ => Stands e (.replay file) (.replaying commands)) (fun _ s => Goes e (.replay file) .starting s.history) :=
      fun s h => h.congr rfl
    exact opens.bind fun _ => Triple.ensuring (replayCommands_goes commands stopAt)

/-- The thread of either mode goes as it can. -/
theorem ThreadRun.goes {history : List (Event β ω)} (run : ThreadRun e task history) : Goes e task .starting history := by
  have whole : ∀ {task : Task} {m : EngineM β ω Unit} {s : FaultEngine β ω}, s.history = [] →
      Triple (·.history = []) m (fun _ s => Goes e task .starting s.history)
        (fun _ s => Goes e task .starting s.history) →
      Goes e task .starting (m.exec s).2.history := by
    intro task m s h goes
    have body := goes s h
    rcases ran : m.exec s with ⟨exc | _, t⟩ <;> rw [ran] at body <;> exact body
  cases run with
  | random stopAt world clock => exact whole rfl (runRandom_goes e stopAt)
  | replay file stopAt world clock => exact whole rfl (runReplay_goes e file stopAt)

end Runs

/-! ## When the stop is not lost -/

/-- Once the stop event is set, no fault begins, if the thread is then past its `clear()` and has no
fault of its cycle, and no command it has polled for, still to begin. -/
theorem noFaultStarts_of_quiet (e : Setup β ω) (task : Task) (moments before after : List (Moment β ω))
    (run : Interleaving e task moments) (stopped : moments = before ++ .stopped :: after)
    (quiet : Quiet (stand e task (stepsOf before))) : NoFaultStarts after := by
  have goes := run.ran.goes
  have seen := run.answered
  rw [stopped] at seen
  rw [stopped, stepsOf_append, goes_append] at goes
  exact Goes.noFaultStarts goes.2 quiet (answered_stopped seen)

/-- A class that is neither healable nor destructive. -/
def pokeClass : ActionClass Unit Unit where
  name := "poke"
  init _ _ _ _ _ := .ok (.custom ())
  execute := Method.pass
  ordinal _ := 0
  serialize _ := ""
  deserialize _ _ _ _ := .ok (.custom ())

/-- The engine over that class alone, with two parallel faults in a cycle. -/
def pokeSetup : Setup Unit Unit where
  config := { faultTypes := ["poke"] }
  registry := Dict.empty.set "poke" pokeClass
  dcMap := Dict.empty

/-- The history of that engine, its run ending after the active wait of its first cycle. -/
@[irreducible] def pokeHistory : List (Event Unit Unit) :=
  ((runRandom pokeSetup 1).exec (.fresh ⟨id, ()⟩ fun _ => ⟨2024, 5, 17, 9, 30, 0, 0⟩)).2.history

/-- The run up to its `k`-th step. -/
def pokeBefore (k : Nat) : List (Moment Unit Unit) := (pokeHistory.take k).map .step

/-- The run from there. -/
def pokeAfter (k : Nat) : List (Moment Unit Unit) := (pokeHistory.drop k).map .step

theorem stepsOf_map_step (l : List (Event β ω)) : stepsOf (l.map .step) = l := by
  induction l with
  | nil => rfl
  | cons event l ih => rw [List.map_cons, stepsOf_cons, ih]

theorem poke_interleaving (k : Nat) (seen : answered false (pokeBefore k ++ .stopped :: pokeAfter k) = true) :
    Interleaving pokeSetup .random (pokeBefore k ++ .stopped :: pokeAfter k) := by
  refine ⟨?_, seen⟩
  have steps : stepsOf (pokeBefore k ++ .stopped :: pokeAfter k) = pokeHistory := by
    have after : stepsOf (.stopped :: pokeAfter k) = stepsOf (pokeAfter k) := rfl
    rw [stepsOf_append, after, pokeBefore, pokeAfter, stepsOf_map_step, stepsOf_map_step, List.take_append_drop]
  rw [steps, pokeHistory]
  exact .random 1 _ _

theorem poke_started : ∃ event ∈ pokeHistory.drop 8, (match event with
    | .action .started a _ => a.cls.name == "poke"
    | _ => false) = true := by
  rw [← List.any_eq_true]
  decide +kernel

/-- The second fault of the cycle begins after a stop that comes in the wait before it. -/
theorem poke_fault_starts :
    ¬ ∀ task moments before after, Interleaving pokeSetup task moments → moments = before ++ .stopped :: after →
      NoFaultStarts after := by
  intro obeyed
  have none := obeyed _ _ (pokeBefore 8) (pokeAfter 8) (poke_interleaving 8 (by decide +kernel)) rfl
  obtain ⟨event, among, named⟩ := poke_started
  have among : .step event ∈ pokeAfter 8 := List.mem_map_of_mem among
  split at named
  · rename_i a raised
    rw [none _ _ among] at named
    exact absurd named (by decide)
  · cases named

/-- The stop comes while the second and last fault of the cycle is being executed. -/
theorem poke_quiet : NoFaultStarts (pokeAfter 12) := by
  have standing : (match stand pokeSetup .random (stepsOf (pokeBefore 12)) with
      | .injecting 0 0 => true
      | _ => false) = true := by
    decide +kernel
  refine noFaultStarts_of_quiet pokeSetup .random _ (pokeBefore 12) (pokeAfter 12)
    (poke_interleaving 12 (by decide +kernel)) rfl ?_
  split at standing
  · rename_i place
    rw [place]
    exact ⟨rfl, rfl⟩
  · cases standing

end FaultEngine

end FaultStorm
