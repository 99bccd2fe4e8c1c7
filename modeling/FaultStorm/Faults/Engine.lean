import FaultStorm.Faults.ScenarioLog

/-!
# FaultEngine

The random mode, the replay mode and the clean-up of the engine. The stop event is seen
through its `is_set()` calls only: a run is given the number of calls that answer `False`
before the first that answers `True`, and every stop point of a run, whether `stop()` or
the duration timer, is such a number. `history` is a ghost field: the calls the engine has
made, in order, and where `_inject_complex_fault` begins and ends its loop.
-/

namespace FaultStorm

open Python

variable {β ω : Type}

/-- What the engine does to an action object. -/
inductive Stage
  | injected | started | finished | healing | healed
  deriving DecidableEq, Repr

/-- An entry of the engine's history. -/
inductive Event (β ω : Type)
  | action (stage : Stage) (a : FaultAction β ω) (raised : Option PyExc)
  | stopCleared
  | stopChecked (answer : Bool)
  | complexFault (faultCount : Nat)
  | complexFaultDone

/-- What an engine is constructed from. -/
structure Setup (β ω : Type) where
  config : TestConfig
  registry : FaultRegistry β ω
  dcMap : DcMap

/-- The state of a `FaultEngine`, and of what it acts on. -/
structure FaultEngine (β ω : Type) where
  world : World ω
  clock : Nat → DateTime
  logOpen : Bool
  scenario : List (List Char)
  activeFaults : List (FaultAction β ω)
  nextOrdinal : Nat
  destructiveCount : Int
  history : List (Event β ω)

/-- `FaultEngine.__init__`. -/
def FaultEngine.fresh (world : World ω) (clock : Nat → DateTime) : FaultEngine β ω where
  world
  clock
  logOpen := false
  scenario := []
  activeFaults := []
  nextOrdinal := 0
  destructiveCount := 0
  history := []

/-- A method of the engine. -/
abbrev EngineM (β ω α : Type) := Proc (FaultEngine β ω) PyExc α

namespace FaultEngine

/-- Record a call. -/
def note (event : Event β ω) : EngineM β ω Unit :=
  modify fun s => { s with history := s.history ++ [event] }

/-- A call of the `random` module. -/
def draw {α : Type} (d : Random.Draw α) : EngineM β ω α :=
  Proc.focus (·.world.draws) (fun s draws => { s with world := { s.world with draws } }) d

/-- `_get_next_ordinal`. -/
def getNextOrdinal : EngineM β ω Nat := do
  modify fun s => { s with nextOrdinal := s.nextOrdinal + 1 }
  return (← get).nextOrdinal

/-! ## Scenario log -/

/-- `datetime.now()`. -/
def now : EngineM β ω DateTime := do
  let s ← get
  set { s with clock := fun k => s.clock (k + 1) }
  return s.clock 0

/-- `_open_log`. -/
def openLog : EngineM β ω Unit := do
  let t ← now
  modify fun s => { s with logOpen := true, scenario := headerLines t }

/-- `_close_log`. -/
def closeLog (s : FaultEngine β ω) : FaultEngine β ω := { s with logOpen := false }

/-- `_write_action`. -/
def writeAction (a : FaultAction β ω) (healing : Bool) : EngineM β ω Unit := do
  if (← get).logOpen then
    let t ← now
    modify fun s => { s with scenario := s.scenario ++ [actionLine t a healing] }

/-! ## Running actions -/

/-- Call a method of an action: the exception it raised, if any, and the object it leaves. -/
def callMethod (a : FaultAction β ω) (method : Method β ω) :
    EngineM β ω (Option PyExc × FaultAction β ω) := do
  let s ← get
  let (raised, a, world) := a.call method s.world
  set { s with world }
  return (raised, a)

/-- `_log_and_execute`, returning the action as `execute()` left it. -/
def logAndExecute (a : FaultAction β ω) : EngineM β ω (FaultAction β ω) := do
  writeAction a false
  note (.action .started a none)
  let (raised, a) ← callMethod a a.cls.execute
  note (.action .finished a raised)
  return a

/-- `WaitAction(db, extra, ordinal, dc_map, seconds)`. -/
def waitAction (e : Setup β ω) (ordinal : Nat) (seconds : Int) : FaultAction β ω where
  id := ordinal
  cls := WaitAction.cls
  self := .wait { dbNodes := e.config.dbNodes, extraNodes := e.config.extraNodes, ordinal,
                  dcMap := e.dcMap, seconds }

/-- Construct a wait with the next ordinal, log it and execute it. -/
def pause (e : Setup β ω) (seconds : Int) : EngineM β ω Unit := do
  let ordinal ← getNextOrdinal
  let _ ← logAndExecute (waitAction e ordinal seconds)

/-- A wait of random length in the configured range. -/
def randomPause (e : Setup β ω) : EngineM β ω Unit := do
  let seconds ← draw (Random.randint e.config.complexFaultMinWait e.config.complexFaultMaxWait)
  pause e seconds

/-- `_filter_by_destructive_limit`. -/
def filterByDestructiveLimit (e : Setup β ω) (classes : List (ActionClass β ω)) :
    EngineM β ω (List (ActionClass β ω)) := do
  let s ← get
  match e.config.maxDestructiveActions with
  | some limit =>
    if limit ≤ s.destructiveCount then return classes.filter (! ·.destructive) else return classes
  | none => return classes

/-- The constructor call of `_inject_complex_fault` for a class and an ordinal. -/
def construct (e : Setup β ω) (cls : ActionClass β ω) (target : Option String) (ordinal : Nat) :
    Except PyExc (ActionObj β) :=
  let kwargs := e.config.actionParams.getD cls.name []
  let kwargs := match target with
    | some node => kwargs.setNode node
    | none => kwargs
  cls.init e.config.dbNodes e.config.extraNodes ordinal e.dcMap kwargs

/-- One fault of `_inject_complex_fault`, its class being chosen. -/
def injectFault (e : Setup β ω) (cls : ActionClass β ω) (target : Option String) : EngineM β ω Unit := do
  let ordinal ← getNextOrdinal
  match construct e cls target ordinal with
  | .error exc => throw exc
  | .ok self =>
    let action : FaultAction β ω := ⟨ordinal, cls, self⟩
    note (.action .injected action none)
    if cls.destructive then
      modify fun s => { s with destructiveCount := s.destructiveCount + 1 }
    let action ← logAndExecute action
    modify fun s => { s with activeFaults := s.activeFaults ++ [action] }

/-- The loop of `_inject_complex_fault` over the faults still to inject. -/
def injectFaults (e : Setup β ω) (pool : List (ActionClass β ω)) (target : Option String) :
    Nat → EngineM β ω Unit
  | 0 => note .complexFaultDone
  | remaining + 1 => do
    let available ← filterByDestructiveLimit e pool
    if available.isEmpty then note .complexFaultDone
    else
      let cls ← draw (Random.choice available)
      injectFault e cls target
      if 0 < remaining then
        randomPause e
      injectFaults e pool target remaining

/-- `_inject_complex_fault`. -/
def injectComplexFault (e : Setup β ω) (faultClasses complexClasses : List (ActionClass β ω)) :
    EngineM β ω Unit := do
  let useCombo ← (if complexClasses.isEmpty then pure false else draw Random.coin : EngineM β ω Bool)
  if useCombo then
    let faultCount ← draw (Random.randint 1 3)
    let targetNode ← draw (Random.choice e.config.dbNodes)
    note (.complexFault faultCount.toNat)
    injectFaults e complexClasses (some targetNode) faultCount.toNat
  else
    note (.complexFault 1)
    injectFaults e faultClasses none 1

/-- The object in every list that holds it, after a method changed it. -/
def update (a : FaultAction β ω) (s : FaultEngine β ω) : FaultEngine β ω :=
  { s with activeFaults := s.activeFaults.map fun b => if b.id = a.id then a else b }

/-- The body of the loop of `_heal_all_active`. -/
def healFault (e : Setup β ω) (a : FaultAction β ω) : EngineM β ω Unit := do
  note (.action .healing a none)
  let (raised, a) ← callMethod a a.cls.heal
  modify (update a)
  note (.action .healed a raised)
  if raised.isNone && a.cls.destructive then
    modify fun s => { s with destructiveCount := s.destructiveCount - 1 }
  if a.cls.healable then
    writeAction a true
    randomPause e

/-- `_heal_all_active`. -/
def healAllActive (e : Setup β ω) : EngineM β ω Unit := do
  let s ← get
  let faults ← draw (Random.shuffle s.activeFaults)
  Proc.forEach faults (healFault e)
  modify fun s => { s with activeFaults := [] }

/-! ## Random mode -/

/-- The parallel injections of one cycle, `remaining` of them still to come. -/
def injectParallel (e : Setup β ω) (faultClasses complexClasses : List (ActionClass β ω)) :
    Nat → EngineM β ω Unit
  | 0 => pure ()
  | remaining + 1 => do
    injectComplexFault e faultClasses complexClasses
    if 0 < remaining then
      randomPause e
    injectParallel e faultClasses complexClasses remaining

/-- The injections and the active wait of one cycle. -/
def activePhase (e : Setup β ω) (faultClasses complexClasses : List (ActionClass β ω)) :
    EngineM β ω Unit := do
  note (.stopChecked false)
  injectParallel e faultClasses complexClasses e.config.parallelFaultsCount.toNat
  pause e e.config.faultActiveDuration

/-- `_do_random_loop`, the stop event being seen after `stopAt` calls of `is_set()`. -/
def doRandomLoop (e : Setup β ω) (faultClasses complexClasses : List (ActionClass β ω)) :
    Nat → EngineM β ω Unit
  | 0 => note (.stopChecked true)
  | 1 => do
    activePhase e faultClasses complexClasses
    note (.stopChecked true)
  | stopAt + 2 => do
    activePhase e faultClasses complexClasses
    note (.stopChecked false)
    healAllActive e
    pause e e.config.faultPauseDuration
    doRandomLoop e faultClasses complexClasses stopAt

/-- `run_random`. -/
def runRandom (e : Setup β ω) (stopAt : Nat) : EngineM β ω Unit := do
  note .stopCleared
  match e.registry.getClasses (some e.config.faultTypes) with
  | .error exc => throw exc
  | .ok faultClasses =>
    let complexClasses :=
      if e.config.complexFaultsEnabled then faultClasses.filter (·.hostTargetable) else []
    openLog
    Proc.ensuring (doRandomLoop e faultClasses complexClasses stopAt) closeLog

/-! ## Replay mode -/

/-- One command of `run_replay`. -/
def replayCommand (command : FaultAction β ω × Bool) : EngineM β ω Unit := do
  let (action, isHeal) := command
  if isHeal then
    note (.action .healing action none)
    let (raised, action) ← callMethod action action.cls.heal
    note (.action .healed action raised)
    writeAction action true
  else
    let _ ← logAndExecute action

/-- The loop of `run_replay`, the stop event being seen after `stopAt` calls of `is_set()`. -/
def replayCommands : List (FaultAction β ω × Bool) → Nat → EngineM β ω Unit
  | [], _ => pure ()
  | _ :: _, 0 => note (.stopChecked true)
  | command :: rest, stopAt + 1 => do
    note (.stopChecked false)
    replayCommand command
    replayCommands rest stopAt

/-- `run_replay` of the log with the text `file`. -/
def runReplay (e : Setup β ω) (file : List Char) (stopAt : Nat) : EngineM β ω Unit := do
  note .stopCleared
  match parseLog e.registry e.config.dbNodes e.config.extraNodes e.dcMap file with
  | .error exc => throw exc
  | .ok commands =>
    openLog
    Proc.ensuring (replayCommands commands stopAt) closeLog

/-- `heal_all`. -/
def healAll (e : Setup β ω) : EngineM β ω Unit := healAllActive e

end FaultEngine

end FaultStorm
