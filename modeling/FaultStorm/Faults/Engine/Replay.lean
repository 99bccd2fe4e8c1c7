import FaultStorm.Faults.Builtin
import FaultStorm.Faults.Engine.Steps

/-!
# What a replay leaves behind

A replay calls `execute` and `heal` as the lines of its log say, up to the point where the
stop event is seen, and tracks nothing; `heal_all` then has nothing to heal. So a healable
action is healed exactly if its heal line was reached.
-/

namespace FaultStorm

open Python

variable {β ω : Type}

/-- The calls of `execute()` and, marked `true`, of `heal()`. -/
def callsOf (history : List (Event β ω)) : List (FaultAction β ω × Bool) :=
  history.filterMap fun
    | .action .started a _ => some (a, false)
    | .action .healing a _ => some (a, true)
    | _ => none

/-- The objects stand for the same fault: one name, one ordinal. -/
def SameFault (a b : FaultAction β ω) : Prop := b.cls.name = a.cls.name ∧ b.ordinal = a.ordinal

/-- Every healable action whose `execute()` was started has had `heal()` called for it
afterwards. -/
def LeavesNoFault (history : List (Event β ω)) : Prop :=
  ∀ before a raised after, history = before ++ .action .started a raised :: after → a.cls.healable = true →
    ∃ b raised', .action .healing b raised' ∈ after ∧ SameFault a b

/-- Every healable line without a heal mark that is among the first `stopAt` is followed by a
heal line of its name and ordinal that is among them too. -/
def HealLinesReached (commands : List (FaultAction β ω × Bool)) (stopAt : Nat) : Prop :=
  ∀ i a, commands[i]? = some (a, false) → i < stopAt → a.cls.healable = true →
    ∃ j b, i < j ∧ j < stopAt ∧ commands[j]? = some (b, true) ∧ SameFault a b

theorem callsOf_append (h k : List (Event β ω)) : callsOf (h ++ k) = callsOf h ++ callsOf k :=
  List.filterMap_append

theorem callsOf_healing {a : FaultAction β ω} {history : List (Event β ω)} :
    (a, true) ∈ callsOf history ↔ ∃ raised, .action .healing a raised ∈ history := by
  rw [callsOf, List.mem_filterMap]
  constructor
  · rintro ⟨event, member, call⟩
    split at call <;> simp_all
    exact ⟨_, member⟩
  · rintro ⟨raised, member⟩
    exact ⟨_, member, rfl⟩

/-- What a history leaves behind is a matter of its calls. -/
theorem leavesNoFault_iff_calls {history : List (Event β ω)} :
    LeavesNoFault history ↔ ∀ before a after, callsOf history = before ++ (a, false) :: after →
      a.cls.healable = true → ∃ b, (b, true) ∈ after ∧ SameFault a b := by
  constructor
  · intro healed before a after split healable
    obtain ⟨early, rest, rfl, rfl, later⟩ := List.filterMap_eq_append_iff.mp split
    obtain ⟨skipped, event, late, rfl, _, call, rfl⟩ := List.filterMap_eq_cons_iff.mp later
    have started : ∃ raised, event = .action .started a raised := by
      split at call <;> simp_all
    obtain ⟨raised, rfl⟩ := started
    obtain ⟨b, raised', member, same⟩ := healed (early ++ skipped) a raised late (by simp) healable
    exact ⟨b, callsOf_healing.mpr ⟨raised', member⟩, same⟩
  · intro healed before a raised after split healable
    have calls : callsOf history = callsOf before ++ (a, false) :: callsOf after := by
      rw [split, callsOf_append]
      rfl
    obtain ⟨b, member, same⟩ := healed _ a _ calls healable
    obtain ⟨raised', member⟩ := callsOf_healing.mp member
    exact ⟨b, raised', member, same⟩

/-- The heal lines of the first `stopAt` lines, in terms of these lines. -/
theorem healLinesReached_iff {commands : List (FaultAction β ω × Bool)} {stopAt : Nat} :
    HealLinesReached commands stopAt ↔ ∀ before a after, commands.take stopAt = before ++ (a, false) :: after →
      a.cls.healable = true → ∃ b, (b, true) ∈ after ∧ SameFault a b := by
  have lookup : ∀ i, i < stopAt → (commands.take stopAt)[i]? = commands[i]? := fun i below =>
    List.getElem?_take_of_lt below
  constructor
  · intro reached before a after split healable
    have at_i : (commands.take stopAt)[before.length]? = some (a, false) := by rw [split]; simp
    have below : before.length < stopAt := by
      have inside := (List.getElem?_eq_some_iff.mp at_i).1
      rw [List.length_take] at inside
      omega
    obtain ⟨j, b, later, reachedJ, at_j, same⟩ := reached before.length a (lookup _ below ▸ at_i) below healable
    refine ⟨b, ?_, same⟩
    rw [← lookup j reachedJ, split, List.getElem?_append_right (by omega)] at at_j
    obtain ⟨k, hk⟩ : ∃ k, j - before.length = k + 1 := ⟨j - before.length - 1, by omega⟩
    rw [hk, List.getElem?_cons_succ] at at_j
    exact List.mem_of_getElem? at_j
  · intro healed i a at_i below healable
    rw [← lookup i below] at at_i
    obtain ⟨inside, eq⟩ := List.getElem?_eq_some_iff.mp at_i
    have split : commands.take stopAt =
        (commands.take stopAt).take i ++ (a, false) :: (commands.take stopAt).drop (i + 1) := by
      rw [← eq, List.getElem_cons_drop, List.take_append_drop]
    obtain ⟨b, member, same⟩ := healed _ a _ split healable
    obtain ⟨k, at_k⟩ := List.mem_iff_getElem?.mp member
    rw [List.getElem?_drop] at at_k
    have below' : i + 1 + k < stopAt := by
      have inside := (List.getElem?_eq_some_iff.mp at_k).1
      rw [List.length_take] at inside
      omega
    exact ⟨i + 1 + k, b, by omega, below', lookup _ below' ▸ at_k, same⟩

namespace FaultEngine

/-- One command makes its call, tracks nothing and never raises. -/
theorem exec_replayCommand (command : FaultAction β ω × Bool) (s : FaultEngine β ω) :
    ∃ t, (replayCommand command).exec s = (.ok (), t) ∧
      callsOf t.history = callsOf s.history ++ [command] ∧ t.activeFaults = s.activeFaults := by
  obtain ⟨a, isHeal⟩ := command
  unfold replayCommand
  cases isHeal with
  | true =>
    simp only [if_true]
    rw [Proc.exec_bind_ok (exec_note _ _), Proc.exec_bind_ok (exec_callMethod ..),
      Proc.exec_bind_ok (exec_note _ _), exec_writeAction]
    refine ⟨_, rfl, ?_, ?_⟩
    · simp [callsOf]
    · simp
  | false =>
    simp only [Bool.false_eq_true, if_false]
    rw [Proc.exec_bind_ok (exec_logAndExecute a s)]
    refine ⟨_, rfl, ?_, ran_activeFaults a s⟩
    rw [ran_history, callsOf_append]
    rfl

/-- The loop makes the calls of the lines before the stop. -/
theorem exec_replayCommands (commands : List (FaultAction β ω × Bool)) (stopAt : Nat)
    (s : FaultEngine β ω) :
    ∃ t, (replayCommands commands stopAt).exec s = (.ok (), t) ∧
      callsOf t.history = callsOf s.history ++ commands.take stopAt ∧ t.activeFaults = s.activeFaults := by
  induction commands generalizing stopAt s with
  | nil => exact ⟨s, rfl, by simp, rfl⟩
  | cons command rest ih =>
    cases stopAt with
    | zero => exact ⟨_, rfl, by simp [callsOf], rfl⟩
    | succ stopAt =>
      obtain ⟨t, run, calls, active⟩ :=
        exec_replayCommand command { s with history := s.history ++ [.stopChecked false] }
      obtain ⟨u, run', calls', active'⟩ := ih stopAt t
      refine ⟨u, ?_, ?_, active'.trans active⟩
      · rw [replayCommands, Proc.exec_bind_ok (exec_note _ _), Proc.exec_bind_ok run, run']
      · have checked : callsOf (s.history ++ [.stopChecked false]) = callsOf s.history := by
          rw [callsOf_append]
          exact List.append_nil _
        rw [calls', calls, checked, List.take_succ_cons, List.append_assoc]
        rfl

/-- A replay of an accepted log makes the calls of the lines before the stop, and no fault is
active afterwards. -/
theorem exec_runReplay (e : Setup β ω) {file : List Char} {commands : List (FaultAction β ω × Bool)}
    (accepted : parseLog e.registry e.config.dbNodes e.config.extraNodes e.dcMap file = .ok commands)
    (stopAt : Nat) (world : World ω) (clock : Nat → DateTime) :
    ∃ t, (runReplay e file stopAt).exec (.fresh world clock) = (.ok (), t) ∧
      callsOf t.history = commands.take stopAt ∧ t.activeFaults = [] := by
  obtain ⟨t, run, calls, active⟩ := exec_replayCommands commands stopAt
    (opened { (FaultEngine.fresh world clock : FaultEngine β ω) with history := [.stopCleared] })
  refine ⟨closeLog t, ?_, calls, active⟩
  unfold runReplay
  rw [Proc.exec_bind_ok (exec_note _ _)]
  simp only [accepted]
  rw [Proc.exec_bind_ok (exec_openLog _), Proc.exec_ensuring]
  exact congrArg (fun r => (r.1, closeLog r.2)) run

/-- With no fault active `heal_all` does nothing. -/
theorem exec_healAll_nil (e : Setup β ω) {s : FaultEngine β ω} (empty : s.activeFaults = []) :
    (healAll e).exec s = (.ok (), s) := by
  obtain ⟨world, clock, logOpen, scenario, activeFaults, nextOrdinal, destructiveCount, history⟩ := s
  cases empty
  rfl

/-- After a replay and `heal_all` no fault is left behind if and only if, for every healable
action executed, the heal line was reached as well. -/
theorem runReplay_leavesNoFault_iff (e : Setup β ω) {file : List Char}
    {commands : List (FaultAction β ω × Bool)}
    (accepted : parseLog e.registry e.config.dbNodes e.config.extraNodes e.dcMap file = .ok commands)
    (stopAt : Nat) (world world' : World ω) (clock clock' : Nat → DateTime) :
    ∃ s, (healAll e).exec { ((runReplay e file stopAt).exec (.fresh world clock)).2 with
        world := world', clock := clock' } = (.ok (), s) ∧
      (LeavesNoFault s.history ↔ HealLinesReached commands stopAt) := by
  obtain ⟨t, run, calls, active⟩ := exec_runReplay e accepted stopAt world clock
  refine ⟨{ t with world := world', clock := clock' }, ?_, ?_⟩
  · rw [run]
    exact exec_healAll_nil e active
  · rw [leavesNoFault_iff_calls, healLinesReached_iff, ← calls]

/-- The engine over two database nodes and the built-in actions. -/
def pairSetup : Setup Builtin Cluster where
  config := { dbNodes := ["pg1", "pg2"] }
  registry := defaultRegistry
  dcMap := Dict.empty

/-- The log of a run that was stopped while a partition was active. -/
def stoppedLog : List Char :=
  "# FaultStorm scenario log\n[2024-05-17T09:30:00.000] +partition_random_node 1 pg1\n".toList

/-- The action in that log. -/
def isolation : FaultAction Builtin Cluster where
  id := 0
  cls := PartitionRandomNodeAction.cls
  self := .custom (.node { dbNodes := ["pg1", "pg2"], extraNodes := [], ordinal := 1, dcMap := Dict.empty,
                           node := some "pg1" })

theorem parseLog_stoppedLog :
    parseLog pairSetup.registry pairSetup.config.dbNodes pairSetup.config.extraNodes pairSetup.dcMap
      stoppedLog = .ok [(isolation, false)] := by rfl

/-- The engine after a replay of that log to its end. -/
def stoppedReplay : FaultEngine Builtin Cluster :=
  { ((runReplay pairSetup stoppedLog 5).exec
      (.fresh ⟨id, idleCluster⟩ fun _ => ⟨2024, 5, 17, 10, 0, 0, 0⟩)).2 with
    world := ⟨id, idleCluster⟩, clock := fun _ => ⟨2024, 5, 17, 10, 5, 0, 0⟩ }

/-- The log is accepted, and after its replay and `heal_all` the partition is left behind. -/
theorem stoppedReplay_leaves_partition :
    (∃ commands, parseLog pairSetup.registry pairSetup.config.dbNodes pairSetup.config.extraNodes
        pairSetup.dcMap stoppedLog = .ok commands) ∧
      ∃ s, (healAll pairSetup).exec stoppedReplay = (.ok (), s) ∧ ¬ LeavesNoFault s.history := by
  obtain ⟨t, run, calls, active⟩ := exec_runReplay pairSetup parseLog_stoppedLog 5 ⟨id, idleCluster⟩
    fun _ => ⟨2024, 5, 17, 10, 0, 0, 0⟩
  refine ⟨⟨_, parseLog_stoppedLog⟩, stoppedReplay, exec_healAll_nil pairSetup ?_, ?_⟩
  · rw [stoppedReplay, run]
    exact active
  · rw [leavesNoFault_iff_calls]
    intro healed
    have calls : callsOf stoppedReplay.history = [] ++ (isolation, false) :: [] := by
      rw [stoppedReplay, run]
      exact calls
    obtain ⟨b, member, _⟩ := healed [] isolation [] calls rfl
    cases member

theorem stoppedReplay_leavesNoFault_iff :
    ∃ s, (healAll pairSetup).exec stoppedReplay = (.ok (), s) ∧
      (LeavesNoFault s.history ↔ HealLinesReached [(isolation, false)] 5) :=
  runReplay_leavesNoFault_iff pairSetup parseLog_stoppedLog 5 ⟨id, idleCluster⟩ ⟨id, idleCluster⟩
    (fun _ => ⟨2024, 5, 17, 10, 0, 0, 0⟩) fun _ => ⟨2024, 5, 17, 10, 5, 0, 0⟩

end FaultEngine

end FaultStorm
