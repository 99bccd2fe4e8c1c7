import FaultStorm.Faults.Engine

/-!
# What each engine method does

One equation for each method that never raises. The frame is in the equation: `wrote`
touches the log and the clock, `ran` moreover the world and the history, `paused` moreover
the ordinal counter.
-/

namespace FaultStorm.FaultEngine

open Python

variable {β ω : Type}

/-- The engine after `_write_action`. -/
def wrote (a : FaultAction β ω) (healing : Bool) (s : FaultEngine β ω) : FaultEngine β ω :=
  if s.logOpen then
    { s with
      clock := fun k => s.clock (k + 1)
      scenario := s.scenario ++ [actionLine (s.clock 0) a healing] }
  else s

section Wrote

variable (a : FaultAction β ω) (healing : Bool) (s : FaultEngine β ω)

@[simp] theorem wrote_world : (s.wrote a healing).world = s.world := by
  unfold wrote; split <;> rfl

@[simp] theorem wrote_history : (s.wrote a healing).history = s.history := by
  unfold wrote; split <;> rfl

@[simp] theorem wrote_activeFaults : (s.wrote a healing).activeFaults = s.activeFaults := by
  unfold wrote; split <;> rfl

@[simp] theorem wrote_nextOrdinal : (s.wrote a healing).nextOrdinal = s.nextOrdinal := by
  unfold wrote; split <;> rfl

@[simp] theorem wrote_destructiveCount : (s.wrote a healing).destructiveCount = s.destructiveCount := by
  unfold wrote; split <;> rfl

@[simp] theorem wrote_logOpen : (s.wrote a healing).logOpen = s.logOpen := by
  unfold wrote; split <;> rfl

theorem exec_writeAction : (writeAction a healing).exec s = (.ok (), s.wrote a healing) := by
  unfold writeAction wrote
  rw [Proc.exec_bind_ok (Proc.exec_get s)]
  by_cases isOpen : s.logOpen
  · rw [if_pos isOpen, if_pos isOpen]
    rfl
  · rw [if_neg isOpen, if_neg isOpen]
    rfl

end Wrote

@[simp] theorem exec_note (event : Event β ω) (s : FaultEngine β ω) :
    (note event).exec s = (.ok (), { s with history := s.history ++ [event] }) := rfl

@[simp] theorem exec_draw {α : Type} (d : Random.Draw α) (s : FaultEngine β ω) :
    (draw (β := β) d).exec s = ((d.exec s.world.draws).1,
      { s with world := { s.world with draws := (d.exec s.world.draws).2 } }) := rfl

@[simp] theorem exec_getNextOrdinal (s : FaultEngine β ω) :
    getNextOrdinal.exec s = (.ok (s.nextOrdinal + 1), { s with nextOrdinal := s.nextOrdinal + 1 }) := rfl

@[simp] theorem exec_callMethod (a : FaultAction β ω) (method : Method β ω) (s : FaultEngine β ω) :
    (callMethod a method).exec s =
      (.ok ((a.call method s.world).1, (a.call method s.world).2.1),
        { s with world := (a.call method s.world).2.2 }) := rfl

/-- The engine after `_open_log`. -/
def opened (s : FaultEngine β ω) : FaultEngine β ω :=
  { s with clock := fun k => s.clock (k + 1), logOpen := true, scenario := headerLines (s.clock 0) }

theorem exec_openLog (s : FaultEngine β ω) : openLog.exec s = (.ok (), s.opened) := rfl

/-- The two history entries of an execution. -/
def execution (a a' : FaultAction β ω) (raised : Option PyExc) : List (Event β ω) :=
  [.action .started a none, .action .finished a' raised]

/-- The action as `execute()` leaves it in this state. -/
def executed (a : FaultAction β ω) (s : FaultEngine β ω) : FaultAction β ω :=
  (a.call a.cls.execute s.world).2.1

/-- The engine after `_log_and_execute`. -/
def ran (a : FaultAction β ω) (s : FaultEngine β ω) : FaultEngine β ω :=
  { s.wrote a false with
    world := (a.call a.cls.execute s.world).2.2
    history := s.history ++ execution a (s.executed a) (a.call a.cls.execute s.world).1 }

@[simp] theorem executed_id (a : FaultAction β ω) (s : FaultEngine β ω) : (s.executed a).id = a.id := rfl

@[simp] theorem executed_cls (a : FaultAction β ω) (s : FaultEngine β ω) : (s.executed a).cls = a.cls := rfl

theorem exec_logAndExecute (a : FaultAction β ω) (s : FaultEngine β ω) :
    (logAndExecute a).exec s = (.ok (s.executed a), s.ran a) := by
  unfold logAndExecute
  rw [Proc.exec_bind_ok (exec_writeAction a false s), Proc.exec_bind_ok (exec_note _ _),
    Proc.exec_bind_ok (exec_callMethod ..)]
  simp [ran, executed, execution]
  rfl

section Ran

variable (a : FaultAction β ω) (s : FaultEngine β ω)

@[simp] theorem ran_activeFaults : (s.ran a).activeFaults = s.activeFaults :=
  wrote_activeFaults a false s

@[simp] theorem ran_nextOrdinal : (s.ran a).nextOrdinal = s.nextOrdinal :=
  wrote_nextOrdinal a false s

@[simp] theorem ran_destructiveCount : (s.ran a).destructiveCount = s.destructiveCount :=
  wrote_destructiveCount a false s

@[simp] theorem ran_logOpen : (s.ran a).logOpen = s.logOpen :=
  wrote_logOpen a false s

theorem ran_history : (s.ran a).history =
    s.history ++ execution a (s.executed a) (a.call a.cls.execute s.world).1 := rfl

end Ran

/-- The engine after a wait of the engine's own. -/
def paused (e : Setup β ω) (seconds : Int) (s : FaultEngine β ω) : FaultEngine β ω :=
  ran (waitAction e (s.nextOrdinal + 1) seconds) { s with nextOrdinal := s.nextOrdinal + 1 }

theorem exec_pause (e : Setup β ω) (seconds : Int) (s : FaultEngine β ω) :
    (pause e seconds).exec s = (.ok (), s.paused e seconds) := by
  unfold pause
  rw [Proc.exec_bind_ok (exec_getNextOrdinal s), Proc.exec_bind_ok (exec_logAndExecute ..)]
  rfl

/-- A random wait in a non-empty range is a wait. -/
theorem exec_randomPause (e : Setup β ω)
    (range : e.config.complexFaultMinWait ≤ e.config.complexFaultMaxWait) (s : FaultEngine β ω) :
    ∃ seconds draws, (randomPause e).exec s =
      (.ok (), paused e seconds { s with world := { s.world with draws } }) := by
  obtain ⟨seconds, _, _, run⟩ := Random.exec_randint range s.world.draws
  refine ⟨seconds, fun k => s.world.draws (k + 1), ?_⟩
  unfold randomPause
  rw [Proc.exec_bind_ok (a := seconds)]
  · exact exec_pause ..
  · rw [exec_draw, run]

/-- The engine when `_inject_complex_fault` hands its new action to `_log_and_execute`. -/
def injecting (a : FaultAction β ω) (s : FaultEngine β ω) : FaultEngine β ω :=
  { s with
    nextOrdinal := s.nextOrdinal + 1
    history := s.history ++ [.action .injected a none]
    destructiveCount := if a.cls.destructive then s.destructiveCount + 1 else s.destructiveCount }

/-- The engine after the injection of the action. -/
def injected (a : FaultAction β ω) (s : FaultEngine β ω) : FaultEngine β ω :=
  { (s.injecting a).ran a with activeFaults := s.activeFaults ++ [(s.injecting a).executed a] }

/-- The action `_inject_complex_fault` constructs from these attributes. -/
def newAction (cls : ActionClass β ω) (self : ActionObj β) (s : FaultEngine β ω) : FaultAction β ω :=
  ⟨s.nextOrdinal + 1, cls, self⟩

theorem exec_injectFault {e : Setup β ω} {cls : ActionClass β ω} {target : Option String}
    {s : FaultEngine β ω} {self : ActionObj β}
    (built : construct e cls target (s.nextOrdinal + 1) = .ok self) :
    (injectFault e cls target).exec s = (.ok (), s.injected (s.newAction cls self)) := by
  unfold injectFault
  rw [Proc.exec_bind_ok (exec_getNextOrdinal s)]
  simp only [built]
  rw [Proc.exec_bind_ok (exec_note _ _)]
  by_cases destructive : cls.destructive
  · simp only [destructive, if_true]
    rw [Proc.exec_bind_ok (Proc.exec_modify _ _), Proc.exec_bind_ok (exec_logAndExecute ..)]
    simp [injected, injecting, newAction, destructive]
  · simp only [destructive, Bool.false_eq_true, if_false]
    rw [Proc.exec_bind_ok (exec_logAndExecute ..)]
    simp [injected, injecting, newAction, destructive]

/-- A constructor that raises uses an ordinal up, and nothing else. -/
theorem exec_injectFault_refused {e : Setup β ω} {cls : ActionClass β ω} {target : Option String}
    {s : FaultEngine β ω} {exc : PyExc}
    (refused : construct e cls target (s.nextOrdinal + 1) = .error exc) :
    (injectFault e cls target).exec s = (.error exc, { s with nextOrdinal := s.nextOrdinal + 1 }) := by
  unfold injectFault
  rw [Proc.exec_bind_ok (exec_getNextOrdinal s)]
  simp only [refused]
  rfl

/-- The two history entries of a heal. -/
def healingOf (a a' : FaultAction β ω) (raised : Option PyExc) : List (Event β ω) :=
  [.action .healing a none, .action .healed a' raised]

/-- The engine after the call of `heal()` in `_heal_all_active`, and its accounting. -/
def mended (a : FaultAction β ω) (s : FaultEngine β ω) : FaultEngine β ω :=
  update (a.call a.cls.heal s.world).2.1 { s with
    world := (a.call a.cls.heal s.world).2.2
    history := s.history ++ healingOf a (a.call a.cls.heal s.world).2.1 (a.call a.cls.heal s.world).1
    destructiveCount :=
      if (a.call a.cls.heal s.world).1.isNone && a.cls.destructive then s.destructiveCount - 1
      else s.destructiveCount }

/-- The loop body of `_heal_all_active` heals; if the action is healable it then writes the
heal line and waits. -/
theorem exec_healFault (e : Setup β ω) (a : FaultAction β ω) (s : FaultEngine β ω) :
    (healFault e a).exec s =
      if a.cls.healable then
        (randomPause e).exec (wrote (a.call a.cls.heal s.world).2.1 true (s.mended a))
      else (.ok (), s.mended a) := by
  unfold healFault mended healingOf
  rw [Proc.exec_bind_ok (exec_note _ _), Proc.exec_bind_ok (exec_callMethod ..),
    Proc.exec_bind_ok (Proc.exec_modify ..), Proc.exec_bind_ok (exec_note _ _)]
  by_cases counted : (a.call a.cls.heal s.world).1.isNone && a.cls.destructive
  · by_cases healable : a.cls.healable
    · simp [counted, healable, exec_writeAction, Proc.exec_bind, update]
    · simp [counted, healable, update]
  · by_cases healable : a.cls.healable
    · simp [counted, healable, exec_writeAction, Proc.exec_bind, update]
    · simp [counted, healable, update]

end FaultStorm.FaultEngine
