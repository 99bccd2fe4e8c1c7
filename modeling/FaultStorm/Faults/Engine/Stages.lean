import FaultStorm.Faults.Engine.Invariant

/-!
# The stages of a fault

What the history says of one object, and how each step of the engine extends it.
-/

namespace FaultStorm

open Python

variable {β ω : Type}

/-- The stages the object `id` has gone through. -/
def stagesOf (id : Nat) (history : List (Event β ω)) : List Stage :=
  history.filterMap fun
    | .action stage a _ => if a.id = id then some stage else none
    | _ => none

namespace FaultEngine

theorem stagesOf_append (id : Nat) (h k : List (Event β ω)) :
    stagesOf id (h ++ k) = stagesOf id h ++ stagesOf id k :=
  List.filterMap_append

theorem mem_stagesOf {id : Nat} {stage : Stage} {history : List (Event β ω)} :
    stage ∈ stagesOf id history ↔ ∃ a raised, a.id = id ∧ .action stage a raised ∈ history := by
  constructor
  · intro member
    obtain ⟨event, among, eq⟩ := List.mem_filterMap.mp member
    cases event with
    | action stage' a raised =>
      dsimp only at eq
      by_cases same : a.id = id
      · rw [if_pos same, Option.some.injEq] at eq
        exact ⟨a, raised, same, eq ▸ among⟩
      · rw [if_neg same] at eq
        cases eq
    | stopCleared | stopChecked answer | complexFault faultCount | complexFaultDone => cases eq
  · rintro ⟨a, raised, same, among⟩
    exact List.mem_filterMap.mpr ⟨_, among, if_pos same⟩

theorem stagesOf_execution (id : Nat) (a a' : FaultAction β ω) (raised : Option PyExc) (same : a'.id = a.id) :
    stagesOf id (execution a a' raised) = if a.id = id then [.started, .finished] else [] := by
  by_cases h : a.id = id <;> simp [stagesOf, execution, same, h]

theorem stagesOf_healing (id : Nat) (a a' : FaultAction β ω) (raised : Option PyExc) (same : a'.id = a.id) :
    stagesOf id (healingOf a a' raised) = if a.id = id then [.healing, .healed] else [] := by
  by_cases h : a.id = id <;> simp [stagesOf, healingOf, same, h]

theorem stagesOf_silent (id : Nat) (h : List (Event β ω)) {event : Event β ω} (silent : Silent event) :
    stagesOf id (h ++ [event]) = stagesOf id h := by
  rw [stagesOf_append]
  cases event with
  | action stage a raised => exact absurd rfl (silent stage a raised)
  | stopCleared | stopChecked answer | complexFault faultCount | complexFaultDone => exact List.append_nil _

/-- No `heal()` has raised. -/
def NoHealRaised (history : List (Event β ω)) : Prop :=
  ∀ a raised, .action .healed a raised ∈ history → raised = none

/-- The life of a fault that has been executed and not healed. -/
def inForce : List Stage := [.injected, .started, .finished]

/-- The life of a fault that has been healed once, after its execution. -/
def healedOnce : List Stage := [.injected, .started, .finished, .healing, .healed]

theorem stagesOf_paused (e : Setup β ω) (seconds : Int) (s : FaultEngine β ω) (id : Nat) :
    stagesOf id (s.paused e seconds).history =
      stagesOf id s.history ++ if s.nextOrdinal + 1 = id then [.started, .finished] else [] := by
  rw [FaultEngine.paused, ran_history, stagesOf_append, stagesOf_execution id _ _ _ (executed_id _ _)]
  rfl

theorem stagesOf_injected (a : FaultAction β ω) (s : FaultEngine β ω) (id : Nat) :
    stagesOf id (s.injected a).history = stagesOf id s.history ++ if a.id = id then inForce else [] := by
  have injecting : stagesOf id (s.injecting a).history =
      stagesOf id s.history ++ if a.id = id then [.injected] else [] := by
    rw [FaultEngine.injecting, stagesOf_append]
    by_cases eq : a.id = id <;> simp [stagesOf, eq]
  show stagesOf id ((s.injecting a).ran a).history = _
  rw [ran_history, stagesOf_append, injecting, stagesOf_execution id _ _ _ (executed_id _ _)]
  by_cases eq : a.id = id <;> simp [eq, inForce]

theorem stagesOf_mended (a : FaultAction β ω) (s : FaultEngine β ω) (id : Nat) :
    stagesOf id (s.mended a).history =
      stagesOf id s.history ++ if a.id = id then [.healing, .healed] else [] := by
  show stagesOf id (s.history ++ healingOf a _ _) = _
  rw [stagesOf_append, stagesOf_healing id _ _ _ (FaultAction.call_id _ _ _)]

end FaultEngine

end FaultStorm
