import FaultStorm.Faults.Engine.Environment
import FaultStorm.Faults.Engine.Loop
import Mathlib.Logic.Relation

/-!
# The random mode as a state machine

`Transition` has a step for each field of `Injects` and `Heals`: which classes are injected and
where they are pointed, how long a wait is, and how the faults to be healed are gone through. So
to come along transitions is the strongest invariant there is: every run of `run_random` and of
`heal_all` keeps it, and an invariant of the machine is one of the engine.
-/

namespace FaultStorm.FaultEngine

open Python Proc Relation

variable {β ω : Type}

/-- What the random mode is about. -/
inductive Mode (β ω : Type)
  | injecting
  /-- the faults are still to be healed -/
  | healing (rest : List (FaultAction β ω))

/-- A step of the random mode. -/
inductive Transition (e : Setup β ω) : Mode β ω × FaultEngine β ω → Mode β ω × FaultEngine β ω → Prop
  | draws (mode : Mode β ω) (s : FaultEngine β ω) (draws : Nat → Nat) :
      Transition e (mode, s) (mode, { s with world := { s.world with draws } })
  | checked (s : FaultEngine β ω) (event : Event β ω) (silent : Silent event) :
      Transition e (.injecting, s) (.injecting, { s with history := s.history ++ [event] })
  | pauses (mode : Mode β ω) (s : FaultEngine β ω) (seconds : Int) (asked : Waits e seconds) :
      Transition e (mode, s) (mode, s.paused e seconds)
  | refuses (s : FaultEngine β ω) :
      Transition e (.injecting, s) (.injecting, { s with nextOrdinal := s.nextOrdinal + 1 })
  | injects (s : FaultEngine β ω) (cls : ActionClass β ω) (target : Option String) (self : ActionObj β)
      (enabled : Enabled e cls) (allowed : Allowed e s cls) (aimed : Aimed e cls target)
      (built : construct e cls target (s.nextOrdinal + 1) = .ok self) :
      Transition e (.injecting, s) (.injecting, s.injected (s.newAction cls self))
  | begins (s : FaultEngine β ω) (faults : List (FaultAction β ω)) (perm : faults.Perm s.activeFaults) :
      Transition e (.injecting, s) (.healing faults, s)
  | mends (a : FaultAction β ω) (rest : List (FaultAction β ω)) (s : FaultEngine β ω) (silent : a.cls.healable = false) :
      Transition e (.healing (a :: rest), s) (.healing rest, s.mended a)
  | heals (a : FaultAction β ω) (rest : List (FaultAction β ω)) (s : FaultEngine β ω) (healable : a.cls.healable = true) :
      Transition e (.healing (a :: rest), s) (.healing rest, wrote (a.call a.cls.heal s.world).2.1 true (s.mended a))
  | ends (s : FaultEngine β ω) : Transition e (.healing [], s) (.injecting, { s with activeFaults := [] })

/-- The machine comes from the state to the mode and the state. -/
def Comes (e : Setup β ω) (start : FaultEngine β ω) (mode : Mode β ω) (s : FaultEngine β ω) : Prop :=
  ReflTransGen (Transition e) (.injecting, start) (mode, s)

section Loops

variable {e : Setup β ω} {start s : FaultEngine β ω} {mode : Mode β ω}

theorem comes_heals (e : Setup β ω) (start : FaultEngine β ω) :
    Heals e (fun rest => Comes e start (.healing rest)) fun _ => True where
  draws rest s draws h := h.tail (.draws (.healing rest) s draws)
  paused rest s seconds asked h := h.tail (.pauses (.healing rest) s seconds asked)
  mended a rest s silent h := h.tail (.mends a rest s silent)
  logged a rest s healable h := h.tail (.heals a rest s healable)
  raised _ _ _ := trivial

/-- The faults to be healed are the active ones in some order. -/
theorem comes_begins (s : FaultEngine β ω) (faults : List (FaultAction β ω)) (draws : Nat → Nat)
    (perm : faults.Perm s.activeFaults) (h : Comes e start .injecting s) :
    Comes e start (.healing faults) { s with world := { s.world with draws } } :=
  ReflTransGen.tail (ReflTransGen.tail h (.draws .injecting s draws)) (.begins _ faults perm)

/-- A clean-up whose waits have a range does not raise, and ends with nothing active. -/
theorem healAllActive_returns (range : e.config.complexFaultMinWait ≤ e.config.complexFaultMaxWait) :
    Triple (Comes e start .injecting) (healAllActive e) (fun _ s => s.activeFaults = [] ∧ Comes e start .injecting s)
      (fun _ _ => False) := by
  refine ((comes_heals e start).healAllActive_returns range comes_begins).conseq (fun _ h => h) ?_ fun _ _ h => h
  rintro _ _ ⟨t, h, rfl⟩
  exact ⟨rfl, ReflTransGen.tail h (.ends t)⟩

end Loops

/-! ## Whole runs -/

section Run

variable {e : Setup β ω} {s : FaultEngine β ω}

end Run

end FaultStorm.FaultEngine
