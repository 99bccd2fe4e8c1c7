import FaultStorm.Faults.Engine.Invariant
import Mathlib.Logic.Relation

/-!
# The loop of the random mode, call by call

`_do_random_loop` as a transition system whose steps are the calls the loop makes, so that the
states between two calls can be named. `doRandomLoop_reaches` is the simulation: whatever the
loop does, it does by these steps. So what holds along the steps holds of the loop: `Cycles` says
what has to be shown of each, and `Preserved` what of an invariant that is the same everywhere.
-/

namespace FaultStorm.FaultEngine

open Python Proc

variable {β ω : Type}

/-- Where the loop of the random mode stands between two of its calls. -/
inductive Point
  | head
  | inject (remaining : Nat)
  | gap (remaining : Nat)
  | check
  | heal
  | pause
  | left
  /-- an injection or a wait has raised -/
  | raised
  deriving DecidableEq

/-- One call of `_do_random_loop`, the stop event being set or not at each poll. A call of
`_heal_all_active` that raises ends the loop inside the call, so no step stands for it. -/
inductive LoopStep (e : Setup β ω) (faultClasses complexClasses : List (ActionClass β ω)) :
    Point × FaultEngine β ω → Point × FaultEngine β ω → Prop
  | enter (s) :
      LoopStep e faultClasses complexClasses (.head, s)
        (.inject e.config.parallelFaultsCount.toNat, { s with history := s.history ++ [.stopChecked false] })
  | leave (s) :
      LoopStep e faultClasses complexClasses (.head, s) (.left, { s with history := s.history ++ [.stopChecked true] })
  | injected (remaining s t) (ran : (injectComplexFault e faultClasses complexClasses).exec s = (.ok (), t)) :
      LoopStep e faultClasses complexClasses (.inject (remaining + 1), s)
        (if 0 < remaining then .gap remaining else .inject remaining, t)
  | refused (remaining s t exc) (ran : (injectComplexFault e faultClasses complexClasses).exec s = (.error exc, t)) :
      LoopStep e faultClasses complexClasses (.inject (remaining + 1), s) (.raised, t)
  | waited (remaining s t) (ran : (randomPause e).exec s = (.ok (), t)) :
      LoopStep e faultClasses complexClasses (.gap remaining, s) (.inject remaining, t)
  | unwaited (remaining s t exc) (ran : (randomPause e).exec s = (.error exc, t)) :
      LoopStep e faultClasses complexClasses (.gap remaining, s) (.raised, t)
  | active (s) :
      LoopStep e faultClasses complexClasses (.inject 0, s) (.check, s.paused e e.config.faultActiveDuration)
  | carryOn (s) :
      LoopStep e faultClasses complexClasses (.check, s) (.heal, { s with history := s.history ++ [.stopChecked false] })
  | stop (s) :
      LoopStep e faultClasses complexClasses (.check, s) (.left, { s with history := s.history ++ [.stopChecked true] })
  | healed (s t) (ran : (healAllActive e).exec s = (.ok (), t)) :
      LoopStep e faultClasses complexClasses (.heal, s) (.pause, t)
  | rested (s) :
      LoopStep e faultClasses complexClasses (.pause, s) (.head, s.paused e e.config.faultPauseDuration)

/-- The loop can be at that point, in that state. -/
abbrev Reaches (e : Setup β ω) (faultClasses complexClasses : List (ActionClass β ω)) :
    Point × FaultEngine β ω → Point × FaultEngine β ω → Prop :=
  Relation.ReflTransGen (LoopStep e faultClasses complexClasses)

/-- A call has raised at a point the loop can be at. -/
def Raises (e : Setup β ω) (faultClasses complexClasses : List (ActionClass β ω)) (x : Point × FaultEngine β ω)
    (t : FaultEngine β ω) : Prop :=
  Reaches e faultClasses complexClasses x (.raised, t) ∨
    ∃ u exc, Reaches e faultClasses complexClasses x (.heal, u) ∧ (healAllActive e).exec u = (.error exc, t)

section Steps

variable {e : Setup β ω} {faultClasses complexClasses : List (ActionClass β ω)} {x : Point × FaultEngine β ω}

theorem injectParallel_reaches (remaining : Nat) :
    Triple (fun s => Reaches e faultClasses complexClasses x (.inject remaining, s))
      (injectParallel e faultClasses complexClasses remaining)
      (fun _ s => Reaches e faultClasses complexClasses x (.inject 0, s))
      (fun _ => Raises e faultClasses complexClasses x) := by
  induction remaining with
  | zero => exact Triple.pure fun _ hs => hs
  | succ remaining ih =>
    have inject : Triple (fun s => Reaches e faultClasses complexClasses x (.inject (remaining + 1), s))
        (injectComplexFault e faultClasses complexClasses)
        (fun _ s => Reaches e faultClasses complexClasses x
          (if 0 < remaining then .gap remaining else .inject remaining, s))
        (fun _ => Raises e faultClasses complexClasses x) := by
      intro s hs
      rcases ran : (injectComplexFault e faultClasses complexClasses).exec s with ⟨exc | _, t⟩
      · exact Or.inl (hs.tail (.refused remaining s t exc ran))
      · exact hs.tail (.injected remaining s t ran)
    have wait : Triple (fun s => Reaches e faultClasses complexClasses x (.gap remaining, s)) (randomPause e)
        (fun _ s => Reaches e faultClasses complexClasses x (.inject remaining, s))
        (fun _ => Raises e faultClasses complexClasses x) := by
      intro s hs
      rcases ran : (randomPause e).exec s with ⟨exc | _, t⟩
      · exact Or.inl (hs.tail (.unwaited remaining s t exc ran))
      · exact hs.tail (.waited remaining s t ran)
    refine inject.bind fun _ => ?_
    by_cases more : 0 < remaining
    · simp only [if_pos more]
      exact wait.bind fun _ => ih
    · simp only [if_neg more]
      exact ih

theorem pause_reaches {p q : Point} {seconds : Int}
    (step : ∀ s, LoopStep e faultClasses complexClasses (p, s) (q, s.paused e seconds)) :
    Triple (fun s => Reaches e faultClasses complexClasses x (p, s)) (FaultEngine.pause e seconds)
      (fun _ s => Reaches e faultClasses complexClasses x (q, s)) (fun _ => Raises e faultClasses complexClasses x) := by
  intro s hs
  rw [exec_pause]
  exact hs.tail (step s)

theorem note_reaches {p q : Point} {event : Event β ω}
    (step : ∀ s, LoopStep e faultClasses complexClasses (p, s) (q, { s with history := s.history ++ [event] })) :
    Triple (fun s => Reaches e faultClasses complexClasses x (p, s)) (note event)
      (fun _ s => Reaches e faultClasses complexClasses x (q, s)) (fun _ => Raises e faultClasses complexClasses x) :=
  fun s hs => hs.tail (step s)

/-- The loop goes through the steps: it returns where it has been left, and raises where a call
did. -/
theorem doRandomLoop_reaches (stopAt : Nat) :
    Triple (fun s => Reaches e faultClasses complexClasses x (.head, s)) (doRandomLoop e faultClasses complexClasses stopAt)
      (fun _ s => Reaches e faultClasses complexClasses x (.left, s)) (fun _ => Raises e faultClasses complexClasses x) := by
  have active : Triple (fun s => Reaches e faultClasses complexClasses x (.head, s))
      (activePhase e faultClasses complexClasses) (fun _ s => Reaches e faultClasses complexClasses x (.check, s))
      (fun _ => Raises e faultClasses complexClasses x) :=
    (note_reaches .enter).bind fun _ => (injectParallel_reaches _).bind fun _ => pause_reaches .active
  induction stopAt using doRandomLoop.induct with
  | case1 => exact note_reaches .leave
  | case2 => exact active.bind fun _ => note_reaches .stop
  | case3 stopAt ih =>
    refine active.bind fun _ => (note_reaches .carryOn).bind fun _ => ?_
    have heal : Triple (fun s => Reaches e faultClasses complexClasses x (.heal, s)) (healAllActive e)
        (fun _ s => Reaches e faultClasses complexClasses x (.pause, s))
        (fun _ => Raises e faultClasses complexClasses x) := by
      intro s hs
      rcases ran : (healAllActive e).exec s with ⟨exc | _, t⟩
      · exact Or.inr ⟨s, exc, hs, ran⟩
      · exact hs.tail (.healed s t ran)
    exact heal.bind fun _ => (pause_reaches .rested).bind fun _ => ih

end Steps

/-! ## What holds along the loop -/

/-- `K` holds of the engine between the calls of the loop, `I` inside its injections, and `E` where
a call raises. -/
structure Cycles (e : Setup β ω) (I : Injection → FaultEngine β ω → Prop) (K : Point → FaultEngine β ω → Prop)
    (E : FaultEngine β ω → Prop) : Prop extends Injects e I (K .raised) where
  enters : ∀ s, K .head s →
    I (.between e.config.parallelFaultsCount.toNat) { s with history := s.history ++ [.stopChecked false] }
  leaves : ∀ s, K .head s → K .left { s with history := s.history ++ [.stopChecked true] }
  waits : ∀ s, I (.between 0) s → K .check (s.paused e e.config.faultActiveDuration)
  carriesOn : ∀ s, K .check s → K .heal { s with history := s.history ++ [.stopChecked false] }
  stops : ∀ s, K .check s → K .left { s with history := s.history ++ [.stopChecked true] }
  heals : Triple (K .heal) (healAllActive e) (fun _ => K .pause) (fun _ => E)
  rests : ∀ s, K .pause s → K .head (s.paused e e.config.faultPauseDuration)
  fails : ∀ s, K .raised s → E s

namespace Cycles

variable {e : Setup β ω} {I : Injection → FaultEngine β ω → Prop} {K : Point → FaultEngine β ω → Prop}
  {E : FaultEngine β ω → Prop} {faultClasses complexClasses : List (ActionClass β ω)}

/-- What holds at each point. -/
def At (I : Injection → FaultEngine β ω → Prop) (K : Point → FaultEngine β ω → Prop) :
    Point → FaultEngine β ω → Prop
  | .inject remaining | .gap remaining => I (.between remaining)
  | point => K point

theorem step (h : Cycles e I K E) (chosen : Chosen e faultClasses complexClasses) {x y : Point × FaultEngine β ω}
    (step : LoopStep e faultClasses complexClasses x y) (hx : At I K x.1 x.2) : At I K y.1 y.2 := by
  have inject := h.injectComplexFault_upholds chosen
  have wait := fun remaining => h.randomPause_upholds (.between remaining)
  cases step with
  | enter s => exact h.enters s hx
  | leave s => exact h.leaves s hx
  | injected remaining s t ran =>
    have after := inject remaining s hx
    rw [ran] at after
    by_cases more : 0 < remaining
    · rw [if_pos more]
      exact after
    · rw [if_neg more]
      exact after
  | refused remaining s t exc ran =>
    have after := inject remaining s hx
    rw [ran] at after
    exact after
  | waited remaining s t ran =>
    have after := wait remaining s hx
    rw [ran] at after
    exact after
  | unwaited remaining s t exc ran =>
    have after := wait remaining s hx
    rw [ran] at after
    exact after
  | active s => exact h.waits s hx
  | carryOn s => exact h.carriesOn s hx
  | stop s => exact h.stops s hx
  | healed s t ran =>
    have after := h.heals s hx
    rw [ran] at after
    exact after
  | rested s => exact h.rests s hx

theorem reaches (h : Cycles e I K E) (chosen : Chosen e faultClasses complexClasses) {x y : Point × FaultEngine β ω}
    (reached : Reaches e faultClasses complexClasses x y) (hx : At I K x.1 x.2) : At I K y.1 y.2 := by
  induction reached with
  | refl => exact hx
  | tail _ step ih => exact h.step chosen step ih

/-- The loop of the random mode, wherever the stop event meets it. -/
theorem doRandomLoop_upholds (h : Cycles e I K E) (chosen : Chosen e faultClasses complexClasses) (stopAt : Nat) :
    Triple (K .head) (doRandomLoop e faultClasses complexClasses stopAt) (fun _ => K .left) (fun _ => E) := by
  intro s hs
  have goes := doRandomLoop_reaches (x := ((.head, s) : Point × FaultEngine β ω)) stopAt s
    (.refl : Reaches e faultClasses complexClasses _ _)
  rcases ran : (doRandomLoop e faultClasses complexClasses stopAt).exec s with ⟨exc | _, t⟩ <;> rw [ran] at goes
  · rcases goes with raised | ⟨u, exc, reached, healing⟩
    · exact h.fails t (h.reaches chosen raised hs)
    · have after := h.heals u (h.reaches chosen reached hs)
      rw [healing] at after
      exact after
  · exact h.reaches chosen goes hs

/-- The whole random mode, from before its `clear()`: `J` holds until the log is opened. -/
theorem runRandom_triple (h : Cycles e I K E) {P J : FaultEngine β ω → Prop}
    (cleared : ∀ s, P s → J { s with history := s.history ++ [.stopCleared] }) (opened : ∀ s, J s → K .head s.opened)
    (stopAt : Nat) :
    Triple P (runRandom e stopAt) (fun _ s => ∃ t, K .left t ∧ s = closeLog t)
      (fun _ s => J s ∨ ∃ t, E t ∧ s = closeLog t) := by
  have clears : Triple P (note (.stopCleared : Event β ω)) (fun _ => J)
      (fun _ s => J s ∨ ∃ t, E t ∧ s = closeLog t) :=
    fun s hs => cleared s hs
  refine clears.bind fun _ => ?_
  cases found : e.registry.getClasses (some e.config.faultTypes) with
  | error exc => exact Triple.throw fun _ => Or.inl
  | ok faultClasses =>
    have opens : Triple J openLog (fun _ => K .head) (fun _ s => J s ∨ ∃ t, E t ∧ s = closeLog t) :=
      fun s hs => opened s hs
    refine opens.bind fun _ => Triple.ensuring ?_
    exact (h.doRandomLoop_upholds (chosen_of_getClasses found) stopAt).conseq (fun _ hs => hs)
      (fun _ t ht => ⟨t, ht, rfl⟩) fun _ t ht => Or.inr ⟨t, ht, rfl⟩

end Cycles

/-- The invariant survives every step of the random mode, and `E` holds where one raises. -/
structure Preserved (e : Setup β ω) (I : FaultEngine β ω → Prop) (E : FaultEngine β ω → Prop := I) : Prop
    extends Injects e (fun _ => I) E where
  checked : ∀ s event, Silent event → I s → I { s with history := s.history ++ [event] }
  healed : Upholds I E (healAllActive e)
  begins := fun _ _ faultCount s _ hs => checked s _ (silent_complexFault faultCount) hs
  done := fun _ _ _ s hs => checked s _ silent_complexFaultDone hs

namespace Preserved

variable {e : Setup β ω} {I E : FaultEngine β ω → Prop}

/-- What holds between two calls. -/
def Between (I E : FaultEngine β ω → Prop) : Point → FaultEngine β ω → Prop
  | .raised => E
  | _ => I

theorem cycles (h : Preserved e I E) : Cycles e (fun _ => I) (Between I E) E where
  toInjects := h.toInjects
  enters s hs := h.checked s _ (silent_stopChecked false) hs
  leaves s hs := h.checked s _ (silent_stopChecked true) hs
  waits s hs := h.paused (.between 0) s _ (Or.inl rfl) hs
  carriesOn s hs := h.checked s _ (silent_stopChecked false) hs
  stops s hs := h.checked s _ (silent_stopChecked true) hs
  heals := h.healed
  rests s hs := h.paused (.between 0) s _ (Or.inr (Or.inl rfl)) hs
  fails _ hs := hs

/-- The whole random mode: `J` holds until the log is opened, and the invariant until it is
closed. -/
theorem runRandom_triple (h : Preserved e I E) {J : FaultEngine β ω → Prop}
    (cleared : ∀ s, J s → J { s with history := s.history ++ [.stopCleared] }) (opened : ∀ s, J s → I s.opened)
    (stopAt : Nat) :
    Triple J (runRandom e stopAt) (fun _ s => ∃ t, I t ∧ s = closeLog t)
      (fun _ s => J s ∨ ∃ t, E t ∧ s = closeLog t) :=
  h.cycles.runRandom_triple cleared opened stopAt

/-- The whole random mode keeps an invariant that opening and closing the log keep too. -/
theorem runRandom_keeps (h : Preserved e I) (opened : ∀ s, I s → I s.opened)
    (closed : ∀ s, I s → I (closeLog s)) (stopAt : Nat) : Keeps I (runRandom e stopAt) := by
  refine (h.runRandom_triple (fun s hs => h.checked s _ silent_stopCleared hs) opened stopAt).conseq
    (fun _ hs => hs) ?_ ?_
  · rintro _ _ ⟨t, ht, rfl⟩
    exact closed t ht
  · rintro _ _ (hs | ⟨t, ht, rfl⟩)
    · exact hs
    · exact closed t ht

end Preserved

/-! ## A run -/

/-- The engine when the loop of its random run begins. -/
def begun (world : World ω) (clock : Nat → DateTime) : FaultEngine β ω :=
  opened { FaultEngine.fresh world clock with history := [.stopCleared] }

/-- A random run can be at that point, in that state. -/
def RandomRun (e : Setup β ω) (world : World ω) (clock : Nat → DateTime) (x : Point × FaultEngine β ω) : Prop :=
  ∃ faultClasses, e.registry.getClasses (some e.config.faultTypes) = .ok faultClasses ∧
    Reaches e faultClasses (if e.config.complexFaultsEnabled then faultClasses.filter (·.hostTargetable) else [])
      (.head, begun world clock) x

/-- A random run that returns has gone through the steps. -/
theorem runRandom_reaches (e : Setup β ω) (stopAt : Nat) (world : World ω) (clock : Nat → DateTime)
    {s : FaultEngine β ω} (ran : (runRandom e stopAt).exec (.fresh world clock) = (.ok (), s)) :
    ∃ t, RandomRun e world clock (.left, t) ∧ s = closeLog t := by
  unfold runRandom at ran
  rw [exec_bind_ok (exec_note _ _)] at ran
  cases found : e.registry.getClasses (some e.config.faultTypes) with
  | error exc =>
    rw [found] at ran
    cases ran
  | ok faultClasses =>
    rw [found] at ran
    dsimp only at ran
    rw [exec_bind_ok (exec_openLog _), exec_ensuring] at ran
    let complexClasses := if e.config.complexFaultsEnabled then faultClasses.filter (·.hostTargetable) else []
    have loop := doRandomLoop_reaches (x := ((.head, begun world clock) : Point × FaultEngine β ω)) stopAt
      (begun world clock) (.refl : Reaches e faultClasses complexClasses _ _)
    have ended := congrArg Prod.fst ran
    have left := congrArg Prod.snd ran
    dsimp only at ended left
    rcases body : (doRandomLoop e faultClasses _ stopAt).exec (begun world clock) with ⟨exc | _, t⟩
    · have body' := congrArg Prod.fst body
      exact absurd (body'.symm.trans ended) nofun
    · rw [body] at loop
      refine ⟨t, ⟨faultClasses, found, loop⟩, left.symm.trans ?_⟩
      exact congrArg (fun x => closeLog x.2) body

end FaultStorm.FaultEngine
