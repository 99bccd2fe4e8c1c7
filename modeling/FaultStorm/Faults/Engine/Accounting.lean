import FaultStorm.Faults.Engine.Cleanup

/-!
# The destructive budget

`_destructive_count` goes up when a destructive action is injected and down when one is
healed. `Ledger` reads both sides off the history; the budget of a run and the list of active
faults are compared with the counter from there.
-/

namespace FaultStorm

open Python

variable {β ω : Type}

/-- How many destructive actions have been started. -/
def destructiveStarts (history : List (Event β ω)) : Nat :=
  history.countP fun
    | .action .started a _ => a.cls.destructive
    | _ => false

/-- How many destructive actions have been healed without an exception. -/
def destructiveHeals (history : List (Event β ω)) : Nat :=
  history.countP fun
    | .action .healed a none => a.cls.destructive
    | _ => false

/-- At every moment no more destructive actions have been started than `limit`, besides those that
have been healed by then. -/
def WithinBudget (limit : Int) (history : List (Event β ω)) : Prop :=
  ∀ before, before <+: history → destructiveStarts before ≤ destructiveHeals before + limit

theorem destructiveStarts_append (h k : List (Event β ω)) :
    destructiveStarts (h ++ k) = destructiveStarts h + destructiveStarts k :=
  List.countP_append

theorem destructiveHeals_append (h k : List (Event β ω)) :
    destructiveHeals (h ++ k) = destructiveHeals h + destructiveHeals k :=
  List.countP_append

/-- What is started last has to find room beside what was started before. -/
theorem WithinBudget.append {limit : Int} {h k : List (Event β ω)} (within : WithinBudget limit h)
    (room : destructiveStarts (h ++ k) ≤ destructiveHeals h + limit) : WithinBudget limit (h ++ k) := by
  intro before early
  by_cases short : before.length ≤ h.length
  · exact within before (List.prefix_of_prefix_length_le early (List.prefix_append h k) short)
  · have later : h <+: before := List.prefix_of_prefix_length_le (List.prefix_append h k) early (by omega)
    have starts : destructiveStarts before ≤ destructiveStarts (h ++ k) := early.sublist.countP_le
    have heals : destructiveHeals h ≤ destructiveHeals before := later.sublist.countP_le
    omega

theorem WithinBudget.quiet {limit : Int} {h k : List (Event β ω)} (within : WithinBudget limit h)
    (none : destructiveStarts k = 0) : WithinBudget limit (h ++ k) := by
  refine within.append ?_
  rw [destructiveStarts_append, none]
  exact within h (List.prefix_refl h)

namespace FaultEngine

/-- The counter is what has been started less what has been healed. -/
def Ledger (s : FaultEngine β ω) : Prop :=
  s.destructiveCount + destructiveHeals s.history = destructiveStarts s.history

section Ledger

variable {s : FaultEngine β ω}

theorem destructiveStarts_paused (e : Setup β ω) (seconds : Int) (s : FaultEngine β ω) :
    destructiveStarts (s.paused e seconds).history = destructiveStarts s.history := by
  rw [FaultEngine.paused, ran_history, destructiveStarts_append]
  exact Nat.add_zero _

theorem destructiveHeals_paused (e : Setup β ω) (seconds : Int) (s : FaultEngine β ω) :
    destructiveHeals (s.paused e seconds).history = destructiveHeals s.history := by
  rw [FaultEngine.paused, ran_history, destructiveHeals_append]
  exact Nat.add_zero _

theorem destructiveCount_paused (e : Setup β ω) (seconds : Int) (s : FaultEngine β ω) :
    (s.paused e seconds).destructiveCount = s.destructiveCount :=
  ran_destructiveCount ..

theorem destructiveStarts_injected (a : FaultAction β ω) (s : FaultEngine β ω) :
    destructiveStarts (s.injected a).history =
      destructiveStarts s.history + if a.cls.destructive then 1 else 0 := by
  show destructiveStarts ((s.injecting a).ran a).history = _
  rw [ran_history, destructiveStarts_append]
  show destructiveStarts (s.history ++ [_]) + _ = _
  rw [destructiveStarts_append]
  by_cases destructive : a.cls.destructive <;> simp [destructiveStarts, execution, destructive]

theorem destructiveHeals_injected (a : FaultAction β ω) (s : FaultEngine β ω) :
    destructiveHeals (s.injected a).history = destructiveHeals s.history := by
  show destructiveHeals ((s.injecting a).ran a).history = _
  rw [ran_history, destructiveHeals_append]
  show destructiveHeals (s.history ++ [_]) + _ = _
  rw [destructiveHeals_append]
  simp [destructiveHeals, execution]

theorem destructiveCount_injected (a : FaultAction β ω) (s : FaultEngine β ω) :
    (s.injected a).destructiveCount = s.destructiveCount + if a.cls.destructive then 1 else 0 := by
  show ((s.injecting a).ran a).destructiveCount = _
  rw [ran_destructiveCount, injecting]
  by_cases destructive : a.cls.destructive <;> simp [destructive]

theorem destructiveStarts_mended (a : FaultAction β ω) (s : FaultEngine β ω) :
    destructiveStarts (s.mended a).history = destructiveStarts s.history := by
  show destructiveStarts (s.history ++ healingOf a _ _) = _
  rw [destructiveStarts_append]
  exact Nat.add_zero _

/-- What a heal adds to the heals it takes from the counter. -/
theorem destructiveHeals_mended (a : FaultAction β ω) (s : FaultEngine β ω) :
    (s.mended a).destructiveCount + destructiveHeals (s.mended a).history =
      s.destructiveCount + destructiveHeals s.history := by
  have history : (s.mended a).history =
      s.history ++ healingOf a (a.call a.cls.heal s.world).2.1 (a.call a.cls.heal s.world).1 := rfl
  have count : (s.mended a).destructiveCount =
      if (a.call a.cls.heal s.world).1.isNone && a.cls.destructive then s.destructiveCount - 1
      else s.destructiveCount := rfl
  have same : (a.call a.cls.heal s.world).2.1.cls.destructive = a.cls.destructive :=
    congrArg ActionClass.destructive (FaultAction.call_cls a a.cls.heal s.world)
  rw [history, destructiveHeals_append, count]
  cases raised : (a.call a.cls.heal s.world).1 with
  | some exc => simp [destructiveHeals, healingOf]
  | none =>
    by_cases destructive : a.cls.destructive
    · simp only [destructiveHeals, healingOf, List.countP_cons, List.countP_nil, same, destructive]
      simp only [Option.isNone_none, Bool.and_self, if_true, Bool.false_eq_true, if_false]
      omega
    · simp [destructiveHeals, healingOf, destructive]

theorem Ledger.silent (h : Ledger s) {event : Event β ω} (silent : Silent event) :
    Ledger { s with history := s.history ++ [event] } := by
  unfold Ledger at h ⊢
  show s.destructiveCount + (destructiveHeals (s.history ++ [event]) : Int) = destructiveStarts (s.history ++ [event])
  rw [destructiveHeals_append, destructiveStarts_append]
  cases event with
  | action stage a raised => exact absurd rfl (silent stage a raised)
  | stopCleared | stopChecked answer | complexFault faultCount | complexFaultDone => exact h

theorem Ledger.paused (h : Ledger s) (e : Setup β ω) (seconds : Int) : Ledger (s.paused e seconds) := by
  unfold Ledger at h ⊢
  rw [destructiveCount_paused, destructiveHeals_paused, destructiveStarts_paused]
  exact h

theorem Ledger.injected (h : Ledger s) (a : FaultAction β ω) : Ledger (s.injected a) := by
  unfold Ledger at h ⊢
  rw [destructiveCount_injected, destructiveHeals_injected, destructiveStarts_injected]
  by_cases destructive : a.cls.destructive
  · rw [if_pos destructive, if_pos destructive]
    omega
  · rw [if_neg destructive, if_neg destructive]
    omega

theorem Ledger.mended (h : Ledger s) (a : FaultAction β ω) : Ledger (s.mended a) := by
  unfold Ledger at h ⊢
  rw [destructiveHeals_mended, destructiveStarts_mended]
  exact h

end Ledger

/-! ## The budget of a run -/

section Budget

open Proc

variable {limit : Int} {s : FaultEngine β ω}

/-- The books are right, and the run is within its budget. -/
structure Budgeted (limit : Int) (s : FaultEngine β ω) : Prop where
  ledger : Ledger s
  within : WithinBudget limit s.history

theorem Budgeted.congr {t : FaultEngine β ω} (h : Budgeted limit s) (history : t.history = s.history)
    (count : t.destructiveCount = s.destructiveCount) : Budgeted limit t := by
  constructor
  · unfold Ledger
    rw [history, count]
    exact h.ledger
  · rw [history]
    exact h.within

theorem Budgeted.silent (h : Budgeted limit s) {event : Event β ω} (silent : Silent event) :
    Budgeted limit { s with history := s.history ++ [event] } := by
  have none : destructiveStarts [event] = 0 := by
    cases event with
    | action stage a raised => exact absurd rfl (silent stage a raised)
    | stopCleared | stopChecked answer | complexFault faultCount | complexFaultDone => rfl
  exact ⟨h.ledger.silent silent, h.within.quiet none⟩

theorem Budgeted.paused (h : Budgeted limit s) (e : Setup β ω) (seconds : Int) :
    Budgeted limit (s.paused e seconds) := by
  refine ⟨h.ledger.paused e seconds, ?_⟩
  rw [FaultEngine.paused, ran_history]
  exact h.within.quiet rfl

/-- Where the limit lets a destructive action through, the counter is below it, and the counter is
what has been started and not healed. -/
theorem Budgeted.injected {e : Setup β ω} (limited : e.config.maxDestructiveActions = some limit)
    (h : Budgeted limit s) (a : FaultAction β ω) (allowed : Allowed e s a.cls) : Budgeted limit (s.injected a) := by
  refine ⟨h.ledger.injected a, ?_⟩
  have history : (s.injected a).history = s.history ++ (.action .injected a none :: execution a _ _) :=
    List.append_assoc ..
  have starts := destructiveStarts_injected a s
  have earlier : destructiveStarts s.history ≤ destructiveHeals s.history + limit := h.within _ (List.prefix_refl _)
  rw [history] at starts ⊢
  refine h.within.append ?_
  rw [starts]
  by_cases destructive : a.cls.destructive
  · have room : s.destructiveCount < limit := allowed destructive limit limited
    have books : s.destructiveCount + destructiveHeals s.history = destructiveStarts s.history := h.ledger
    rw [if_pos destructive]
    omega
  · rw [if_neg destructive]
    exact earlier

theorem Budgeted.mended (h : Budgeted limit s) (a : FaultAction β ω) : Budgeted limit (s.mended a) :=
  ⟨h.ledger.mended a, h.within.quiet rfl⟩

theorem budgeted_heals (e : Setup β ω) (limit : Int) : Heals e (fun _ => Budgeted limit) (Budgeted limit) where
  draws _ _ _ h := h.congr rfl rfl
  paused _ _ seconds _ h := h.paused e seconds
  mended a _ _ _ h := h.mended a
  logged a _ _ _ h := (h.mended a).congr (wrote_history ..) (wrote_destructiveCount ..)
  raised _ _ h := h

theorem budgeted_preserved (e : Setup β ω) (limited : e.config.maxDestructiveActions = some limit) :
    Preserved e (Budgeted limit) where
  draws _ _ _ h := h.congr rfl rfl
  checked _ _ silent h := h.silent silent
  paused _ _ seconds _ h := h.paused e seconds
  refused _ _ _ _ h := h.congr rfl rfl
  injected _ _ _ _ _ _ _ allowed _ _ h := h.injected limited _ allowed
  healed := ((budgeted_heals e limit).healAllActive_upholds fun _ _ _ _ h => h.congr rfl rfl).conseq
    (fun _ h => h) (fun _ _ h => by obtain ⟨t, ht, rfl⟩ := h; exact ht.congr rfl rfl) fun _ _ h => h

/-- At no moment of a random run are more destructive actions started and not healed than the limit
allows. -/
theorem runRandom_within (e : Setup β ω) (stopAt : Nat) (world : World ω) (clock : Nat → DateTime) (limit : Int)
    (limited : e.config.maxDestructiveActions = some limit) (nonneg : 0 ≤ limit) :
    WithinBudget limit ((runRandom e stopAt).exec (.fresh world clock)).2.history := by
  have fresh : Budgeted limit (FaultEngine.fresh world clock : FaultEngine β ω) := by
    refine ⟨rfl, fun before early => ?_⟩
    rw [List.prefix_nil.mp early]
    simpa [destructiveStarts, destructiveHeals] using nonneg
  have run := ((budgeted_preserved e limited).runRandom_keeps (fun _ h => h.congr rfl rfl)
    (fun _ h => h.congr rfl rfl) stopAt).final fresh
  exact run.within

/-- A destructive class whose `heal` is the one of `FaultAction`. -/
def wipeClass : ActionClass Unit Unit where
  name := "wipe"
  destructive := true
  init _ _ _ _ _ := .ok (.custom ())
  execute := Method.pass
  ordinal _ := 0
  serialize _ := ""
  deserialize _ _ _ _ := .ok (.custom ())

/-- The engine over that class alone, with the default limit of one destructive action. -/
def wipeSetup : Setup Unit Unit where
  config := { faultTypes := ["wipe"] }
  registry := Dict.empty.set "wipe" wipeClass
  dcMap := Dict.empty

/-- That engine after the random mode, the stop event being seen after `stopAt` polls. -/
def wipeRun (stopAt : Nat) : FaultEngine Unit Unit :=
  ((runRandom wipeSetup stopAt).exec (.fresh ⟨id, ()⟩ fun _ => ⟨2024, 5, 17, 9, 30, 0, 0⟩)).2

/-- The second cycle starts the action again. -/
theorem wipeRun_exceeds :
    ¬ ∀ limit, wipeSetup.config.maxDestructiveActions = some limit → 0 ≤ limit →
      (destructiveStarts (wipeRun 3).history : Int) ≤ limit := by
  intro within
  exact absurd (within 1 rfl (by omega)) (by decide +kernel)

theorem wipeRun_within : WithinBudget 1 (wipeRun 3).history := by
  unfold wipeRun
  exact runRandom_within wipeSetup 3 ⟨id, ()⟩ (fun _ => ⟨2024, 5, 17, 9, 30, 0, 0⟩) 1 rfl (by omega)

end Budget

/-! ## The counter and the list of active faults -/

section Active

open Proc

/-- The counter is the number of destructive active faults, which is in its bounds, and a fault
that is no longer active has been healed without an exception. -/
structure Accounted (e : Setup β ω) (s : FaultEngine β ω) : Prop where
  count : s.destructiveCount = s.activeFaults.countP (·.cls.destructive)
  nonneg : 0 ≤ s.destructiveCount
  bounded : ∀ limit, e.config.maxDestructiveActions = some limit → 0 ≤ limit → s.destructiveCount ≤ limit
  left : ∀ a raised, .action .injected a raised ∈ s.history → a.id ∉ s.activeFaults.map (·.id) →
    ∃ b, b.id = a.id ∧ .action .healed b none ∈ s.history

/-- What the accounts come to while `faults` are in force. -/
structure Balanced (e : Setup β ω) (faults : List (FaultAction β ω)) (s : FaultEngine β ω) : Prop where
  awaiting : Awaiting faults s
  origin : ∀ id, .healed ∈ stagesOf id s.history → .injected ∈ stagesOf id s.history
  count : NoHealRaised s.history → s.destructiveCount = faults.countP (·.cls.destructive)
  bounded : ∀ limit, e.config.maxDestructiveActions = some limit → 0 ≤ limit → s.destructiveCount ≤ limit

theorem NoHealRaised.of_append {h k : List (Event β ω)} (none : NoHealRaised (h ++ k)) : NoHealRaised h :=
  fun a raised member => none a raised (List.mem_append_left k member)

namespace Balanced

variable {e : Setup β ω} {faults : List (FaultAction β ω)} {s t : FaultEngine β ω}

theorem congr (h : Balanced e faults s) (history : t.history = s.history)
    (count : t.destructiveCount = s.destructiveCount) (ordinal : s.nextOrdinal ≤ t.nextOrdinal) :
    Balanced e faults t := by
  refine ⟨h.awaiting.congr history ordinal, ?_, ?_, ?_⟩
  · rw [history]
    exact h.origin
  · rw [history, count]
    exact h.count
  · rw [count]
    exact h.bounded

theorem perm {faults' : List (FaultAction β ω)} (h : Balanced e faults s) (p : faults'.Perm faults) :
    Balanced e faults' s := by
  refine ⟨h.awaiting.perm p, h.origin, fun none => ?_, h.bounded⟩
  rw [h.count none, p.countP_eq]

theorem paused (h : Balanced e faults s) (seconds : Int) : Balanced e faults (s.paused e seconds) := by
  refine ⟨h.awaiting.paused e seconds, fun id healed => ?_, fun none => ?_, ?_⟩
  · rw [stagesOf_paused, List.mem_append] at healed ⊢
    refine Or.inl (h.origin id (healed.resolve_right fun later => ?_))
    split at later <;> simp at later
  · rw [FaultEngine.paused, ran_history] at none
    rw [destructiveCount_paused]
    exact h.count none.of_append
  · rw [destructiveCount_paused]
    exact h.bounded

theorem injected (h : Balanced e s.activeFaults s) {a : FaultAction β ω} (fresh : a.id = s.nextOrdinal + 1)
    (allowed : Allowed e s a.cls) : Balanced e (s.injected a).activeFaults (s.injected a) := by
  have active : (s.injected a).activeFaults = s.activeFaults ++ [(s.injecting a).executed a] := rfl
  rw [active]
  refine ⟨h.awaiting.inject fresh (executed_id _ _), fun id healed => ?_, fun none => ?_, fun limit limited nonneg => ?_⟩
  · rw [stagesOf_injected, List.mem_append] at healed ⊢
    refine Or.inl (h.origin id (healed.resolve_right fun later => ?_))
    split at later <;> simp [inForce] at later
  · have history : (s.injected a).history =
        s.history ++ (.action .injected a Option.none :: execution a _ _) := List.append_assoc ..
    rw [history] at none
    rw [destructiveCount_injected, h.count none.of_append, List.countP_append, List.countP_singleton, executed_cls]
    split <;> rfl
  · rw [destructiveCount_injected]
    by_cases destructive : a.cls.destructive
    · have := allowed destructive limit limited
      rw [if_pos destructive]
      omega
    · rw [if_neg destructive]
      have := h.bounded limit limited nonneg
      omega

theorem mended {a : FaultAction β ω} (h : Balanced e (a :: faults) s) : Balanced e faults (s.mended a) := by
  have count : (s.mended a).destructiveCount =
      if (a.call a.cls.heal s.world).1.isNone && a.cls.destructive then s.destructiveCount - 1
      else s.destructiveCount := rfl
  refine ⟨h.awaiting.mended, fun id healed => ?_, fun none => ?_, fun limit limited nonneg => ?_⟩
  · rw [stagesOf_mended, List.mem_append] at healed ⊢
    by_cases eq : a.id = id
    · rw [← eq, h.awaiting.awaiting a List.mem_cons_self]
      exact Or.inl (by decide)
    · rw [if_neg eq] at healed
      exact Or.inl (h.origin id (healed.resolve_right List.not_mem_nil))
  · have history : (s.mended a).history =
        s.history ++ healingOf a (a.call a.cls.heal s.world).2.1 (a.call a.cls.heal s.world).1 := rfl
    rw [history] at none
    have returned : (a.call a.cls.heal s.world).1 = Option.none :=
      none (a.call a.cls.heal s.world).2.1 _ (by simp [healingOf])
    have before := h.count none.of_append
    rw [List.countP_cons] at before
    rw [count, returned]
    by_cases destructive : a.cls.destructive
    · simp only [destructive, if_true] at before
      simp only [destructive, Option.isNone_none, Bool.and_self, if_true]
      omega
    · simp only [destructive, Bool.false_eq_true, if_false] at before
      simp only [destructive, Bool.and_false, Bool.false_eq_true, if_false]
      omega
  · have before := h.bounded limit limited nonneg
    rw [count]
    split <;> omega

theorem silent (h : Balanced e s.activeFaults s) {event : Event β ω} (silent : Silent event) :
    Balanced e s.activeFaults { s with history := s.history ++ [event] } := by
  refine ⟨Tracked.checked h.awaiting silent, fun id healed => ?_, fun none => ?_, h.bounded⟩
  · have stages := stagesOf_silent id s.history silent
    have healed : .healed ∈ stagesOf id (s.history ++ [event]) := healed
    show .injected ∈ stagesOf id (s.history ++ [event])
    rw [stages] at healed ⊢
    exact h.origin id healed
  · exact h.count (NoHealRaised.of_append none)

end Balanced

/-- The accounts of the loop, between two of its calls. -/
def Settling (e : Setup β ω) (s : FaultEngine β ω) : Prop := Balanced e s.activeFaults s

theorem settling_paused {e : Setup β ω} {s : FaultEngine β ω} (h : Settling e s) (seconds : Int) :
    Settling e (s.paused e seconds) := by
  have active : (s.paused e seconds).activeFaults = s.activeFaults := ran_activeFaults ..
  unfold Settling
  rw [active]
  exact Balanced.paused h seconds

theorem balanced_heals (e : Setup β ω) : Heals e (Balanced e) fun _ => True where
  draws _ _ _ h := h.congr rfl rfl le_rfl
  paused _ _ seconds _ h := h.paused seconds
  mended _ _ _ _ h := h.mended
  logged _ _ _ _ h := h.mended.congr (wrote_history ..) (wrote_destructiveCount ..) (wrote_nextOrdinal ..).ge
  raised _ _ _ := trivial

theorem settling_healed (e : Setup β ω) : Upholds (Settling e) (fun _ => True) (healAllActive e) := by
  have heal := (balanced_heals e).healAllActive_upholds (I := Settling e)
    fun s faults draws perm h => (Balanced.perm h perm).congr rfl rfl le_rfl
  refine heal.conseq (fun _ h => h) ?_ fun _ _ h => h
  rintro _ _ ⟨t, ht, rfl⟩
  exact ht.congr rfl rfl le_rfl

theorem settling_checked {e : Setup β ω} {s : FaultEngine β ω} (h : Settling e s) {event : Event β ω}
    (silent : Silent event) : Settling e { s with history := s.history ++ [event] } :=
  Balanced.silent h silent

/-- The accounts are kept between the calls, and a clean-up that raises ends the run. -/
theorem settling_cycles (e : Setup β ω) : Cycles e (fun _ => Settling e) (fun _ => Settling e) fun _ => True where
  draws _ _ _ h := Balanced.congr h rfl rfl le_rfl
  paused _ _ seconds _ h := settling_paused h seconds
  begins _ _ faultCount _ _ h := settling_checked h (silent_complexFault faultCount)
  refused _ _ _ _ h := Balanced.congr h rfl rfl (Nat.le_succ _)
  injected _ _ _ _ _ _ _ allowed _ _ h := Balanced.injected h rfl allowed
  done _ _ _ _ h := settling_checked h silent_complexFaultDone
  enters _ h := settling_checked h (silent_stopChecked false)
  leaves _ h := settling_checked h (silent_stopChecked true)
  waits _ h := settling_paused h _
  carriesOn _ h := settling_checked h (silent_stopChecked false)
  stops _ h := settling_checked h (silent_stopChecked true)
  heals := settling_healed e
  rests _ h := settling_paused h _
  fails _ _ := trivial

theorem RandomRun.settling {e : Setup β ω} {world : World ω} {clock : Nat → DateTime} {point : Point}
    {s : FaultEngine β ω} (run : RandomRun e world clock (point, s)) : Settling e s := by
  obtain ⟨faultClasses, found, reached⟩ := run
  have start : Settling e (begun world clock) := by
    refine ⟨⟨nofun, List.nodup_nil, nofun, nofun, fun _ _ => rfl⟩, nofun, fun _ => rfl, fun limit _ nonneg => nonneg⟩
  have kept := (settling_cycles e).reaches (chosen_of_getClasses found) reached start
  cases point <;> exact kept

/-- A fault healed once has one entry for it. -/
theorem healed_unique {history : List (Event β ω)} {a b : FaultAction β ω} {raised raised' : Option PyExc}
    (once : stagesOf a.id history = healedOnce) (first : .action .healed a raised ∈ history)
    (second : .action .healed b raised' ∈ history) (same : b.id = a.id) : raised' = raised := by
  obtain ⟨before, after, rfl⟩ := List.append_of_mem first
  have here : stagesOf a.id (.action .healed a raised :: after) = .healed :: stagesOf a.id after := by
    unfold stagesOf
    rw [List.filterMap_cons_some (by exact if_pos rfl)]
  have total := congrArg (List.count Stage.healed) once
  rw [stagesOf_append, here, List.count_append, List.count_cons_self] at total
  have one : List.count Stage.healed healedOnce = 1 := by decide
  have none_before : Stage.healed ∉ stagesOf a.id before := List.count_eq_zero.mp (by omega)
  have none_after : Stage.healed ∉ stagesOf a.id after := List.count_eq_zero.mp (by omega)
  rcases List.mem_append.mp second with early | late
  · exact absurd (mem_stagesOf.mpr ⟨b, raised', same, early⟩) none_before
  · rcases List.mem_cons.mp late with eq | late
    · cases eq
      rfl
    · exact absurd (mem_stagesOf.mpr ⟨b, raised', same, late⟩) none_after

/-- Between two calls of a random run the accounts are right if and only if no `heal()` has
raised so far. -/
theorem randomRun_accounted_iff (e : Setup β ω) (world : World ω) (clock : Nat → DateTime) (point : Point)
    (s : FaultEngine β ω) (run : RandomRun e world clock (point, s)) : Accounted e s ↔ NoHealRaised s.history := by
  have settling : Balanced e s.activeFaults s := run.settling
  constructor
  · intro accounted a raised healed
    have stage : .healed ∈ stagesOf a.id s.history := mem_stagesOf.mpr ⟨a, raised, rfl, healed⟩
    have injected := settling.origin a.id stage
    have gone : a.id ∉ s.activeFaults.map (·.id) := by
      intro active
      obtain ⟨b, among, eq⟩ := List.mem_map.mp active
      rw [← eq, settling.awaiting.awaiting b among] at stage
      exact absurd stage (by decide)
    obtain ⟨b, raised', same, begins⟩ := mem_stagesOf.mp injected
    obtain ⟨c, same', returned⟩ := accounted.left b raised' begins (same ▸ gone)
    exact healed_unique (settling.awaiting.settled c.id (same' ▸ same ▸ gone) (same' ▸ same ▸ injected)) returned healed
      (same'.trans same).symm
  · intro none
    have count := settling.count none
    refine ⟨count, count ▸ Int.natCast_nonneg _, settling.bounded, fun a raised injected gone => ?_⟩
    have stages := settling.awaiting.settled a.id gone (mem_stagesOf.mpr ⟨a, raised, rfl, injected⟩)
    have healed : .healed ∈ stagesOf a.id s.history := stages ▸ by decide
    obtain ⟨b, ending, same, member⟩ := mem_stagesOf.mp healed
    exact ⟨b, same, none b ending member ▸ member⟩

/-- Two cycles, in each of which a destructive action was healed. -/
theorem wipeRun_accounted_iff :
    ∃ s, RandomRun wipeSetup ⟨id, ()⟩ (fun _ => ⟨2024, 5, 17, 9, 30, 0, 0⟩) (.left, s) ∧
      destructiveHeals s.history = 2 ∧ (Accounted wipeSetup s ↔ NoHealRaised s.history) := by
  have facts : let ran := (runRandom wipeSetup 4).exec (.fresh ⟨id, ()⟩ fun _ => ⟨2024, 5, 17, 9, 30, 0, 0⟩)
      ran.1.isOk = true ∧ destructiveHeals ran.2.history = 2 := by
    decide +kernel
  rcases ran : (runRandom wipeSetup 4).exec (.fresh ⟨id, ()⟩ fun _ => ⟨2024, 5, 17, 9, 30, 0, 0⟩) with ⟨exc | _, s⟩
  · rw [ran] at facts
    cases facts.1
  · rw [ran] at facts
    obtain ⟨t, run, rfl⟩ := runRandom_reaches wipeSetup 4 ⟨id, ()⟩ (fun _ => ⟨2024, 5, 17, 9, 30, 0, 0⟩) ran
    exact ⟨t, run, facts.2, randomRun_accounted_iff wipeSetup _ _ .left t run⟩

/-- A destructive class that does not heal. -/
def stuckClass : ActionClass Unit Unit where
  name := "stuck"
  healable := true
  destructive := true
  init _ _ _ _ _ := .ok (.custom ())
  execute := Method.pass
  heal := (throw .timeoutError : Proc _ PyExc Unit)
  ordinal _ := 0
  serialize _ := ""
  deserialize _ _ _ _ := .ok (.custom ())

/-- The engine over that class alone. -/
def stuckSetup : Setup Unit Unit where
  config := { faultTypes := ["stuck"] }
  registry := Dict.empty.set "stuck" stuckClass
  dcMap := Dict.empty

/-- That engine after the heals of its first cycle. -/
def stuckRun : Except PyExc Unit × FaultEngine Unit Unit :=
  (runRandom stuckSetup 2).exec (.fresh ⟨id, ()⟩ fun _ => ⟨2024, 5, 17, 9, 30, 0, 0⟩)

/-- The list of active faults is empty, and the counter is not. -/
theorem stuckRun_not_accounted :
    ¬ ∀ point s, RandomRun stuckSetup ⟨id, ()⟩ (fun _ => ⟨2024, 5, 17, 9, 30, 0, 0⟩) (point, s) →
      Accounted stuckSetup s := by
  intro accounted
  have drifted : stuckRun.1.isOk = true ∧
      stuckRun.2.destructiveCount ≠ stuckRun.2.activeFaults.countP (·.cls.destructive) := by
    decide +kernel
  rcases ran : stuckRun with ⟨exc | _, s⟩
  · rw [ran] at drifted
    cases drifted.1
  · obtain ⟨t, run, closed⟩ := runRandom_reaches stuckSetup 2 ⟨id, ()⟩ (fun _ => ⟨2024, 5, 17, 9, 30, 0, 0⟩) ran
    rw [ran, closed] at drifted
    exact drifted.2 (accounted .left t run).count

end Active

end FaultEngine

end FaultStorm
