import FaultStorm.Faults.Engine.Loop
import FaultStorm.Faults.Engine.Stages

/-!
# Random mode heals everything it injected

The stages a fault has gone through are read off the history. A fault the engine has
injected is either on the list of active faults, executed and not yet healed, or has been
healed once; `Awaiting` states this of any list, so that the loop of `_heal_all_active` has
it for the faults it has still to heal.
-/

namespace FaultStorm

open Python

variable {β ω : Type}

namespace FaultEngine

/-- `faults` are the faults in force: each is executed and not healed, every other injected
fault has been healed once, what else was started are the engine's own waits, and no ordinal
to come has been used. -/
structure Awaiting (faults : List (FaultAction β ω)) (s : FaultEngine β ω) : Prop where
  awaiting : ∀ a ∈ faults, stagesOf a.id s.history = inForce
  distinct : (faults.map (·.id)).Nodup
  settled : ∀ id, id ∉ faults.map (·.id) → .injected ∈ stagesOf id s.history →
    stagesOf id s.history = healedOnce
  own : ∀ a, .action .started a none ∈ s.history →
    .injected ∈ stagesOf a.id s.history ∨ a.cls = WaitAction.cls
  unused : ∀ id, s.nextOrdinal < id → stagesOf id s.history = []

/-- The list of active faults is the list of the faults in force. -/
def Tracked (s : FaultEngine β ω) : Prop := Awaiting s.activeFaults s

section Frames

variable {s t : FaultEngine β ω} {faults : List (FaultAction β ω)}

theorem Awaiting.congr (h : Awaiting faults s) (history : t.history = s.history)
    (ordinal : s.nextOrdinal ≤ t.nextOrdinal) : Awaiting faults t := by
  refine ⟨?_, h.distinct, ?_, ?_, ?_⟩
  · rw [history]; exact h.awaiting
  · rw [history]; exact h.settled
  · rw [history]; exact h.own
  · intro id later
    rw [history]
    exact h.unused id (by omega)

theorem Awaiting.perm {faults' : List (FaultAction β ω)} (h : Awaiting faults s) (p : faults'.Perm faults) :
    Awaiting faults' s where
  awaiting a member := h.awaiting a (p.mem_iff.mp member)
  distinct := (p.map _).nodup_iff.mpr h.distinct
  settled id outside := h.settled id fun member => outside ((p.map _).mem_iff.mpr member)
  own := h.own
  unused := h.unused

/-- Only the identities of the faults matter. -/
theorem Awaiting.ids {faults' : List (FaultAction β ω)} (h : Awaiting faults s)
    (same : faults'.map (·.id) = faults.map (·.id)) : Awaiting faults' s where
  awaiting a member := by
    have member' : a.id ∈ faults.map (·.id) := same ▸ List.mem_map_of_mem member
    obtain ⟨b, hb, eq⟩ := List.mem_map.mp member'
    rw [← eq]
    exact h.awaiting b hb
  distinct := same ▸ h.distinct
  settled := same ▸ h.settled
  own := h.own
  unused := h.unused

/-- A fault in force has used its ordinal. -/
theorem Awaiting.used (h : Awaiting faults s) {a : FaultAction β ω} (member : a ∈ faults) :
    a.id ≤ s.nextOrdinal := by
  by_contra later
  have := h.awaiting a member
  rw [h.unused a.id (by omega)] at this
  cases this

/-- The engine's own waits are no faults. -/
theorem Awaiting.paused (h : Awaiting faults s) (e : Setup β ω) (seconds : Int) :
    Awaiting faults (s.paused e seconds) := by
  have history := stagesOf_paused e seconds s
  have other : ∀ id, id ≠ s.nextOrdinal + 1 →
      stagesOf id (s.paused e seconds).history = stagesOf id s.history := by
    intro id ne
    rw [history, if_neg (Ne.symm ne), List.append_nil]
  have fresh := h.unused (s.nextOrdinal + 1) (by omega)
  have next : (s.paused e seconds).nextOrdinal = s.nextOrdinal + 1 := ran_nextOrdinal ..
  refine ⟨?_, h.distinct, ?_, ?_, ?_⟩
  · intro a member
    rw [other a.id (by have := h.used member; omega)]
    exact h.awaiting a member
  · intro id outside injected
    by_cases eq : id = s.nextOrdinal + 1
    · rw [history, if_pos eq.symm, eq, fresh] at injected
      simp at injected
    · rw [other id eq] at injected ⊢
      exact h.settled id outside injected
  · intro a started
    rw [FaultEngine.paused, ran_history, List.mem_append] at started
    rcases started with started | started
    · refine (h.own a started).imp_left fun injected => ?_
      rw [history]
      exact List.mem_append_left _ injected
    · have eq : a = waitAction e (s.nextOrdinal + 1) seconds := by simpa [execution] using started
      exact Or.inr (eq ▸ rfl)
  · intro id later
    rw [next] at later
    rw [other id (by omega)]
    exact h.unused id (by omega)

/-- Injecting a fault puts it among the faults in force. -/
theorem Awaiting.inject (h : Awaiting faults s) {a a' : FaultAction β ω} (fresh : a.id = s.nextOrdinal + 1)
    (same : a'.id = a.id) : Awaiting (faults ++ [a']) (s.injected a) := by
  have stages := stagesOf_injected a s
  have next : (s.injected a).nextOrdinal = s.nextOrdinal + 1 := ran_nextOrdinal ..
  have history : (s.injected a).history = s.history ++ [.action .injected a none] ++ execution a _ _ := rfl
  have other : ∀ id, id ≠ a.id → stagesOf id (s.injected a).history = stagesOf id s.history := by
    intro id ne
    rw [stages, if_neg (Ne.symm ne), List.append_nil]
  have ids : (faults ++ [a']).map (·.id) = faults.map (·.id) ++ [a.id] := by simp [same]
  have outside : a.id ∉ faults.map (·.id) := by
    intro member
    obtain ⟨b, hb, eq⟩ := List.mem_map.mp member
    have := h.used hb
    omega
  refine ⟨?_, ?_, ?_, ?_, ?_⟩
  · intro b member
    rcases List.mem_append.mp member with member | member
    · have ne : b.id ≠ a.id := fun eq => outside (eq ▸ List.mem_map_of_mem member)
      rw [other b.id ne]
      exact h.awaiting b member
    · rw [List.mem_singleton.mp member, same, stages, if_pos rfl, h.unused a.id (by omega)]
      rfl
  · rw [ids]
    exact List.Nodup.append h.distinct (List.nodup_singleton _) (List.disjoint_singleton.mpr outside)
  · intro id outside' injected
    rw [ids, List.mem_append, List.mem_singleton, not_or] at outside'
    rw [other id outside'.2] at injected ⊢
    exact h.settled id outside'.1 injected
  · intro b started
    rw [history, List.append_assoc, List.mem_append] at started
    rw [stages]
    rcases started with started | started
    · exact (h.own b started).imp_left (List.mem_append_left _)
    · have eq : b = a := by simpa [execution] using started
      rw [eq, if_pos rfl]
      exact Or.inl (List.mem_append_right _ (by decide))
  · intro id later
    rw [other id (by omega)]
    exact h.unused id (by omega)

/-- Healing a fault in force leaves the others in force. -/
theorem Awaiting.mended {a : FaultAction β ω} (h : Awaiting (a :: faults) s) : Awaiting faults (s.mended a) := by
  have stages := stagesOf_mended a s
  have other : ∀ id, id ≠ a.id → stagesOf id (s.mended a).history = stagesOf id s.history := by
    intro id ne
    rw [stages, if_neg (Ne.symm ne), List.append_nil]
  have distinct := List.nodup_cons.mp h.distinct
  refine ⟨?_, distinct.2, ?_, ?_, ?_⟩
  · intro b member
    have ne : b.id ≠ a.id := fun eq => distinct.1 (List.mem_map.mpr ⟨b, member, eq⟩)
    rw [other b.id ne]
    exact h.awaiting b (List.mem_cons_of_mem a member)
  · intro id outside injected
    by_cases eq : id = a.id
    · subst eq
      rw [stages, if_pos rfl, h.awaiting a List.mem_cons_self]
      rfl
    · rw [other id eq] at injected ⊢
      exact h.settled id (by simpa [eq] using outside) injected
  · intro b started
    have started : .action .started b none ∈ s.history ++ healingOf a _ _ := started
    have started : .action .started b none ∈ s.history := by simpa [healingOf] using started
    rw [stages]
    exact (h.own b started).imp_left (List.mem_append_left _)
  · intro id later
    have used := h.used List.mem_cons_self
    have later' : s.nextOrdinal < id := later
    rw [other id (by omega)]
    exact h.unused id later'

end Frames

/-! ## The clean-up -/

section HealAll

open Proc

/-- Some faults are in force, whether or not the list of active faults says so. -/
def Settled (s : FaultEngine β ω) : Prop := ∃ faults, Awaiting faults s

/-- Every turn of the loop of `_heal_all_active` takes its fault out of force. -/
theorem awaiting_heals (e : Setup β ω) : Heals e Awaiting Settled where
  draws _ _ _ h := h.congr rfl le_rfl
  paused _ _ seconds _ h := h.paused e seconds
  mended _ _ _ _ h := h.mended
  logged _ _ _ _ h := h.mended.congr (wrote_history ..) (wrote_nextOrdinal ..).ge
  raised rest _ h := ⟨rest, h⟩

theorem Tracked.shuffled (s : FaultEngine β ω) (faults : List (FaultAction β ω)) (draws : Nat → Nat)
    (perm : faults.Perm s.activeFaults) (tracked : Tracked s) :
    Awaiting faults { s with world := { s.world with draws } } :=
  (Awaiting.perm tracked perm).congr rfl le_rfl

/-- Once no fault is in force, the list may be cleared. -/
theorem Awaiting.cleared {s : FaultEngine β ω} (h : ∃ t, Awaiting [] t ∧ s = { t with activeFaults := [] }) :
    s.activeFaults = [] ∧ Tracked s := by
  obtain ⟨t, awaiting, rfl⟩ := h
  exact ⟨rfl, awaiting.congr rfl le_rfl⟩

/-- `_heal_all_active` returns, and leaves no fault in force. -/
theorem healAllActive_empties (e : Setup β ω)
    (range : e.config.complexFaultMinWait ≤ e.config.complexFaultMaxWait) :
    Triple Tracked (healAllActive e) (fun _ s => s.activeFaults = [] ∧ Tracked s) (fun _ _ => False) :=
  ((awaiting_heals e).healAllActive_returns range Tracked.shuffled).conseq (fun _ h => h) (fun _ _ h => Awaiting.cleared h)
    fun _ _ h => h

end HealAll

/-! ## The whole run -/

section Run

open Proc

theorem Tracked.checked {s : FaultEngine β ω} {event : Event β ω} (tracked : Tracked s)
    (silent : Silent event) : Tracked { s with history := s.history ++ [event] } := by
  have history := fun id => stagesOf_silent id s.history silent
  refine ⟨?_, tracked.distinct, ?_, ?_, ?_⟩
  · intro a member
    exact (history a.id).trans (tracked.awaiting a member)
  · intro id outside injected
    have injected : Stage.injected ∈ stagesOf id (s.history ++ [event]) := injected
    rw [history] at injected
    exact (history id).trans (tracked.settled id outside injected)
  · intro a started
    have started : .action .started a none ∈ s.history ++ [event] := started
    have started : .action .started a none ∈ s.history := by
      simpa [(silent .started a none).symm] using started
    exact (tracked.own a started).imp_left fun injected => (history a.id).symm ▸ injected
  · intro id later
    exact (history id).trans (tracked.unused id later)

theorem Tracked.paused {s : FaultEngine β ω} (tracked : Tracked s) (e : Setup β ω) (seconds : Int) :
    Tracked (s.paused e seconds) := by
  have active : (s.paused e seconds).activeFaults = s.activeFaults := ran_activeFaults ..
  unfold Tracked
  rw [active]
  exact Awaiting.paused tracked e seconds

/-- The list of active faults stays true through the random mode. -/
theorem tracked_preserved (e : Setup β ω)
    (range : e.config.complexFaultMinWait ≤ e.config.complexFaultMaxWait) :
    Preserved e Tracked where
  draws _ _ _ tracked := Awaiting.congr tracked rfl le_rfl
  checked _ _ silent tracked := tracked.checked silent
  paused _ _ seconds _ tracked := tracked.paused e seconds
  refused _ _ _ _ tracked := Awaiting.congr tracked rfl (Nat.le_succ _)
  injected _ _ _ _ _ _ _ _ _ _ tracked :=
    Awaiting.inject tracked rfl (executed_id _ _)
  healed := (healAllActive_empties e range).conseq (fun _ h => h) (fun _ _ h => h.2) fun _ _ h => h.elim

theorem fresh_tracked (world : World ω) (clock : Nat → DateTime) :
    Tracked (FaultEngine.fresh world clock : FaultEngine β ω) where
  awaiting a member := by cases member
  distinct := List.nodup_nil
  settled id _ injected := by cases injected
  own a started := by cases started
  unused _ _ := rfl

/-- After the random mode and `heal_all`, wherever the run was stopped, whatever `execute`
and `heal` raised, and whatever happened to the cluster in between, no fault is active, and
every action started has been healed once, after its execution, the engine's own waits
excepted. -/
theorem runRandom_healAll (e : Setup β ω)
    (range : e.config.complexFaultMinWait ≤ e.config.complexFaultMaxWait) (stopAt : Nat)
    (world world' : World ω) (clock clock' : Nat → DateTime) :
    ∃ s, (healAll e).exec { ((runRandom e stopAt).exec (.fresh world clock)).2 with
        world := world', clock := clock' } = (.ok (), s) ∧
      s.activeFaults = [] ∧
      ∀ a, .action .started a none ∈ s.history →
        stagesOf a.id s.history = healedOnce ∨
          (.injected ∉ stagesOf a.id s.history ∧ a.cls = WaitAction.cls) := by
  have tracked := ((tracked_preserved e range).runRandom_keeps
    (fun _ tracked => Awaiting.congr tracked rfl le_rfl)
    (fun _ tracked => Awaiting.congr tracked rfl le_rfl) stopAt).final (fresh_tracked world clock)
  have healed := healAllActive_empties e range
    { ((runRandom e stopAt).exec (.fresh world clock)).2 with world := world', clock := clock' }
    (Awaiting.congr tracked rfl le_rfl)
  unfold healAll
  rcases run : (healAllActive e).exec _ with ⟨exc | _, s⟩ <;> rw [run] at healed
  · exact healed.elim
  · obtain ⟨empty, awaiting⟩ := healed
    rw [Tracked, empty] at awaiting
    refine ⟨s, rfl, empty, fun a started => ?_⟩
    by_cases injected : .injected ∈ stagesOf a.id s.history
    · exact Or.inl (awaiting.settled a.id List.not_mem_nil injected)
    · exact Or.inr ⟨injected, (awaiting.own a started).resolve_left injected⟩

/-- A healable class both methods of which raise. -/
def brokenClass : ActionClass Unit Unit where
  name := "broken"
  healable := true
  init _ _ _ _ _ := .ok (.custom ())
  execute := (throw .runtimeError : Proc _ PyExc Unit)
  heal := (throw .timeoutError : Proc _ PyExc Unit)
  ordinal _ := 0
  serialize _ := ""
  deserialize _ _ _ _ := .ok (.custom ())

/-- The engine over that class alone, with the default waits. -/
def brokenSetup : Setup Unit Unit where
  config := { faultTypes := ["broken"] }
  registry := Dict.empty.set "broken" brokenClass
  dcMap := Dict.empty

/-- That engine after a run that was stopped in the active wait of its second cycle, some
time having passed. -/
def brokenRun : FaultEngine Unit Unit :=
  { ((runRandom brokenSetup 3).exec (.fresh ⟨id, ()⟩ fun _ => ⟨2024, 5, 17, 9, 30, 0, 0⟩)).2 with
    world := ⟨id, ()⟩, clock := fun _ => ⟨2024, 5, 17, 9, 40, 0, 0⟩ }

theorem brokenRun_healAll :
    ∃ s, (healAll brokenSetup).exec brokenRun = (.ok (), s) ∧ s.activeFaults = [] ∧
      ∀ a, .action .started a none ∈ s.history →
        stagesOf a.id s.history = healedOnce ∨
          (.injected ∉ stagesOf a.id s.history ∧ a.cls = WaitAction.cls) :=
  runRandom_healAll brokenSetup (by decide) 3 ⟨id, ()⟩ ⟨id, ()⟩
    (fun _ => ⟨2024, 5, 17, 9, 30, 0, 0⟩) fun _ => ⟨2024, 5, 17, 9, 40, 0, 0⟩

end Run

end FaultEngine

end FaultStorm
