import FaultStorm.Faults.Aimed
import FaultStorm.Faults.Engine.Loop
import FaultStorm.Faults.Engine.Replay
import Mathlib.Algebra.Order.BigOperators.Group.List
import Mathlib.Algebra.Order.Ring.Nat

/-!
# How many faults are active at once

An injection adds a single fault, or up to three that are aimed at one database node. A cycle makes
a fixed number of injections, and begins with nothing active. So at every point of a random run the
active faults fall into as many groups as injections have been made.
-/

namespace FaultStorm.FaultEngine

open Python Proc

variable {e : Setup Builtin Cluster}

/-- The action comes from an enabled class, and strikes the node it was to be aimed at. -/
structure Member (e : Setup Builtin Cluster) (target : Option String) (a : FaultAction Builtin Cluster) : Prop where
  enabled : Enabled e a.cls
  aimed : ∀ node, target = some node →
    a.cls.hostTargetable = true ∧ aimOf a.self = some node ∧ (effectOf a.self).Strikes node

/-- What one injection adds: at most one fault, or at most three that strike one database node. -/
inductive Group (e : Setup Builtin Cluster) (g : List (FaultAction Builtin Cluster)) : Prop
  | single (few : g.length ≤ 1) (members : ∀ a ∈ g, Member e none a)
  | combined (complex : e.config.complexFaultsEnabled = true) (few : g.length ≤ 3) (node : String)
      (known : node ∈ e.config.dbNodes) (members : ∀ a ∈ g, Member e (some node) a)

/-- The active faults are those of at most so many injections. -/
def Grouped (e : Setup Builtin Cluster) (n : Nat) (s : FaultEngine Builtin Cluster) : Prop :=
  ∃ groups : List (List (FaultAction Builtin Cluster)),
    s.activeFaults = groups.flatten ∧ groups.length ≤ n ∧ ∀ g ∈ groups, Group e g

section Grouped

variable {n : Nat} {s t : FaultEngine Builtin Cluster}

theorem Grouped.mono (h : Grouped e n s) {m : Nat} (more : n ≤ m) : Grouped e m s := by
  obtain ⟨groups, active, few, known⟩ := h
  exact ⟨groups, active, few.trans more, known⟩

theorem Grouped.congr (h : Grouped e n s) (active : t.activeFaults = s.activeFaults) : Grouped e n t := by
  obtain ⟨groups, flat, few, known⟩ := h
  exact ⟨groups, active.trans flat, few, known⟩

theorem Grouped.none (empty : s.activeFaults = []) : Grouped e n s :=
  ⟨[], empty, Nat.zero_le n, List.forall_mem_nil _⟩

theorem length_flatten_le {α : Type} {k : Nat} {groups : List (List α)} (few : ∀ g ∈ groups, g.length ≤ k) :
    groups.flatten.length ≤ groups.length * k := by
  rw [List.length_flatten]
  calc (groups.map List.length).sum ≤ (groups.map List.length).length • k := by
        apply List.sum_le_card_nsmul
        simpa using few
    _ = groups.length * k := by rw [List.length_map, nsmul_eq_mul, Nat.cast_id]

theorem Grouped.length (h : Grouped e n s) : s.activeFaults.length ≤ 3 * n ∧
    (e.config.complexFaultsEnabled = false → s.activeFaults.length ≤ n) := by
  obtain ⟨groups, active, few, known⟩ := h
  rw [active]
  constructor
  · have least : groups.flatten.length ≤ groups.length * 3 := length_flatten_le fun g member => by
      cases known g member <;> omega
    omega
  · intro simple
    have least : groups.flatten.length ≤ groups.length * 1 := length_flatten_le fun g member => by
      cases known g member with
      | single few _ => exact few
      | combined complex _ _ _ _ =>
        rw [simple] at complex
        cases complex
    omega

end Grouped

/-! ## An injection -/

section Injection

variable {cls : ActionClass Builtin Cluster} {target : Option String}

/-- The action that was constructed and executed is a member. -/
theorem Member.executed (builtin : e.registry = defaultRegistry) (enabled : Enabled e cls) (aimed : Aimed e cls target)
    {s : FaultEngine Builtin Cluster} {self : ActionObj Builtin}
    (made : construct e cls target (s.nextOrdinal + 1) = .ok self) (t : FaultEngine Builtin Cluster) :
    Member e target (t.executed (s.newAction cls self)) := by
  have among : cls ∈ builtinClasses := by
    obtain ⟨name, found⟩ := enabled.registered
    rw [builtin] at found
    exact registered_builtin found
  refine ⟨enabled, fun node same => ?_⟩
  subst same
  obtain ⟨-, targetable⟩ := aimed node rfl
  have built : cls = builtinOf self := (init_builtin among made).1.symm
  have points : aimOf self = some node := init_aimOf among targetable made
  have still := @execute_aimOf node (s.newAction cls self) t.world built points
  exact ⟨targetable, still, strikes_of_aimOf still⟩

/-- The faults of at most `n` injections are active, and besides the first of an injection that has
`faults` still to come. -/
def Growing (e : Setup Builtin Cluster) (n : Nat) (target : Option String) (faults : Nat)
    (s : FaultEngine Builtin Cluster) : Prop :=
  ∃ (groups : List (List (FaultAction Builtin Cluster))) (g : List (FaultAction Builtin Cluster)) (faultCount : Nat),
    s.activeFaults = groups.flatten ++ g ∧ groups.length ≤ n ∧ (∀ h ∈ groups, Group e h) ∧ Planned e target faultCount ∧
      g.length + faults ≤ faultCount ∧ ∀ a ∈ g, Member e target a

variable {n faults : Nat} {s t : FaultEngine Builtin Cluster}

theorem Growing.congr (h : Growing e n target faults s) (active : t.activeFaults = s.activeFaults) :
    Growing e n target faults t := by
  obtain ⟨groups, g, faultCount, same, rest⟩ := h
  exact ⟨groups, g, faultCount, active.trans same, rest⟩

theorem Grouped.begin (h : Grouped e n s) (planned : Planned e target faults) : Growing e n target faults s := by
  obtain ⟨groups, active, few, known⟩ := h
  refine ⟨groups, [], faults, ?_, few, known, planned, (Nat.zero_add faults).le, List.forall_mem_nil _⟩
  rw [List.append_nil]
  exact active

/-- The faults of one injection are a group. -/
theorem Planned.group {g : List (FaultAction Builtin Cluster)} {faultCount : Nat} (planned : Planned e target faultCount)
    (few : g.length ≤ faultCount) (members : ∀ a ∈ g, Member e target a) : Group e g := by
  cases planned with
  | single => exact .single few members
  | combined complex node known faultCount some most => exact .combined complex (few.trans most) node known members

theorem Growing.grouped (h : Growing e n target faults s) : Grouped e (n + 1) s := by
  obtain ⟨groups, g, faultCount, active, few, known, planned, count, members⟩ := h
  refine ⟨groups ++ [g], ?_, ?_, ?_⟩
  · rw [active, List.flatten_append, List.flatten_singleton]
  · rw [List.length_append]
    exact Nat.succ_le_succ few
  · intro h member
    rcases List.mem_append.mp member with old | new
    · exact known h old
    · rw [List.mem_singleton.mp new]
      exact planned.group ((Nat.le_add_right ..).trans count) members

theorem Growing.injected (builtin : e.registry = defaultRegistry) (h : Growing e n target (faults + 1) s)
    (enabled : Enabled e cls) (aimed : Aimed e cls target) {self : ActionObj Builtin}
    (built : construct e cls target (s.nextOrdinal + 1) = .ok self) :
    Growing e n target faults (s.injected (s.newAction cls self)) := by
  obtain ⟨groups, g, faultCount, active, few, known, planned, count, members⟩ := h
  refine ⟨groups, g ++ [(s.injecting (s.newAction cls self)).executed (s.newAction cls self)], faultCount, ?_, few, known,
    planned, ?_, ?_⟩
  · show s.activeFaults ++ _ = _
    rw [active, List.append_assoc]
  · rw [List.length_append, List.length_singleton]
    omega
  · intro a member
    rcases List.mem_append.mp member with old | new
    · exact members a old
    · rw [List.mem_singleton.mp new]
      exact .executed builtin enabled aimed built _

end Injection

/-! ## A run -/

/-- How many of the `total` injections of a cycle have been made. -/
def Point.injected (total : Nat) : Point → Nat
  | .head | .pause => 0
  | .inject remaining | .gap remaining => total - remaining
  | .check | .heal | .left | .raised => total

/-- The groups while injections are being made. -/
def Gathering (e : Setup Builtin Cluster) (total : Nat) : Injection → FaultEngine Builtin Cluster → Prop
  | .between calls, s => calls ≤ total ∧ Grouped e (total - calls) s
  | .within calls target faults, s => calls < total ∧ Growing e (total - (calls + 1)) target faults s

section Run

theorem Gathering.congr {total : Nat} {place : Injection} {s t : FaultEngine Builtin Cluster} (h : Gathering e total place s)
    (active : t.activeFaults = s.activeFaults) : Gathering e total place t := by
  cases place with
  | between calls => exact ⟨h.1, h.2.congr active⟩
  | within calls target faults => exact ⟨h.1, h.2.congr active⟩

theorem Gathering.grouped {total : Nat} {place : Injection} {s : FaultEngine Builtin Cluster}
    (h : Gathering e total place s) : Grouped e total s := by
  cases place with
  | between calls => exact h.2.mono (Nat.sub_le _ _)
  | within calls target faults => exact h.2.grouped.mono (by have := h.1; omega)

/-- A clean-up that returns leaves nothing active. -/
theorem healAllActive_clears (P : FaultEngine Builtin Cluster → Prop) :
    Triple P (healAllActive e) (fun _ s => s.activeFaults = []) (fun _ _ => True) := by
  have heals : Heals e (fun _ _ => True) fun _ => True :=
    ⟨fun _ _ _ h => h, fun _ _ _ _ h => h, fun _ _ _ _ h => h, fun _ _ _ _ h => h, fun _ _ h => h⟩
  refine (heals.healAllActive_upholds fun _ _ _ _ h => h).conseq (fun _ _ => trivial) ?_ fun _ _ h => h
  rintro _ _ ⟨t, -, rfl⟩
  rfl

theorem grouped_cycles (builtin : e.registry = defaultRegistry) :
    Cycles e (Gathering e e.config.parallelFaultsCount.toNat)
      (fun point => Grouped e (point.injected e.config.parallelFaultsCount.toNat)) fun _ => True where
  draws _ _ _ h := h.congr rfl
  paused _ _ _ _ h := h.congr (ran_activeFaults ..)
  begins _ _ _ _ planned h := ⟨h.1, (h.2.congr rfl).begin planned⟩
  refused _ _ _ _ h := (Gathering.grouped h).congr rfl
  injected _ _ _ _ _ _ enabled _ aimed built h := ⟨h.1, h.2.injected builtin enabled aimed built⟩
  done calls _ _ _ h := by
    refine ⟨h.1.le, ((h.2.grouped).congr rfl).mono ?_⟩
    have := h.1
    omega
  raised _ _ h := h.grouped
  enters _ h := ⟨Nat.le_refl _, (h.congr rfl).mono (Nat.zero_le _)⟩
  leaves _ h := (h.congr rfl).mono (Nat.zero_le _)
  waits _ h := h.2.congr (ran_activeFaults ..)
  carriesOn _ h := h.congr rfl
  stops _ h := h.congr rfl
  heals := (healAllActive_clears _).conseq (fun _ h => h) (fun _ _ h => .none h) fun _ _ h => h
  rests _ h := h.congr (ran_activeFaults ..)
  fails _ _ := trivial

variable {world : World Cluster} {clock : Nat → DateTime} {p : Point} {s : FaultEngine Builtin Cluster}

/-- At every point of a random run with the built-in faults, whatever docker does, the active faults
fall into groups, no more than the injections made in this cycle: at most `parallel_faults_count`, and
none once the cycle has been healed. Each group is a single fault, or up to three that strike one
database node. -/
theorem randomRun_grouped (builtin : e.registry = defaultRegistry) (run : RandomRun e world clock (p, s)) :
    Grouped e (p.injected e.config.parallelFaultsCount.toNat) s ∧
      s.activeFaults.length ≤ 3 * p.injected e.config.parallelFaultsCount.toNat ∧
      (e.config.complexFaultsEnabled = false →
        s.activeFaults.length ≤ p.injected e.config.parallelFaultsCount.toNat) := by
  obtain ⟨faultClasses, found, reached⟩ := run
  have kept := (grouped_cycles builtin).reaches (chosen_of_getClasses found) reached (.none rfl)
  have grouped : Grouped e (p.injected e.config.parallelFaultsCount.toNat) s := by
    cases p with
    | inject remaining => exact kept.2
    | gap remaining => exact kept.2
    | _ => exact kept
  exact ⟨grouped, grouped.length⟩

/-- Two combinations of two faults each. -/
theorem pairSetup_grouped :
    ∃ s, RandomRun pairSetup ⟨(2 * ·), idleCluster⟩ (fun _ => ⟨2024, 5, 17, 9, 30, 0, 0⟩) (.left, s) ∧
      s.activeFaults.length = 4 ∧ Grouped pairSetup 2 s := by
  have facts : let ran := (runRandom pairSetup 1).exec (.fresh ⟨(2 * ·), idleCluster⟩ fun _ => ⟨2024, 5, 17, 9, 30, 0, 0⟩)
      ran.1.isOk = true ∧ ran.2.activeFaults.length = 4 := by
    decide +kernel
  rcases ran : (runRandom pairSetup 1).exec (.fresh ⟨(2 * ·), idleCluster⟩ fun _ => ⟨2024, 5, 17, 9, 30, 0, 0⟩) with ⟨exc | _, s⟩
  · rw [ran] at facts
    cases facts.1
  · rw [ran] at facts
    obtain ⟨t, run, rfl⟩ := runRandom_reaches pairSetup 1 ⟨(2 * ·), idleCluster⟩ (fun _ => ⟨2024, 5, 17, 9, 30, 0, 0⟩) ran
    exact ⟨t, run, facts.2, (randomRun_grouped rfl run).1⟩

end Run

end FaultStorm.FaultEngine
