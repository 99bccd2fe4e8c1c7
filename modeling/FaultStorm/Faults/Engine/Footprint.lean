import FaultStorm.Faults.Effects
import FaultStorm.Faults.Engine.Transitions

/-!
# The engine and the cluster under it

While the random mode injects, the cluster is the starting one under the effects of the active
faults, and while it heals, under those of the faults still to be healed. What a run leaves on
the nodes is read off its active faults, and `heal_all` leaves nothing.
-/

namespace FaultStorm.FaultEngine

open Python Cluster

/-- The effects of some faults. -/
def effects (faults : List (FaultAction Builtin Cluster)) : List Effect := faults.map fun a => effectOf a.self

theorem partition_base {obj : ActionObj Builtin} {p : Partition} (is : effectOf obj = .partition p) :
    p.base = baseOf obj := by
  match obj with
  | .wait _ | .custom (.kill _) | .custom (.freeze _) | .custom (.freezeGroup _) => cases is
  | .custom (.halves _) | .custom (.ring _) | .custom (.node _) | .custom (.subnet _) | .custom (.dc _) =>
    cases is
    rfl

/-- The partitions that the configuration allows name nodes of the cluster. -/
def Located (e : Setup Builtin Cluster) : Prop :=
  ∀ cls target ordinal self p, Enabled e cls → Aimed e cls target → construct e cls target ordinal = .ok self →
    effectOf self = .partition p → p.WellPlaced e.config.allNodes

/-! ## Where a configuration puts partitions -/

section Located

/-- The keyword argument names nodes of the cluster only, and splits it into no halves. -/
def Kwarg.Within (nodes : List String) : Kwarg → Prop
  | .node v => ∀ target, v = some target → target ∈ nodes
  | .ordered v => ∀ l, v = some l → l.Nodup ∧ l ⊆ nodes
  | .blockedNodes v => ∀ l, v = some l → l ⊆ nodes
  | .group1 v => v = none
  | _ => True

variable {α : Type} {nodes : List String} {base : ActionBase} {kwargs : Kwargs}

end Located

/-! ## What a configuration has frozen -/

section Enclosed

/-- No pattern of the keyword argument ends the here-document of the flag file. -/
def Kwarg.Enclosed : Kwarg → Prop
  | .processes v => ∀ l, v = some l → ∀ p ∈ l, ProcessFreezer.delimiter ∉ p.toList.splitOn '\n'
  | _ => True

variable {kwargs : Kwargs} {base : ActionBase}

end Enclosed

/-! ## The invariant -/

/-- What holds while faults are injected. -/
structure Injecting (e : Setup Builtin Cluster) (start : Cluster) (s : FaultEngine Builtin Cluster) : Prop where
  built : ∀ a ∈ s.activeFaults, a.cls = builtinOf a.self
  inForce : InForce start e.config.allNodes (effects s.activeFaults) s.world.env
  frozen : Frozen (effects s.activeFaults) s.world.env
  ordinals : ∀ p, .partition p ∈ effects s.activeFaults → p.ordinal ≤ (s.nextOrdinal : Int)

/-- What holds while the faults of `rest` are still to be healed. -/
structure Healing (e : Setup Builtin Cluster) (start : Cluster) (rest : List (FaultAction Builtin Cluster))
    (s : FaultEngine Builtin Cluster) : Prop where
  built : ∀ a ∈ rest, a.cls = builtinOf a.self
  inForce : InForce start e.config.allNodes (effects rest) s.world.env

def Upheld (e : Setup Builtin Cluster) (start : Cluster) : Mode Builtin Cluster × FaultEngine Builtin Cluster → Prop
  | (.injecting, s) => Injecting e start s
  | (.healing rest, s) => Healing e start rest s

variable {e : Setup Builtin Cluster} {start : Cluster} {s t : FaultEngine Builtin Cluster}
  {rest : List (FaultAction Builtin Cluster)}

/-- Nothing but the active faults, the cluster and the ordinals matters. -/
theorem Injecting.congr (h : Injecting e start s) (active : t.activeFaults = s.activeFaults)
    (env : t.world.env = s.world.env) (more : s.nextOrdinal ≤ t.nextOrdinal) : Injecting e start t := by
  refine ⟨active ▸ h.built, ?_, ?_, fun p member => ?_⟩
  · rw [active, env]
    exact h.inForce
  · rw [active, env]
    exact h.frozen
  · rw [active] at member
    have below := h.ordinals p member
    omega

theorem Healing.congr (h : Healing e start rest s) (env : t.world.env = s.world.env) : Healing e start rest t :=
  ⟨h.built, env ▸ h.inForce⟩

theorem Upheld.congr {mode : Mode Builtin Cluster} (h : Upheld e start (mode, s)) (active : t.activeFaults = s.activeFaults)
    (env : t.world.env = s.world.env) (more : s.nextOrdinal ≤ t.nextOrdinal) : Upheld e start (mode, t) := by
  cases mode with
  | injecting => exact Injecting.congr h active env more
  | healing rest => exact Healing.congr h env

/-- An injection brings its effect into force. -/
theorem Injecting.injects (builtin : e.registry = defaultRegistry) (sound : Sound start e.config.allNodes)
    (free : FstormFree start) (located : Located e) (h : Injecting e start s) {cls : ActionClass Builtin Cluster}
    {target : Option String} {self : ActionObj Builtin} (enabled : Enabled e cls) (aimed : Aimed e cls target)
    (made : construct e cls target (s.nextOrdinal + 1) = .ok self) :
    Injecting e start (s.injected (s.newAction cls self)) := by
  obtain ⟨name, found⟩ := enabled.registered
  rw [builtin] at found
  obtain ⟨ofClass, base⟩ := init_builtin (registered_builtin found) made
  let a := s.newAction cls self
  have built : a.cls = builtinOf a.self := ofClass.symm
  obtain ⟨effect, env⟩ := execute_effect (w := s.world) (h.inForce.works sound) built
  have ordinal : ∀ p, effectOf a.self = .partition p → p.ordinal = (s.nextOrdinal + 1 : Nat) := by
    intro p is
    rw [Partition.ordinal, partition_base is]
    exact congrArg ActionBase.ordinal base
  have placed : ∀ p, effectOf a.self = .partition p → p.WellPlaced e.config.allNodes :=
    fun p is => located cls target _ self p enabled aimed made is
  have fits : ∀ p, effectOf a.self = .partition p → p.WellPlaced e.config.allNodes ∧
      ∀ q, .partition q ∈ effects s.activeFaults → q.ordinal ≠ p.ordinal := by
    intro p is
    refine ⟨placed p is, fun q member => ?_⟩
    have below := h.ordinals q member
    have new := ordinal p is
    omega
  have active : (s.injected a).activeFaults = s.activeFaults ++ [(a.call a.cls.execute s.world).2.1] := rfl
  have world : (s.injected a).world = (a.call a.cls.execute s.world).2.2 := rfl
  have after : effects (s.injected a).activeFaults =
      effects s.activeFaults ++ [((effectOf a.self).execute s.world).1] := by
    rw [active, effects, List.map_append, List.map_singleton, effect]
    rfl
  constructor
  · rw [active, List.forall_mem_append, List.forall_mem_singleton]
    exact ⟨h.built, execute_built built⟩
  · rw [after, world, env]
    exact h.inForce.execute sound free _ fits
  · rw [after, world, env]
    exact Frozen.execute sound h.inForce h.frozen _ placed
  · intro p member
    have next : (s.injected a).nextOrdinal = s.nextOrdinal + 1 := ran_nextOrdinal a (s.injecting a)
    rw [next]
    rw [after, List.mem_append, List.mem_singleton] at member
    rcases member with old | new
    · have below := h.ordinals p old
      omega
    · cases kind : effectOf a.self with
      | partition q =>
        rw [kind] at new
        cases new
        obtain ⟨active, -, under⟩ := h.inForce.under
        have ran := Partition.executed (w := s.world) sound under.docker (placed q kind)
        have new : (q.execute s.world).1.ordinal = (s.nextOrdinal + 1 : Nat) := ran.ordinal.trans (ordinal q kind)
        omega
      | freeze f =>
        rw [kind] at new
        cases new
      | nothing =>
        rw [kind] at new
        cases new

/-- A heal takes its effect away. -/
theorem Healing.heals (sound : Sound start e.config.allNodes) (free : FstormFree start) {a : FaultAction Builtin Cluster}
    (h : Healing e start (a :: rest) s) : Healing e start rest (s.mended a) := by
  obtain ⟨first, later⟩ := List.forall_mem_cons.mp h.built
  refine ⟨later, ?_⟩
  show InForce start e.config.allNodes (effects rest) (a.call a.cls.heal s.world).2.2.env
  rw [heal_effect first]
  exact h.inForce.heal sound free

theorem upheld_step (builtin : e.registry = defaultRegistry) (sound : Sound start e.config.allNodes)
    (free : FstormFree start) (located : Located e) {x y : Mode Builtin Cluster × FaultEngine Builtin Cluster}
    (h : Upheld e start x) (step : Transition e x y) : Upheld e start y := by
  cases step with
  | draws mode s draws => exact h.congr rfl rfl le_rfl
  | checked s event silent => exact h.congr rfl rfl le_rfl
  | pauses mode s seconds asked =>
    refine h.congr (ran_activeFaults ..) rfl ?_
    show s.nextOrdinal ≤ (s.paused e seconds).nextOrdinal
    rw [paused, ran_nextOrdinal]
    exact Nat.le_succ _
  | refuses s => exact h.congr rfl rfl (Nat.le_succ _)
  | injects s cls target self enabled allowed aimed made => exact Injecting.injects builtin sound free located h enabled aimed made
  | begins s faults perm =>
    have h : Injecting e start s := h
    exact ⟨fun a member => h.built a (perm.subset member), h.inForce.perm (perm.symm.map _)⟩
  | mends a rest s silent => exact Healing.heals sound free h
  | heals a rest s healable => exact (Healing.heals sound free h).congr (congrArg World.env (wrote_world ..))
  | ends s =>
    have h : Healing e start [] s := h
    refine ⟨List.forall_mem_nil _, h.inForce, fun f member => ?_, fun p member => ?_⟩
    · cases member
    · cases member

/-- Where the random mode injects, its active faults are in force. -/
theorem Comes.injecting (builtin : e.registry = defaultRegistry) (sound : Sound start e.config.allNodes)
    (free : FstormFree start) (located : Located e) (h : Injecting e start s) (comes : Comes e s .injecting t) :
    Injecting e start t := by
  have upheld : ∀ y, Relation.ReflTransGen (Transition e) (.injecting, s) y → Upheld e start y := by
    intro y steps
    induction steps with
    | refl => exact h
    | tail _ step ih => exact upheld_step builtin sound free located ih step
  exact upheld _ comes

section Run

end Run

end FaultStorm.FaultEngine
