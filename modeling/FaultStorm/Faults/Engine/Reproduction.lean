import FaultStorm.Faults.Engine.Lines
import FaultStorm.Faults.Resolve

/-!
# What a replay does to the cluster

An action whose parameters are set draws no random number: what its calls do is a program of
docker calls. The cluster at the end of a random run is then what the lines of its log do one
after the other, whichever docker calls fail, and a replay of the log comes to the same cluster.
-/

namespace FaultStorm

open Python Proc

/-! ## Calls as programs -/

/-- What `execute()` of an object does where its parameters are set. -/
def setUp : ActionObj Builtin → ClusterM Unit
  | .wait _ => pure ()
  | .custom (.kill a) => swallow (ClusterManager.execOnNode (strOrEmpty a.node) (.pkill (strOrEmpty a.process)))
  | .custom (.halves a) => (Partition.halves a).program
  | .custom (.ring a) => (Partition.ring a).program
  | .custom (.node a) => (Partition.node a).program
  | .custom (.subnet a) => (Partition.subnet a).program
  | .custom (.dc a) => (Partition.dc a).program
  | .custom (.freeze a) => a.writeFlagToNodes [strOrEmpty a.node]
  | .custom (.freezeGroup a) => a.writeFlagToNodes a.targetNodes

/-- What `heal()` does. -/
def tearDown : ActionObj Builtin → ClusterM Unit
  | .wait _ | .custom (.kill _) => pure ()
  | .custom (.halves a) => Partitioners.healPartition a.ordinal a.allNodes
  | .custom (.ring a) => Partitioners.healPartition a.ordinal a.allNodes
  | .custom (.node a) => Partitioners.healPartition a.ordinal a.allNodes
  | .custom (.subnet a) => match a.node with
    | none => pure ()
    | some node => Partitioners.healDirectionalPartition a.ordinal node a.getIptablesDirections
  | .custom (.dc a) => Partitioners.healPartition a.ordinal a.allNodes
  | .custom (.freeze a) => match a.node with
    | none => pure ()
    | some node => BaseFreezeAction.removeFlagFromNodes [node]
  | .custom (.freezeGroup a) => BaseFreezeAction.removeFlagFromNodes a.targetNodes

/-- The cluster after an action was executed or, marked `true`, healed. -/
def played (c : Cluster) (turn : FaultAction Builtin Cluster × Bool) : Cluster :=
  (exec (if turn.2 then tearDown turn.1.self else setUp turn.1.self) c).2

section Calls

variable {dbNodes extraNodes : List String} {dcMap : DcMap} {a : FaultAction Builtin Cluster} {w : World Cluster}

/-- A partition that is left as it was has run its program. -/
theorem Partition.execute_env_of_kept {p : Partition} (kept : (p.execute w).1 = p) :
    (p.execute w).2.env = (exec p.program w.env).2 := by
  obtain ⟨-, later, ran⟩ := p.ran_execute w
  have same : p.drawn w.draws = p := by
    rw [ran] at kept
    exact kept
  rw [ran, same]

theorem KillProcessAction.execute_world {a : KillProcessAction} (preset : a.Preset) :
    (exec execute (a, w)).2.2.env = (exec (setUp (.custom (.kill a))) w.env).2 := by
  obtain ⟨⟨p, process, _⟩, ⟨n, node, _⟩⟩ := preset
  unfold execute
  rw [exec_bind_ok (exec_choose_set (by rw [process]; rfl)), exec_bind_ok (exec_choose_set (by rw [node]; rfl)),
    exec_bind_ok (exec_this _)]
  rfl

theorem FreezeProcessesAction.execute_world {a : FreezeProcessesAction} (preset : a.Preset) :
    (exec execute (a, w)).2.2.env = (exec (setUp (.custom (.freeze a))) w.env).2 := by
  obtain ⟨_, n, node, _⟩ := preset
  have targets : exec resolveTargets (a, w) = (.ok [strOrEmpty a.node], a, w) := by
    unfold resolveTargets
    rw [exec_bind_ok (exec_choose_set (by rw [node]; rfl)), exec_bind_ok (exec_this _)]
    rfl
  unfold execute
  rw [exec_bind_ok targets, exec_bind_ok (exec_this _)]
  rfl

theorem FreezeProcessesGroupAction.execute_world {a : FreezeProcessesGroupAction} (preset : a.Preset) :
    (exec execute (a, w)).2.2.env = (exec (setUp (.custom (.freezeGroup a))) w.env).2 := by
  obtain ⟨_, g, group, _⟩ := preset
  have targets : exec resolveTargets (a, w) = (.ok a.targetNodes, a, w) := by
    unfold resolveTargets
    rw [exec_bind_ok (exec_this _), if_neg (by simp [group]), exec_bind_ok (exec_this _)]
    rfl
  unfold execute
  rw [exec_bind_ok targets]
  by_cases nobody : a.targetNodes.isEmpty = true
  · have none_written : setUp (.custom (.freezeGroup a)) = pure () := by
      rw [setUp, List.isEmpty_iff.mp nobody]
      rfl
    rw [if_pos nobody, none_written]
    rfl
  · rw [if_neg nobody, exec_bind_ok (exec_this _)]
    rfl

namespace Fixed

/-- `execute()` of a fixed action does what its parameters say. -/
theorem execute_world (fixed : Fixed dbNodes extraNodes dcMap a) :
    (a.call a.cls.execute w).2.2.env = (exec (setUp a.self) w.env).2 := by
  obtain ⟨id, cls, self⟩ := a
  obtain ⟨same, _, _, _, preset⟩ := fixed
  obtain rfl : cls = builtinOf self := same
  match self with
  | .wait _ => rfl
  | .custom (.kill _) => exact KillProcessAction.execute_world preset
  | .custom (.halves a) =>
    have kept := congrArg Partition.halves (PartitionRandomHalvesAction.execute_keeps preset w)
    exact Partition.execute_env_of_kept (p := .halves a) kept
  | .custom (.ring a) =>
    have kept := congrArg Partition.ring (PartitionMajoritiesRingAction.execute_keeps preset w)
    exact Partition.execute_env_of_kept (p := .ring a) kept
  | .custom (.node a) =>
    have kept := congrArg Partition.node (PartitionRandomNodeAction.execute_keeps preset w)
    exact Partition.execute_env_of_kept (p := .node a) kept
  | .custom (.subnet a) =>
    have kept := congrArg Partition.subnet (PartitionRandomSubnetAction.execute_keeps preset w)
    exact Partition.execute_env_of_kept (p := .subnet a) kept
  | .custom (.dc a) =>
    have kept := congrArg Partition.dc (PartitionRandomDcAction.execute_keeps preset w)
    exact Partition.execute_env_of_kept (p := .dc a) kept
  | .custom (.freeze _) => exact FreezeProcessesAction.execute_world preset
  | .custom (.freezeGroup _) => exact FreezeProcessesGroupAction.execute_world preset

/-- So does `heal()` of any action. -/
theorem heal_world (same : a.cls = builtinOf a.self) :
    (a.call a.cls.heal w).2.2.env = (exec (tearDown a.self) w.env).2 := by
  obtain ⟨id, cls, self⟩ := a
  obtain rfl : cls = builtinOf self := same
  match self with
  | .wait _ | .custom (.kill _) | .custom (.halves _) | .custom (.ring _) | .custom (.node _) | .custom (.dc _)
  | .custom (.freezeGroup _) => rfl
  | .custom (.subnet ⟨_, none, _, _, _⟩) | .custom (.subnet ⟨_, some _, _, _, _⟩) => rfl
  | .custom (.freeze ⟨_, none⟩) | .custom (.freeze ⟨_, some _⟩) => rfl

theorem tearDown_unhealable (same : a.cls = builtinOf a.self) (silent : a.cls.healable = false) :
    tearDown a.self = pure () := by
  obtain ⟨id, cls, self⟩ := a
  obtain rfl : cls = builtinOf self := same
  match self with
  | .wait _ | .custom (.kill _) => rfl
  | .custom (.halves _) | .custom (.ring _) | .custom (.node _) | .custom (.subnet _) | .custom (.dc _)
  | .custom (.freeze _) | .custom (.freezeGroup _) => cases silent

end Fixed

end Calls

/-! ## A random run -/

namespace FaultEngine

variable {e : Setup Builtin Cluster} {start : Cluster} {s t : FaultEngine Builtin Cluster}
  {a : FaultAction Builtin Cluster} {pending : List (FaultAction Builtin Cluster)}

/-- The lines written so far are those of fixed actions, and the cluster is what they have done. -/
structure Played (e : Setup Builtin Cluster) (start : Cluster) (s : FaultEngine Builtin Cluster) : Prop where
  active : ∀ a ∈ s.activeFaults, FixedIn e a
  logged : ∀ x ∈ loggedOf s.history, FixedIn e x.1
  env : s.world.env = (loggedOf s.history).foldl played start

namespace Played

theorem congr (h : Played e start s) (active : ∀ a ∈ t.activeFaults, FixedIn e a) (env : t.world.env = s.world.env)
    (same : loggedOf t.history = loggedOf s.history) : Played e start t := by
  refine ⟨active, ?_, ?_⟩
  · rw [same]
    exact h.logged
  · rw [env, same]
    exact h.env

/-- One more line. -/
theorem line (h : Played e start s) (fixed : FixedIn e a) (healing : Bool) (active : ∀ a ∈ t.activeFaults, FixedIn e a)
    (env : t.world.env = played s.world.env (a, healing))
    (logged : loggedOf t.history = loggedOf s.history ++ [(a, healing)]) : Played e start t := by
  refine ⟨active, ?_, ?_⟩
  · rw [logged, List.forall_mem_append, List.forall_mem_singleton]
    exact ⟨h.logged, fixed⟩
  · rw [logged, List.foldl_append, List.foldl_cons, List.foldl_nil, ← h.env]
    exact env

theorem ran (h : Played e start s) (fixed : FixedIn e a) : Played e start (s.ran a) := by
  refine h.line fixed false ?_ fixed.execute_world ?_
  · rw [ran_activeFaults]
    exact h.active
  · rw [ran_history, loggedOf_append]
    rfl

theorem paused (h : Played e start s) (seconds : Int) : Played e start (s.paused e seconds) := by
  have next : Played e start { s with nextOrdinal := s.nextOrdinal + 1 } := h.congr h.active rfl rfl
  exact next.ran ⟨rfl, rfl, rfl, rfl, trivial⟩

theorem injected (h : Played e start s) (fixed : FixedIn e a) : Played e start (s.injected a) := by
  have begun : Played e start (s.injecting a) := by
    refine h.congr h.active rfl ?_
    show loggedOf (s.history ++ [_]) = _
    rw [loggedOf_append]
    exact List.append_nil _
  have kept : (s.injecting a).executed a = a := fixed.execute_keeps _
  refine (begun.ran fixed).congr (fun b member => ?_) rfl rfl
  rcases List.mem_append.mp member with old | new
  · exact h.active b old
  · rw [List.mem_singleton.mp new, kept]
    exact fixed

theorem mended (h : Played e start s) (fixed : FixedIn e a) : Played e start (s.mended a) := by
  have kept : (a.call a.cls.heal s.world).2.1 = a := fixed.heal_keeps s.world
  have env : (s.mended a).world.env = (Proc.exec (tearDown a.self) s.world.env).2 := Fixed.heal_world fixed.cls
  have active : ∀ b ∈ (s.mended a).activeFaults, FixedIn e b := by
    intro b member
    obtain ⟨c, among, eq⟩ := List.mem_map.mp member
    split at eq
    · rw [← eq, kept]
      exact fixed
    · rw [← eq]
      exact h.active c among
  have logged := loggedOf_mended a s
  cases healable : a.cls.healable with
  | true =>
    rw [healable, if_pos rfl, kept] at logged
    exact h.line fixed true active env logged
  | false =>
    rw [healable, if_neg Bool.false_ne_true, List.append_nil] at logged
    refine h.congr active ?_ logged
    rw [env, Fixed.tearDown_unhealable fixed.cls healable]
    rfl

end Played

/-- If every action injected so far was preset, the cluster is what the lines have done, and the
actions that are still to be healed are fixed. -/
def Reproducible (e : Setup Builtin Cluster) (start : Cluster) (pending : List (FaultAction Builtin Cluster))
    (s : FaultEngine Builtin Cluster) : Prop :=
  InjectsPreset s.history → Played e start s ∧ ∀ a ∈ pending, FixedIn e a

namespace Reproducible

theorem draws (s : FaultEngine Builtin Cluster) (draws : Nat → Nat) (h : Reproducible e start pending s) :
    Reproducible e start pending { s with world := { s.world with draws } } := fun preset =>
  ⟨(h preset).1.congr (h preset).1.active rfl rfl, (h preset).2⟩

theorem paused (s : FaultEngine Builtin Cluster) (seconds : Int) (h : Reproducible e start pending s) :
    Reproducible e start pending (s.paused e seconds) := by
  intro preset
  obtain ⟨played, fixed⟩ := h (InjectsPreset.of_append preset)
  exact ⟨played.paused seconds, fixed⟩

theorem none (s : FaultEngine Builtin Cluster) (h : Reproducible e start pending s) : Reproducible e start [] s :=
  fun preset => ⟨(h preset).1, List.forall_mem_nil _⟩

theorem mended (h : Reproducible e start (a :: pending) s) : Reproducible e start pending (s.mended a) := by
  intro preset
  obtain ⟨played, fixed⟩ := h (InjectsPreset.of_append preset)
  exact ⟨played.mended (fixed a List.mem_cons_self), fun b member => fixed b (List.mem_cons_of_mem a member)⟩

end Reproducible

theorem Untouched.played (h : Untouched s) (env : s.world.env = start) : Played e start s := by
  have nothing : loggedOf s.history = [] := by
    rw [loggedOf, h.turns]
    rfl
  refine ⟨?_, ?_, ?_⟩
  · rw [h.active]
    exact List.forall_mem_nil _
  · rw [nothing]
    exact List.forall_mem_nil _
  · rw [nothing]
    exact env

end FaultEngine

end FaultStorm
