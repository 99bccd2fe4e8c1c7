import FaultStorm.Faults.FreezeOverlap
import FaultStorm.Faults.Overlap
import FaultStorm.Faults.Presets

/-!
# The effects in force

Where docker works, what an action of a built-in class does to the cluster is the effect of a
partition or of a freeze, or nothing that lasts. `InForce start nodes effects c` says that `c`
is `start` under the effects, in whatever order they came: `execute()` adds one, and `heal()`
takes one away and leaves the others.
-/

namespace FaultStorm

open Python Cluster

/-- What an action does to the cluster while it is active. -/
inductive Effect
  | partition (p : Partition)
  | freeze (f : Freeze)
  | nothing

/-- The effect of an object of a built-in class. -/
def effectOf : ActionObj Builtin → Effect
  | .wait _ => .nothing
  | .custom (.kill _) => .nothing
  | .custom (.halves a) => .partition (.halves a)
  | .custom (.ring a) => .partition (.ring a)
  | .custom (.node a) => .partition (.node a)
  | .custom (.subnet a) => .partition (.subnet a)
  | .custom (.dc a) => .partition (.dc a)
  | .custom (.freeze a) => .freeze (.processes a)
  | .custom (.freezeGroup a) => .freeze (.group a)

namespace Effect

def partition? : Effect → Option Partition
  | .partition p => some p
  | _ => none

/-- `execute()`: the effect with its parameters chosen, and the cluster under it. -/
def execute : Effect → World Cluster → Effect × Cluster
  | .partition p, w => (.partition (p.execute w).1, (p.execute w).2.env)
  | .freeze f, w => (.freeze (f.execute w).1, (f.execute w).2.env)
  | .nothing, w => (.nothing, w.env)

/-- `heal()`. -/
def heal : Effect → World Cluster → Cluster
  | .partition p, w => (p.heal w).env
  | .freeze f, w => (f.heal w).env
  | .nothing, w => w.env

end Effect

theorem mem_partition? {effects : List Effect} {p : Partition} :
    p ∈ effects.filterMap Effect.partition? ↔ .partition p ∈ effects := by
  rw [List.mem_filterMap]
  constructor
  · rintro ⟨effect, member, eq⟩
    cases effect with
    | partition q => exact Option.some.inj eq ▸ member
    | freeze f => cases eq
    | nothing => cases eq
  · exact fun member => ⟨_, member, rfl⟩

/-! ## The methods of the built-in classes -/

section Methods

variable {a : FaultAction Builtin Cluster} {w : World Cluster}

theorem KillProcessAction.execute_env (works : w.env.Works) (a : KillProcessAction) :
    (execute.exec (a, w)).2.2.env = w.env := by
  have kept : Proc.Keeps (fun s : KillProcessAction × World Cluster => s.2.env = w.env) execute := by
    have chosen : ∀ (view : KillProcessAction → Option String) (put : KillProcessAction → String → KillProcessAction)
        (options : KillProcessAction → List String),
        Proc.Keeps (fun s : KillProcessAction × World Cluster => s.2.env = w.env) (choose view put options) := by
      intro view put options s same
      rw [exec_choose]
      rcases (choosing view put options s.1).exec s.2.draws with ⟨_ | _, later⟩ <;> exact same
    unfold execute
    refine (chosen _ _ _).bind fun _ => (chosen _ _ _).bind fun _ => ?_
    intro s same
    have killed : (Proc.swallow (ClusterManager.execOnNode (strOrEmpty s.1.node) (.pkill (strOrEmpty s.1.process)))).exec
        s.2.env = (.ok (), s.2.env) := by
      rw [Proc.exec_swallow, exec_execOnNode (same ▸ works)]
      exact congrArg (Prod.mk _) (setNode_self _ _)
    rw [Proc.exec_bind_ok (exec_this s), exec_onCluster, killed]
    exact same
  exact kept.final (s := (a, w)) rfl

/-- `execute()` leaves an object of the same class. -/
theorem execute_built (built : a.cls = builtinOf a.self) :
    a.cls = builtinOf (a.call a.cls.execute w).2.1.self := by
  obtain ⟨id, cls, self⟩ := a
  obtain rfl : cls = builtinOf self := built
  match self with
  | .wait _ | .custom (.kill _) | .custom (.halves _) | .custom (.ring _) | .custom (.node _) | .custom (.subnet _)
  | .custom (.dc _) | .custom (.freeze _) | .custom (.freezeGroup _) => rfl

/-- `execute()` of an action has its effect. -/
theorem execute_effect (works : w.env.Works) (built : a.cls = builtinOf a.self) :
    effectOf (a.call a.cls.execute w).2.1.self = ((effectOf a.self).execute w).1 ∧
      (a.call a.cls.execute w).2.2.env = ((effectOf a.self).execute w).2 := by
  obtain ⟨id, cls, self⟩ := a
  obtain rfl : cls = builtinOf self := built
  match self with
  | .wait _ | .custom (.halves _) | .custom (.ring _) | .custom (.node _) | .custom (.subnet _) | .custom (.dc _)
  | .custom (.freeze _) | .custom (.freezeGroup _) => exact ⟨rfl, rfl⟩
  | .custom (.kill a) => exact ⟨rfl, KillProcessAction.execute_env works a⟩

/-- `heal()` of an action ends its effect. -/
theorem heal_effect (built : a.cls = builtinOf a.self) :
    (a.call a.cls.heal w).2.2.env = (effectOf a.self).heal w := by
  obtain ⟨id, cls, self⟩ := a
  obtain rfl : cls = builtinOf self := built
  match self with
  | .wait _ | .custom (.kill _) | .custom (.halves _) | .custom (.ring _) | .custom (.node _) | .custom (.subnet _)
  | .custom (.dc _) | .custom (.freeze _) | .custom (.freezeGroup _) => rfl

end Methods

/-! ## Filter tables and flag files apart -/

section Apart

variable {start c d : Cluster} {nodes : List String} {active : List Partition} {draws : Nat → Nat}

theorem flag_onTables (c : Cluster) (name : String) (f : Iptables.Tables → Iptables.Tables) (node : String) :
    (c.onTables name f).flag node = c.flag node := by
  unfold flag onTables setNode
  dsimp only
  split
  · rename_i here
    rw [here]
  · rfl

theorem flag_place (c : Cluster) (ip : String → String) (blocks : List Block) (node : String) :
    (c.place ip blocks).flag node = c.flag node := by
  induction blocks generalizing c with
  | nil => rfl
  | cons b blocks ih => exact (ih _).trans (flag_onTables ..)

theorem flag_remove (c : Cluster) (removals : List Removal) (node : String) :
    (c.remove removals).flag node = c.flag node := by
  induction removals generalizing c with
  | nil => rfl
  | cons r removals ih => exact (ih _).trans (flag_onTables ..)

theorem tables_setFlag (c : Cluster) (text : Option (List Char)) (stray : Bool) (targets : List String) (node : String) :
    ((c.setFlag text stray targets).node node).tables = (c.node node).tables := by
  unfold setFlag
  dsimp only
  split <;> rfl

/-- The cluster under some partitions, whatever random numbers are to come. -/
def Under (start : Cluster) (nodes : List String) (active : List Partition) (c : Cluster) : Prop :=
  Overlap.Tracked start nodes ⟨⟨fun _ => 0, c⟩, active⟩

theorem under_iff : Overlap.Tracked start nodes ⟨⟨draws, c⟩, active⟩ ↔ Under start nodes active c :=
  ⟨fun h => ⟨h.docker, h.placed, h.ordinals, h.tables⟩, fun h => ⟨h.docker, h.placed, h.ordinals, h.tables⟩⟩

theorem Under.setFlag (h : Under start nodes active c) (text : Option (List Char)) (stray : Bool) (targets : List String) :
    Under start nodes active (c.setFlag text stray targets) := by
  refine ⟨⟨h.docker.ip, h.docker.outage⟩, h.placed, h.ordinals, fun name => ?_⟩
  show Iptables.Over _ _ ((c.setFlag text stray targets).node name).tables
  rw [tables_setFlag]
  exact h.tables name

end Apart

/-! ## Effects in force -/

/-- The cluster is the starting one under the effects: its filter tables are under the
partitions, and a node that carries the flag file is targeted by one of the freezes. -/
structure InForce (start : Cluster) (nodes : List String) (effects : List Effect) (c : Cluster) : Prop where
  under : ∃ active, active.Perm (effects.filterMap Effect.partition?) ∧ Under start nodes active c
  frozen : ∀ node, (c.flag node).isSome → ∃ f, .freeze f ∈ effects ∧ node ∈ f.targets

/-- The nodes that a freeze targets carry the flag file. -/
def Frozen (effects : List Effect) (c : Cluster) : Prop :=
  ∀ f, .freeze f ∈ effects → ∀ node ∈ f.targets, (c.flag node).isSome

namespace InForce

variable {start c : Cluster} {nodes : List String} {effects : List Effect} {effect : Effect} {w : World Cluster}

theorem perm {effects' : List Effect} (h : InForce start nodes effects c) (perm : effects.Perm effects') :
    InForce start nodes effects' c := by
  obtain ⟨active, same, under⟩ := h.under
  refine ⟨⟨active, same.trans (perm.filterMap _), under⟩, fun node present => ?_⟩
  obtain ⟨f, member, target⟩ := h.frozen node present
  exact ⟨f, perm.subset member, target⟩

theorem works (sound : Sound start nodes) (h : InForce start nodes effects c) : c.Works := by
  obtain ⟨active, -, under⟩ := h.under
  exact sound.works' under.docker

/-- The ordinals of the partitions in force differ. -/
theorem ordinals (h : InForce start nodes effects c) :
    ((effects.filterMap Effect.partition?).map Partition.ordinal).Nodup := by
  obtain ⟨active, same, under⟩ := h.under
  exact (same.map _).nodup_iff.mp under.ordinals

/-- One more partition. -/
theorem addPartition (sound : Sound start nodes) (free : FstormFree start) (h : InForce start nodes effects w.env)
    {p : Partition} (placed : p.WellPlaced nodes) (fresh : ∀ q, .partition q ∈ effects → q.ordinal ≠ p.ordinal) :
    InForce start nodes (effects ++ [.partition (p.execute w).1]) (p.execute w).2.env := by
  obtain ⟨active, same, under⟩ := h.under
  have tracked : Overlap.Tracked start nodes ⟨w, active⟩ := under_iff.mpr under
  have added := tracked.execute sound free placed fun q member => fresh q (mem_partition?.mp (same.subset member))
  have ran := Partition.executed (w := w) sound under.docker placed
  refine ⟨⟨_, ?_, under_iff.mp added⟩, fun node present => ?_⟩
  · rw [List.filterMap_append]
    exact same.append_right _
  · rw [ran.env, flag_place] at present
    obtain ⟨f, member, target⟩ := h.frozen node present
    exact ⟨f, List.mem_append_left _ member, target⟩

/-- One more freeze. -/
theorem addFreeze (sound : Sound start nodes) (h : InForce start nodes effects w.env) (f : Freeze) :
    InForce start nodes (effects ++ [.freeze (f.execute w).1]) (f.execute w).2.env := by
  obtain ⟨active, same, under⟩ := h.under
  obtain ⟨later, ran⟩ := f.execute_eq (h.works sound)
  rw [ran]
  refine ⟨⟨active, ?_, under.setFlag _ _ _⟩, fun node present => ?_⟩
  · rw [List.filterMap_append]
    exact same.trans (.of_eq (List.append_nil _).symm)
  · rw [flag_setFlag] at present
    by_cases target : node ∈ (f.chosen w.draws).targets
    · exact ⟨_, by simp, target⟩
    · rw [if_neg target] at present
      obtain ⟨g, member, other⟩ := h.frozen node present
      exact ⟨g, List.mem_append_left _ member, other⟩

/-- `execute()` adds its effect to those in force. -/
theorem execute (sound : Sound start nodes) (free : FstormFree start) (h : InForce start nodes effects w.env)
    (effect : Effect)
    (fits : ∀ p, effect = .partition p → p.WellPlaced nodes ∧ ∀ q, .partition q ∈ effects → q.ordinal ≠ p.ordinal) :
    InForce start nodes (effects ++ [(effect.execute w).1]) (effect.execute w).2 := by
  cases effect with
  | partition p => exact h.addPartition sound free (fits p rfl).1 (fits p rfl).2
  | freeze f => exact h.addFreeze sound f
  | nothing =>
    obtain ⟨active, same, under⟩ := h.under
    refine ⟨⟨active, ?_, under⟩, fun node present => ?_⟩
    · rw [List.filterMap_append]
      exact same.trans (.of_eq (List.append_nil _).symm)
    · obtain ⟨f, member, target⟩ := h.frozen node present
      exact ⟨f, List.mem_append_left _ member, target⟩

/-- One partition less. -/
theorem endPartition (sound : Sound start nodes) (free : FstormFree start) {p : Partition}
    (h : InForce start nodes (.partition p :: effects) w.env) : InForce start nodes effects (p.heal w).env := by
  obtain ⟨active, same, under⟩ := h.under
  have among : p ∈ active := same.symm.subset List.mem_cons_self
  have tracked : Overlap.Tracked start nodes ⟨w, active⟩ := under_iff.mpr under
  have ordinals := h.ordinals
  refine ⟨⟨_, ?_, under_iff.mp (tracked.heal sound free among)⟩, fun node present => ?_⟩
  · -- the ordinal of the partition is its own, so the filter takes away nothing else
    have others : (effects.filterMap Effect.partition?).filter (·.ordinal ≠ p.ordinal) =
        effects.filterMap Effect.partition? := by
      refine List.filter_eq_self.mpr fun q member => ?_
      have apart : p.ordinal ∉ (effects.filterMap Effect.partition?).map Partition.ordinal :=
        (List.nodup_cons.mp ordinals).1
      exact decide_eq_true fun eq => apart (List.mem_map.mpr ⟨q, member, eq⟩)
    have left := same.filter (·.ordinal ≠ p.ordinal)
    have gone : (p :: effects.filterMap Effect.partition?).filter (·.ordinal ≠ p.ordinal) =
        effects.filterMap Effect.partition? := by
      rw [List.filter_cons_of_neg (by simp), others]
    exact left.trans (.of_eq gone)
  · rw [Partition.heal_eq (h.works sound), flag_remove] at present
    obtain ⟨f, member, target⟩ := h.frozen node present
    rcases List.mem_cons.mp member with same | member
    · cases same
    · exact ⟨f, member, target⟩

/-- One freeze less: the flag file is gone from its nodes, even where another freeze targets them. -/
theorem endFreeze (sound : Sound start nodes) {f : Freeze} (h : InForce start nodes (.freeze f :: effects) w.env) :
    InForce start nodes effects (f.heal w).env := by
  obtain ⟨active, same, under⟩ := h.under
  rw [f.heal_eq (h.works sound)]
  refine ⟨⟨active, same, under.setFlag _ _ _⟩, fun node present => ?_⟩
  rw [flag_setFlag] at present
  by_cases target : node ∈ f.targets
  · rw [if_pos target] at present
    cases present
  · rw [if_neg target] at present
    obtain ⟨g, member, other⟩ := h.frozen node present
    rcases List.mem_cons.mp member with same | member
    · cases same
      exact absurd other target
    · exact ⟨g, member, other⟩

/-- `heal()` ends its effect, whatever else is in force. -/
theorem heal (sound : Sound start nodes) (free : FstormFree start) (h : InForce start nodes (effect :: effects) w.env) :
    InForce start nodes effects (effect.heal w) := by
  cases effect with
  | partition p => exact h.endPartition sound free
  | freeze f => exact h.endFreeze sound
  | nothing =>
    refine ⟨h.under, fun node present => ?_⟩
    obtain ⟨f, member, target⟩ := h.frozen node present
    rcases List.mem_cons.mp member with same | member
    · cases same
    · exact ⟨f, member, target⟩

/-- A node drops what it dropped at first and what the partitions in force are there to drop. -/
theorem drops_iff (sound : Sound start nodes) (h : InForce start nodes effects c) (hook : Iptables.Hook) (name : String)
    {peer : String} (inside : peer ∈ nodes) :
    (c.node name).tables.drops hook (packetAt start.ipOf hook name peer) ↔
      (start.node name).tables.drops hook (packetAt start.ipOf hook name peer) ∨
        ∃ p, .partition p ∈ effects ∧ p.Cuts hook name peer := by
  obtain ⟨active, same, under⟩ := h.under
  have members : ∀ p, p ∈ active ↔ .partition p ∈ effects := fun p => same.mem_iff.trans mem_partition?
  have known : ∀ b ∈ active.flatMap Partition.blocks, ∀ other ∈ b.peers,
      start.ipOf other = start.ipOf peer → other = peer := by
    intro b hb other among address
    obtain ⟨p, hp, hb⟩ := List.mem_flatMap.mp hb
    exact sound.ipOf_injective ((Partition.blocks_placed (under.placed p hp) hb).1 among) inside address
  rw [under.tables.drops_iff hook known]
  refine or_congr_right ?_
  constructor
  · rintro ⟨b, hb, drops⟩
    obtain ⟨p, hp, hb⟩ := List.mem_flatMap.mp hb
    exact ⟨p, (members p).mp hp, (Partition.blocks_iff_cuts (under.placed p hp) hook name peer).mp ⟨b, hb, drops⟩⟩
  · rintro ⟨p, member, cuts⟩
    have hp := (members p).mpr member
    obtain ⟨b, hb, drops⟩ := (Partition.blocks_iff_cuts (under.placed p hp) hook name peer).mpr cuts
    exact ⟨b, List.mem_flatMap.mpr ⟨p, hp, hb⟩, drops⟩

/-- Where no effect is in force, the filter tables are the starting ones and no node carries the
flag file. -/
theorem restored (h : InForce start nodes [] c) (name : String) :
    ((c.node name).tables.builtin = (start.node name).tables.builtin ∧
      (c.node name).tables.user.get? = (start.node name).tables.user.get?) ∧ c.flag name = none := by
  obtain ⟨active, same, under⟩ := h.under
  have tables := under.tables
  rw [List.perm_nil.mp same] at tables
  refine ⟨tables.restored name, ?_⟩
  by_contra present
  obtain ⟨f, member, -⟩ := h.frozen name (Option.isSome_iff_ne_none.mpr present)
  cases member

end InForce

/-- A freeze is seen on its nodes, and no effect that is added takes a flag file away. -/
theorem Frozen.execute {start : Cluster} {nodes : List String} {effects : List Effect} {w : World Cluster}
    (sound : Sound start nodes) (inForce : InForce start nodes effects w.env) (h : Frozen effects w.env)
    (effect : Effect) (placed : ∀ p, effect = .partition p → p.WellPlaced nodes) :
    Frozen (effects ++ [(effect.execute w).1]) (effect.execute w).2 := by
  intro g member node target
  rw [List.mem_append, List.mem_singleton] at member
  obtain ⟨active, -, under⟩ := inForce.under
  cases effect with
  | partition p =>
    have ran := Partition.executed (w := w) sound under.docker (placed p rfl)
    rcases member with old | new
    · show (flag (p.execute w).2.env node).isSome
      rw [ran.env, flag_place]
      exact h g old node target
    · cases new
  | freeze f =>
    obtain ⟨later, ran⟩ := f.execute_eq (inForce.works sound)
    simp only [Effect.execute, ran] at member ⊢
    rw [flag_setFlag]
    split
    · rfl
    · rename_i other
      rcases member with old | new
      · exact h g old node target
      · cases new
        exact absurd target other
  | nothing =>
    rcases member with old | new
    · exact h g old node target
    · cases new

end FaultStorm
