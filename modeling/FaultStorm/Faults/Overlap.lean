import FaultStorm.Faults.Resolve
import Mathlib.Logic.Relation

/-!
# Overlapping partitions

Any order of executions and heals of partitions with distinct ordinals keeps the filter
tables equal to the starting ones with the blocks of the active partitions on top. What
`execute` and `heal` do is first brought to `place` and `remove`; the run then only appends
blocks and filters them.
-/

namespace FaultStorm

open Python Iptables Cluster

/-- A cluster on which docker works, and whose nodes have names and addresses of their own. -/
structure Sound (start : Cluster) (nodes : List String) : Prop where
  works : start.Works
  distinct : nodes.Nodup
  lookups : ∀ n ∈ nodes, (start.ip n).isSome
  addresses : ∀ n ∈ nodes, ∀ m ∈ nodes, start.ip n = start.ip m → n = m

namespace Sound

variable {start c : Cluster} {nodes : List String}

theorem ip_eq (sound : Sound start nodes) {n : String} (inside : n ∈ nodes) : start.ip n = some (start.ipOf n) := by
  obtain ⟨ip, found⟩ := Option.isSome_iff_exists.mp (sound.lookups n inside)
  rw [ipOf, found]
  rfl

theorem ipOf_injective (sound : Sound start nodes) {n m : String} (hn : n ∈ nodes) (hm : m ∈ nodes)
    (same : start.ipOf n = start.ipOf m) : n = m := by
  refine sound.addresses n hn m hm ?_
  rw [sound.ip_eq hn, sound.ip_eq hm, same]

theorem works' (sound : Sound start nodes) (docker : SameDocker start c) : c.Works := by
  intro k
  rw [docker.outage]
  exact sound.works k

/-- The addresses of nodes of the cluster are found. -/
theorem exec_getNodeIps (sound : Sound start nodes) (docker : SameDocker start c) {l : List String}
    (inside : l ⊆ nodes) : (getNodeIps l).exec c = (.ok (l.map start.ipOf), c) := by
  unfold getNodeIps
  induction l with
  | nil => rfl
  | cons n l ih =>
    have known : c.ip n = some (start.ipOf n) := by
      rw [docker.ip]
      exact sound.ip_eq (inside List.mem_cons_self)
    rw [List.mapM_cons, Proc.exec_bind_ok (exec_getNodeIp (sound.works' docker) known),
      Proc.exec_bind_ok (ih fun m member => inside (List.mem_cons_of_mem n member))]
    rfl

end Sound

/-! ## Placing a block -/

section Place

variable {start c : Cluster} {nodes : List String}

theorem foldl_onTables {α : Type} (l : List α) (c : Cluster) (name : String) (f : α → Tables → Tables) :
    l.foldl (fun c a => c.onTables name (f a)) c =
      c.onTables name fun T => l.foldl (fun T a => f a T) T := by
  induction l generalizing c with
  | nil => exact (onTables_id c name).symm
  | cons a l ih => rw [List.foldl_cons, ih, onTables_onTables]; rfl

theorem build_install (ip : String → String) (b : Block) (T : Tables) :
    (b.install ip).build T =
      b.peers.foldl (fun T peer => runAll [.append (.user b.chain) (dropRule b.hook (ip peer))] T)
        (runAll (createCommands (b.install ip)) T) := by
  rw [Install.build, Block.install, List.foldl_map]

theorem place_one (c : Cluster) (ip : String → String) (b : Block) :
    c.place ip [b] = c.onTables b.node (b.install ip).build := rfl

theorem place_append (c : Cluster) (ip : String → String) (l k : List Block) :
    c.place ip (l ++ k) = (c.place ip l).place ip k :=
  List.foldl_append

/-- A chain is created and filled with drop rules: one block is placed. -/
theorem exec_block (works : c.Works) (ip : String → String) (b : Block) {m : ClusterM Unit}
    (fills : m = Proc.forEach (b.peers.map ip) fun addr =>
      tryCommands b.node [.append (.user b.chain) (dropRule b.hook addr)]) :
    (do tryCommands b.node [.newChain b.chain, .append (.builtin b.hook) (link b.chain)]
        m).exec c = (.ok (), c.place ip [b]) := by
  rw [fills, Proc.exec_bind_ok (exec_tryCommands works ..),
    exec_forEach_tryCommands (works.onTables _ _) (b.peers.map ip) (fun _ => b.node), foldl_onTables,
    onTables_onTables, place_one]
  refine congrArg (fun f => (_, c.onTables b.node f)) (funext fun T => ?_)
  rw [build_install, Function.comp_apply, List.foldl_map]
  rfl

/-- A loop that places a block in every turn. -/
theorem exec_forEach_place {α : Type} {ip : String → String} {f : α → Block} {body : α → ClusterM Unit}
    (l : List α) (docker : SameDocker start c)
    (one : ∀ a ∈ l, ∀ c, SameDocker start c → (body a).exec c = (.ok (), c.place ip [f a])) :
    (Proc.forEach l body).exec c = (.ok (), c.place ip (l.map f)) := by
  induction l generalizing c with
  | nil => rfl
  | cons a l ih =>
    rw [Proc.forEach_cons, Proc.exec_bind_ok (one a List.mem_cons_self c docker)]
    exact ih (docker.place ..) fun b member => one b (List.mem_cons_of_mem a member)

/-- Each node of a list drops what comes from the peers. -/
theorem exec_side (sound : Sound start nodes) (docker : SameDocker start c) (chain : String)
    (l peers : List String) :
    (Proc.forEach l fun n => do
        Partitioners.createChain n chain
        Partitioners.addDropRulesBySrc n chain (peers.map start.ipOf)).exec c =
      (.ok (), c.place start.ipOf (l.map (⟨·, chain, .input, peers⟩))) :=
  exec_forEach_place l docker fun n _ _ docker =>
    exec_block (sound.works' docker) start.ipOf ⟨n, chain, .input, peers⟩ rfl

/-- The drop rules between two groups of nodes. -/
theorem exec_halves (sound : Sound start nodes) (docker : SameDocker start c) (ordinal : Int)
    {group1 group2 : List String} (one : group1 ⊆ nodes) (two : group2 ⊆ nodes) :
    (PartitionRandomHalvesAction.partition ordinal group1 group2).exec c =
      (.ok (), c.place start.ipOf (Partition.crossing (Partitioners.getChainName ordinal) group1 group2)) := by
  unfold PartitionRandomHalvesAction.partition
  rw [Proc.exec_bind_ok (sound.exec_getNodeIps docker two), Proc.exec_bind_ok (exec_side sound docker ..),
    Proc.exec_bind_ok (sound.exec_getNodeIps (docker.place ..) one), exec_side sound (docker.place ..),
    Partition.crossing, place_append]

theorem exec_dc (sound : Sound start nodes) (docker : SameDocker start c) (ordinal : Int)
    {members : List String} (inside : members ⊆ nodes) :
    (PartitionRandomDcAction.partition ordinal nodes members).exec c =
      (.ok (), c.place start.ipOf (Partition.crossing (Partitioners.getChainName ordinal) members
        (nodes.filter fun n => ! members.contains n))) :=
  exec_halves sound docker ordinal inside (List.filter_subset_self _)

theorem exec_isolation (sound : Sound start nodes) (docker : SameDocker start c) (ordinal : Int)
    {target : String} (inside : target ∈ nodes) :
    (PartitionRandomNodeAction.partition ordinal nodes target).exec c =
      (.ok (), c.place start.ipOf (Partition.crossing (Partitioners.getChainName ordinal) [target]
        (nodes.filter (· ≠ target)))) := by
  let b : Block := ⟨target, Partitioners.getChainName ordinal, .input, nodes.filter (· ≠ target)⟩
  have known : (c.place start.ipOf [b]).ip target = some (start.ipOf target) := by
    rw [(docker.place ..).ip]
    exact sound.ip_eq inside
  have here : (do
      Partitioners.createChain target (Partitioners.getChainName ordinal)
      Partitioners.addDropRulesBySrc target (Partitioners.getChainName ordinal)
        ((nodes.filter (· ≠ target)).map start.ipOf)).exec c = (.ok (), c.place start.ipOf [b]) :=
    exec_block (sound.works' docker) start.ipOf b rfl
  have others := exec_side sound (docker.place start.ipOf [b]) (Partitioners.getChainName ordinal)
    (nodes.filter (· ≠ target)) [target]
  unfold PartitionRandomNodeAction.partition
  rw [Proc.exec_bind_ok (sound.exec_getNodeIps docker (List.filter_subset_self _)), ← bind_assoc,
    Proc.exec_bind_ok here, Proc.exec_bind_ok (exec_getNodeIp (sound.works' (docker.place ..)) known)]
  exact others.trans (by rw [← place_append]; rfl)

theorem exec_ring (sound : Sound start nodes) (docker : SameDocker start c) (ordinal : Int)
    {ordered : List String} (inside : ordered ⊆ nodes) :
    (PartitionMajoritiesRingAction.partition ordinal ordered).exec c =
      (.ok (), c.place start.ipOf (ordered.zipIdx.map fun (n, i) =>
        ⟨n, Partitioners.getChainName ordinal, .input, PartitionMajoritiesRingAction.blocked ordered i⟩)) := by
  refine exec_forEach_place _ docker fun (n, i) _ c docker => ?_
  have seen : PartitionMajoritiesRingAction.blocked ordered i ⊆ nodes :=
    List.Subset.trans (List.filter_subset_self _) inside
  rw [Proc.exec_bind_ok (sound.exec_getNodeIps docker seen)]
  exact exec_block (sound.works' docker) start.ipOf
    ⟨n, Partitioners.getChainName ordinal, .input, PartitionMajoritiesRingAction.blocked ordered i⟩ rfl

theorem exec_subnet (sound : Sound start nodes) (docker : SameDocker start c) (ordinal : Int) (target : String)
    (directions : List Hook) {blocked : List String} (inside : blocked ⊆ nodes) :
    (PartitionRandomSubnetAction.partition ordinal target directions blocked).exec c =
      (.ok (), c.place start.ipOf (directions.map fun direction =>
        ⟨target, Partitioners.getDirectionalChainName ordinal direction, direction, blocked⟩)) := by
  unfold PartitionRandomSubnetAction.partition
  rw [Proc.exec_bind_ok (sound.exec_getNodeIps docker inside)]
  refine exec_forEach_place _ docker fun direction _ c docker => ?_
  exact exec_block (sound.works' docker) start.ipOf
    ⟨target, Partitioners.getDirectionalChainName ordinal direction, direction, blocked⟩ (by cases direction <;> rfl)

/-! ## Taking chains down -/

theorem exec_removals (works : c.Works) (removals : List Removal) :
    (Proc.forEach removals fun r => tryCommands r.node (removeCommands r.chain r.hook)).exec c =
      (.ok (), c.remove removals) :=
  exec_forEach_tryCommands works removals (·.node) fun r => removeCommands r.chain r.hook

theorem exec_healPartition (works : c.Works) (ordinal : Int) (l : List String) :
    (Partitioners.healPartition ordinal l).exec c =
      (.ok (), c.remove (l.map (⟨·, Partitioners.getChainName ordinal, .input⟩))) := by
  rw [← exec_removals works, Proc.forEach_map]
  rfl

theorem exec_healDirectionalPartition (works : c.Works) (ordinal : Int) (target : String)
    (directions : List Hook) :
    (Partitioners.healDirectionalPartition ordinal target directions).exec c =
      (.ok (), c.remove (directions.map fun direction =>
        ⟨target, Partitioners.getDirectionalChainName ordinal direction, direction⟩)) := by
  rw [← exec_removals works, Proc.forEach_map]
  rfl

end Place

/-! ## The methods -/

namespace Partition

variable {start : Cluster} {nodes : List String} {w : World Cluster}

theorem heal_eq (works : w.env.Works) (p : Partition) : p.heal w = { w with env := w.env.remove p.removals } := by
  cases p with
  | halves a =>
    show World.mk _ (((Partitioners.healPartition a.ordinal a.allNodes).exec w.env).2) = _
    rw [exec_healPartition works]
    rfl
  | ring a =>
    show World.mk _ (((Partitioners.healPartition a.ordinal a.allNodes).exec w.env).2) = _
    rw [exec_healPartition works]
    rfl
  | node a =>
    show World.mk _ (((Partitioners.healPartition a.ordinal a.allNodes).exec w.env).2) = _
    rw [exec_healPartition works]
    rfl
  | subnet a =>
    obtain ⟨base, node, direction, subnetType, blocked⟩ := a
    cases node with
    | none => rfl
    | some target =>
      show World.mk _ (((Partitioners.healDirectionalPartition base.ordinal target
        (PartitionRandomSubnetAction.getIptablesDirections ⟨base, some target, direction, subnetType, blocked⟩)).exec
          w.env).2) = _
      rw [exec_healDirectionalPartition works]
      rfl
  | dc a =>
    show World.mk _ (((Partitioners.healPartition a.ordinal a.allNodes).exec w.env).2) = _
    rw [exec_healPartition works]
    rfl

/-- What `execute()` comes to: a partition of the same ordinal with its parameters set, whose
blocks are placed. -/
structure Executed (start : Cluster) (nodes : List String) (p : Partition) (w : World Cluster)
    (result : Partition × World Cluster) : Prop where
  placed : WellPlaced nodes result.1
  ordinal : result.1.ordinal = p.ordinal
  env : result.2.env = w.env.place start.ipOf result.1.blocks

/-- The program of a partition places its blocks. -/
theorem exec_program (sound : Sound start nodes) {c : Cluster} (docker : SameDocker start c) {p : Partition}
    (placed : WellPlaced nodes p) : p.program.exec c = (.ok (), c.place start.ipOf p.blocks) := by
  obtain ⟨all, inside⟩ := id placed
  cases p with
  | halves a =>
    obtain ⟨base, _ | group1, _ | group2⟩ := a
    · rfl
    · rfl
    · rfl
    have cover := inside group1 group2 rfl rfl
    exact exec_halves sound docker base.ordinal (fun n member => cover.subset (List.mem_append_left _ member))
      (fun n member => cover.subset (List.mem_append_right _ member))
  | ring a =>
    obtain ⟨base, _ | ordered⟩ := a
    · rfl
    exact exec_ring sound docker base.ordinal (inside ordered rfl).2
  | node a =>
    obtain ⟨base, _ | target⟩ := a
    · rfl
    have all : base.allNodes = nodes := all
    have ran := exec_isolation sound docker base.ordinal (inside target rfl)
    rw [← all] at ran
    exact ran
  | subnet a =>
    obtain ⟨base, _ | target, direction, subnetType, _ | blocked⟩ := a
    · rfl
    · rfl
    · rfl
    exact exec_subnet sound docker base.ordinal target _ (inside blocked rfl)
  | dc a =>
    have all : a.allNodes = nodes := all
    by_cases empty : dcMembers a = []
    · have idle : program (.dc a) = pure () := if_pos empty
      have nothing : blocks (.dc a) = [] := if_pos empty
      rw [idle, nothing]
      rfl
    · have acts : program (.dc a) = PartitionRandomDcAction.partition a.ordinal a.allNodes (dcMembers a) := if_neg empty
      have drops : blocks (.dc a) = crossing (Partitioners.getChainName a.ordinal) (dcMembers a)
          (a.allNodes.filter fun n => ! (dcMembers a).contains n) := if_neg empty
      rw [acts, drops, all]
      exact exec_dc sound docker a.ordinal (dcMembers_placed placed).2

/-- `execute()` places the blocks of the partition with its parameters set. -/
theorem executed (sound : Sound start nodes) (docker : SameDocker start w.env) {p : Partition}
    (placed : WellPlaced nodes p) : Executed start nodes p w (p.execute w) := by
  obtain ⟨resolves, later, ran⟩ := ran_execute p w
  have chosen := resolves.wellPlaced sound.distinct placed
  rw [ran, exec_program sound docker chosen]
  exact ⟨chosen, resolves.ordinal, rfl⟩

end Partition

/-! ## Runs -/

/-- The cluster and the partitions that are executed and not yet healed. -/
structure Overlap where
  world : World Cluster
  active : List Partition

/-- One whole `execute()` or `heal()` call. -/
inductive Overlap.Step (nodes : List String) : Overlap → Overlap → Prop
  | execute (s : Overlap) (p : Partition) (placed : p.WellPlaced nodes)
      (fresh : ∀ q ∈ s.active, q.ordinal ≠ p.ordinal) :
      Step nodes s ⟨(p.execute s.world).2, s.active ++ [(p.execute s.world).1]⟩
  | heal (s : Overlap) (p : Partition) (member : p ∈ s.active) :
      Step nodes s ⟨p.heal s.world, s.active.filter (·.ordinal ≠ p.ordinal)⟩

/-- No chain of a partition is on a node of the cluster, or is jumped to there. -/
def FstormFree (c : Cluster) : Prop :=
  ∀ name ordinal chain, Owned ordinal chain → (c.node name).tables.Free chain

theorem idleCluster_fstormFree : FstormFree idleCluster := by
  intro name ordinal chain _
  constructor
  · rfl
  · simp [Tables.referenced, idleCluster]

/-- What every run keeps: the filter tables are the starting ones with the blocks of the active
partitions on top. -/
structure Overlap.Tracked (start : Cluster) (nodes : List String) (s : Overlap) : Prop where
  docker : SameDocker start s.world.env
  placed : ∀ p ∈ s.active, p.WellPlaced nodes
  ordinals : (s.active.map Partition.ordinal).Nodup
  tables : Placed start s.world.env (s.active.flatMap Partition.blocks)

section Run

variable {start : Cluster} {nodes : List String} {s t : Overlap} {l : List Partition}

theorem ordinal_injective (ordinals : (l.map Partition.ordinal).Nodup) {p q : Partition} (hp : p ∈ l) (hq : q ∈ l)
    (same : p.ordinal = q.ordinal) : p = q :=
  List.inj_on_of_nodup_map ordinals hp hq same

/-- No two blocks of a list of partitions share a node and a chain. -/
theorem keys_nodup (distinct : nodes.Nodup) (placed : ∀ p ∈ l, p.WellPlaced nodes)
    (ordinals : (l.map Partition.ordinal).Nodup) :
    ((l.flatMap Partition.blocks).map fun b => (b.node, b.chain)).Nodup := by
  rw [List.map_flatMap, List.nodup_flatMap]
  constructor
  · exact fun p member => Partition.blocks_keys distinct (placed p member)
  · rw [List.Nodup, List.pairwise_map] at ordinals
    refine ordinals.imp fun {p q} ne => ?_
    rintro key here there
    obtain ⟨b, hb, rfl⟩ := List.mem_map.mp here
    obtain ⟨b', hb', eq⟩ := List.mem_map.mp there
    have same : b'.chain = b.chain := congrArg Prod.snd eq
    have owned : Owned q.ordinal b.chain := same ▸ (Partition.blocks_hooked hb').owned
    exact ne ((Partition.blocks_hooked hb).owned.unique owned)

/-- Filtering a concatenation whose parts are kept or dropped as a whole. -/
theorem filter_flatMap_of {α β : Type} {f : α → List β} {keep : β → Bool} {whole : α → Bool} {l : List α}
    (parts : ∀ a ∈ l, (f a).filter keep = if whole a then f a else []) :
    (l.flatMap f).filter keep = (l.filter whole).flatMap f := by
  induction l with
  | nil => rfl
  | cons a l ih =>
    rw [List.flatMap_cons, List.filter_append, parts a List.mem_cons_self,
      ih fun b member => parts b (List.mem_cons_of_mem a member), List.filter_cons]
    split <;> rfl

/-- Taking down the chains of a partition drops its own blocks and keeps the others'. -/
theorem filter_removals (placed : ∀ p ∈ l, p.WellPlaced nodes) (ordinals : (l.map Partition.ordinal).Nodup)
    {p : Partition} (member : p ∈ l) :
    ((l.flatMap Partition.blocks).filter fun b => ∀ r ∈ p.removals, ¬ r.Covers b) =
      (l.filter (·.ordinal ≠ p.ordinal)).flatMap Partition.blocks := by
  apply filter_flatMap_of
  intro q hq
  by_cases same : q.ordinal = p.ordinal
  · have eq : q = p := ordinal_injective ordinals hq member same
    subst eq
    rw [if_neg (by simp)]
    refine List.filter_eq_nil_iff.mpr fun b hb => ?_
    obtain ⟨-, r, hr, covers⟩ := Partition.blocks_placed (placed q hq) hb
    simpa using ⟨r, hr, covers⟩
  · rw [if_pos (by simpa using same)]
    refine List.filter_eq_self.mpr fun b hb => ?_
    rw [decide_eq_true_eq]
    intro r hr covers
    have owned : Owned p.ordinal b.chain := covers.2 ▸ (Partition.removals_hooked hr).owned
    exact same ((Partition.blocks_hooked hb).owned.unique owned)

namespace Overlap

theorem Tracked.execute (sound : Sound start nodes) (free : FstormFree start) (h : Tracked start nodes s)
    {p : Partition} (placed : p.WellPlaced nodes) (fresh : ∀ q ∈ s.active, q.ordinal ≠ p.ordinal) :
    Tracked start nodes ⟨(p.execute s.world).2, s.active ++ [(p.execute s.world).1]⟩ := by
  have ran := Partition.executed sound h.docker placed
  generalize p.execute s.world = result at ran
  have all : ∀ q ∈ s.active ++ [result.1], q.WellPlaced nodes := by
    intro q member
    rcases List.mem_append.mp member with old | new
    · exact h.placed q old
    · rw [List.mem_singleton.mp new]
      exact ran.placed
  have ordinals : ((s.active ++ [result.1]).map Partition.ordinal).Nodup := by
    rw [List.map_append, List.map_singleton, ran.ordinal]
    refine h.ordinals.append (List.nodup_singleton _) (List.disjoint_singleton.mpr fun member => ?_)
    obtain ⟨q, hq, same⟩ := List.mem_map.mp member
    exact fresh q hq same
  have keys := keys_nodup sound.distinct all ordinals
  have blocks : (s.active ++ [result.1]).flatMap Partition.blocks =
      s.active.flatMap Partition.blocks ++ result.1.blocks := by
    rw [List.flatMap_append, List.flatMap_singleton]
  rw [blocks] at keys
  constructor
  · show SameDocker start result.2.env
    rw [ran.env]
    exact h.docker.place ..
  · exact all
  · exact ordinals
  · show Placed start result.2.env _
    rw [ran.env, blocks]
    exact h.tables.place result.1.blocks (fun b member => free b.node _ _ (Partition.blocks_hooked member).owned) keys

theorem Tracked.heal (sound : Sound start nodes) (free : FstormFree start) (h : Tracked start nodes s)
    {p : Partition} (member : p ∈ s.active) :
    Tracked start nodes ⟨p.heal s.world, s.active.filter (·.ordinal ≠ p.ordinal)⟩ := by
  have at_hook : ∀ r ∈ p.removals, ∀ b ∈ s.active.flatMap Partition.blocks, r.Covers b → b.hook = r.hook := by
    intro r hr b hb covers
    obtain ⟨q, hq, hb⟩ := List.mem_flatMap.mp hb
    have owned : Owned p.ordinal b.chain := covers.2 ▸ (Partition.removals_hooked hr).owned
    have eq : q = p := ordinal_injective h.ordinals hq member ((Partition.blocks_hooked hb).owned.unique owned)
    have hooked := Partition.blocks_hooked (eq ▸ hb)
    rw [← covers.2] at hooked
    exact hooked.unique (Partition.removals_hooked hr)
  have left := h.tables.remove p.removals (fun r hr => free r.node _ _ ((Partition.removals_hooked hr).owned)) at_hook
  rw [filter_removals h.placed h.ordinals member] at left
  rw [Partition.heal_eq (sound.works' h.docker) p]
  constructor
  · exact h.docker.remove ..
  · exact fun q hq => h.placed q (List.mem_filter.mp hq).1
  · exact h.ordinals.sublist (List.filter_sublist.map _)
  · exact left

theorem Tracked.step (sound : Sound start nodes) (free : FstormFree start) (h : Tracked start nodes s)
    (step : Step nodes s t) : Tracked start nodes t := by
  cases step with
  | execute p placed fresh => exact h.execute sound free placed fresh
  | heal p member => exact h.heal sound free member

theorem tracked_of_reached (sound : Sound start nodes) (free : FstormFree start) {draws : Nat → Nat}
    (reached : Relation.ReflTransGen (Step nodes) ⟨⟨draws, start⟩, []⟩ s) : Tracked start nodes s := by
  induction reached with
  | refl => exact ⟨⟨rfl, rfl⟩, by simp, List.nodup_nil, placed_nil start⟩
  | tail _ step ih => exact ih.step sound free step

/-- Whatever partitions overlap, and in whatever order they were executed and healed: a node
drops what its starting filter table drops and what the active partitions are there to drop,
and once none is active the filter tables are the starting ones. -/
theorem drops_iff_cuts (sound : Sound start nodes) (free : FstormFree start) {draws : Nat → Nat}
    (reached : Relation.ReflTransGen (Step nodes) ⟨⟨draws, start⟩, []⟩ s) :
    (∀ hook name, ∀ peer ∈ nodes,
      (s.world.env.node name).tables.drops hook (packetAt start.ipOf hook name peer) ↔
        (start.node name).tables.drops hook (packetAt start.ipOf hook name peer) ∨
          ∃ p ∈ s.active, p.Cuts hook name peer) ∧
      (s.active = [] → ∀ name,
        (s.world.env.node name).tables.builtin = (start.node name).tables.builtin ∧
          (s.world.env.node name).tables.user.get? = (start.node name).tables.user.get?) := by
  have h := tracked_of_reached sound free reached
  constructor
  · intro hook name peer inside
    have known : ∀ b ∈ s.active.flatMap Partition.blocks, ∀ other ∈ b.peers,
        start.ipOf other = start.ipOf peer → other = peer := by
      intro b hb other among same
      obtain ⟨p, hp, hb⟩ := List.mem_flatMap.mp hb
      exact sound.ipOf_injective ((Partition.blocks_placed (h.placed p hp) hb).1 among) inside same
    rw [h.tables.drops_iff hook known]
    refine or_congr_right ?_
    constructor
    · rintro ⟨b, hb, drops⟩
      obtain ⟨p, hp, hb⟩ := List.mem_flatMap.mp hb
      exact ⟨p, hp, (Partition.blocks_iff_cuts (h.placed p hp) hook name peer).mp ⟨b, hb, drops⟩⟩
    · rintro ⟨p, hp, cuts⟩
      obtain ⟨b, hb, drops⟩ := (Partition.blocks_iff_cuts (h.placed p hp) hook name peer).mpr cuts
      exact ⟨b, List.mem_flatMap.mpr ⟨p, hp, hb⟩, drops⟩
  · intro none name
    have bare := h.tables
    rw [none] at bare
    exact bare.restored name

/-- Two partitions are executed, and the first of them is healed. -/
def healedFirst (w : World Cluster) (p q : Partition) : Overlap :=
  ⟨(p.execute w).1.heal (q.execute (p.execute w).2).2,
    ([] ++ [(p.execute w).1] ++ [(q.execute (p.execute w).2).1]).filter (·.ordinal ≠ (p.execute w).1.ordinal)⟩

theorem healedFirst_reached {w : World Cluster} {p q : Partition} (hp : p.WellPlaced nodes) (hq : q.WellPlaced nodes)
    (fresh : (p.execute w).1.ordinal ≠ q.ordinal) :
    Relation.ReflTransGen (Step nodes) ⟨w, []⟩ (healedFirst w p q) := by
  have first : Step nodes ⟨w, []⟩ ⟨(p.execute w).2, [] ++ [(p.execute w).1]⟩ := by
    apply Step.execute ⟨w, []⟩ p hp
    simp
  let both : Overlap := ⟨(q.execute (p.execute w).2).2, [] ++ [(p.execute w).1] ++ [(q.execute (p.execute w).2).1]⟩
  have second : Step nodes ⟨(p.execute w).2, [] ++ [(p.execute w).1]⟩ both := by
    apply Step.execute ⟨(p.execute w).2, [] ++ [(p.execute w).1]⟩ q hq
    simpa using fresh
  have third : Step nodes both (healedFirst w p q) := by
    apply Step.heal both
    simp [both]
  exact ((Relation.ReflTransGen.single first).tail second).tail third

/-- pg1 is cut off, two nodes are split into halves, pg1 is joined again. -/
theorem healedFirst_drops_iff_cuts :
    let base := { dbNodes := ["pg1", "pg2"], extraNodes := [], ordinal := 1, dcMap := Dict.empty }
    let s := healedFirst ⟨fun _ => 0, idleCluster⟩ (.node ⟨base, some "pg1"⟩)
      (.halves ⟨{ base with ordinal := 2 }, none, none⟩)
    (∀ hook name, ∀ peer ∈ ["pg1", "pg2"],
      (s.world.env.node name).tables.drops hook (packetAt idleCluster.ipOf hook name peer) ↔
        (idleCluster.node name).tables.drops hook (packetAt idleCluster.ipOf hook name peer) ∨
          ∃ p ∈ s.active, p.Cuts hook name peer) ∧
      (s.active = [] → ∀ name,
        (s.world.env.node name).tables.builtin = (idleCluster.node name).tables.builtin ∧
          (s.world.env.node name).tables.user.get? = (idleCluster.node name).tables.user.get?) := by
  intro base s
  have sound : Sound idleCluster ["pg1", "pg2"] :=
    ⟨fun _ => rfl, by decide, by decide, by decide⟩
  have free := idleCluster_fstormFree
  have isolation : Partition.WellPlaced ["pg1", "pg2"] (.node ⟨base, some "pg1"⟩) :=
    ⟨rfl, fun target set => Option.some.inj set ▸ List.mem_cons_self⟩
  have split : Partition.WellPlaced ["pg1", "pg2"] (.halves ⟨{ base with ordinal := 2 }, none, none⟩) :=
    ⟨rfl, fun group1 group2 one => nomatch one⟩
  have executed := Partition.executed (w := ⟨fun _ => 0, idleCluster⟩) sound ⟨rfl, rfl⟩ isolation
  apply drops_iff_cuts sound free
  apply healedFirst_reached isolation split
  rw [executed.ordinal]
  decide

end Overlap

end Run

end FaultStorm
