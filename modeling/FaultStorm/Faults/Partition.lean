import FaultStorm.Faults.Builtin
import FaultStorm.Faults.Placement

/-!
# The partition actions

The packets each of the five partition actions is there to drop, the blocks its `execute`
places for them, and the chains its `heal` takes down. Chain names carry the ordinal, so the
blocks of two partitions never meet.
-/

namespace FaultStorm

open Python Iptables Cluster

/-! ## Chain names -/

/-- The chain names of the partition with the ordinal. -/
def Owned (ordinal : Int) (name : String) : Prop :=
  name = Partitioners.getChainName ordinal ∨
    ∃ direction, name = Partitioners.getDirectionalChainName ordinal direction

/-- A chain name tells the ordinal: it stands between the prefix and the next underscore. -/
theorem Owned.ordinalText {ordinal : Int} {name : String} (owned : Owned ordinal name) :
    (name.toList.drop 12).takeWhile (· ≠ '_') = (toString ordinal).toList := by
  have plain : ∀ c ∈ (toString ordinal).toList, (decide (c ≠ '_')) = true := by
    intro c member
    rcases Text.toString_chars ordinal member with digit | sign
    · have ne : c ≠ '_' := by rintro rfl; exact absurd digit (by decide)
      simpa using ne
    · rw [sign]
      decide
  have start : "FSTORM_PART_".toList.length = 12 := by decide
  rcases owned with rfl | ⟨direction, rfl⟩
  · rw [Partitioners.getChainName, String.toList_append, List.drop_append_of_le_length (by rw [start]),
      List.takeWhile_append_of_pos (Text.forall_of_all (by decide)), List.takeWhile_eq_self_iff.mpr plain]
    rfl
  · unfold Partitioners.getDirectionalChainName
    simp only [String.toList_append, List.append_assoc]
    rw [List.drop_append_of_le_length (by rw [start]), List.takeWhile_append_of_pos (Text.forall_of_all (by decide)),
      List.takeWhile_append_of_pos plain]
    cases direction <;> exact List.append_nil _

theorem Owned.unique {o o' : Int} {name : String} (h : Owned o name) (h' : Owned o' name) : o = o' := by
  have same := h.ordinalText.symm.trans h'.ordinalText
  exact Text.toString_injective (String.toList_inj.mp same)

theorem directional_injective {ordinal : Int} {d d' : Hook}
    (h : Partitioners.getDirectionalChainName ordinal d = Partitioners.getDirectionalChainName ordinal d') :
    d = d' := by
  have texts := congrArg String.toList h
  simp only [Partitioners.getDirectionalChainName, String.toList_append, List.append_assoc,
    List.append_cancel_left_eq] at texts
  cases d <;> cases d' <;> first | rfl | exact absurd texts (by decide)

/-! ## The partitions -/

/-- An instance of one of the partition classes. -/
inductive Partition
  | halves (a : PartitionRandomHalvesAction)
  | ring (a : PartitionMajoritiesRingAction)
  | node (a : PartitionRandomNodeAction)
  | subnet (a : PartitionRandomSubnetAction)
  | dc (a : PartitionRandomDcAction)

namespace Partition

def base : Partition → ActionBase
  | .halves a => a.toActionBase
  | .ring a => a.toActionBase
  | .node a => a.toActionBase
  | .subnet a => a.toActionBase
  | .dc a => a.toActionBase

def ordinal (p : Partition) : Int := p.base.ordinal

/-- Run a method of a partition: the object and the world it leaves. -/
def run {α : Type} (wrap : α → Partition) (m : ActionM α Unit) (a : α) (w : World Cluster) :
    Partition × World Cluster :=
  let (a, w) := (m.exec (a, w)).2
  (wrap a, w)

/-- `execute()`. Whether it raised makes no difference to the engine. -/
def execute (p : Partition) (w : World Cluster) : Partition × World Cluster :=
  match p with
  | .halves a => run .halves PartitionRandomHalvesAction.execute a w
  | .ring a => run .ring PartitionMajoritiesRingAction.execute a w
  | .node a => run .node PartitionRandomNodeAction.execute a w
  | .subnet a => run .subnet PartitionRandomSubnetAction.execute a w
  | .dc a => run .dc PartitionRandomDcAction.execute a w

/-- `heal()`. -/
def heal (p : Partition) (w : World Cluster) : World Cluster :=
  match p with
  | .halves a => (run .halves PartitionRandomHalvesAction.heal a w).2
  | .ring a => (run .ring PartitionMajoritiesRingAction.heal a w).2
  | .node a => (run .node PartitionRandomNodeAction.heal a w).2
  | .subnet a => (run .subnet PartitionRandomSubnetAction.heal a w).2
  | .dc a => (run .dc PartitionRandomDcAction.heal a w).2

/-- The members of the DC of the action. -/
def dcMembers (a : PartitionRandomDcAction) : List String := (a.dcName.bind a.dcMap.get?).getD []

/-- The parameters name nodes of the cluster only: two halves make it up, the ring and the
DCs repeat no node. -/
def WellPlaced (nodes : List String) (p : Partition) : Prop :=
  p.base.allNodes = nodes ∧ match p with
    | .halves a => ∀ group1 group2, a.group1 = some group1 → a.group2 = some group2 →
        (group1 ++ group2).Perm nodes
    | .ring a => ∀ ordered, a.ordered = some ordered → ordered.Nodup ∧ ordered ⊆ nodes
    | .node a => ∀ target, a.node = some target → target ∈ nodes
    | .subnet a => ∀ blocked, a.blockedNodes = some blocked → blocked ⊆ nodes
    | .dc a => ∀ dc members, a.dcMap.get? dc = some members → members.Nodup ∧ members ⊆ nodes

/-- The packets the partition is there to drop: those that `name` receives from `peer`, or
sends to it. -/
def Cuts (p : Partition) (hook : Hook) (name peer : String) : Prop :=
  match p with
  | .halves a => hook = .input ∧ ∃ group1 group2, a.group1 = some group1 ∧ a.group2 = some group2 ∧
      (name ∈ group1 ∧ peer ∈ group2 ∨ name ∈ group2 ∧ peer ∈ group1)
  | .ring a => hook = .input ∧ ∃ ordered i, a.ordered = some ordered ∧ ordered[i]? = some name ∧
      peer ∈ ordered ∧ ∀ j ≤ ordered.length / 2, ordered[(i + j) % ordered.length]? ≠ some peer
  | .node a => hook = .input ∧ name ∈ a.allNodes ∧ peer ∈ a.allNodes ∧ name ≠ peer ∧
      (a.node = some name ∨ a.node = some peer)
  | .subnet a => a.node = some name ∧ hook ∈ a.getIptablesDirections ∧
      ∃ blocked, a.blockedNodes = some blocked ∧ peer ∈ blocked
  | .dc a => hook = .input ∧ name ∈ a.allNodes ∧ peer ∈ a.allNodes ∧
      (name ∈ dcMembers a ∧ peer ∉ dcMembers a ∨ name ∉ dcMembers a ∧ peer ∈ dcMembers a)

/-! ## Their blocks -/

/-- Each node of one group drops what comes from the other group. -/
def crossing (chain : String) (group1 group2 : List String) : List Block :=
  group1.map (⟨·, chain, .input, group2⟩) ++ group2.map (⟨·, chain, .input, group1⟩)

/-- What `execute()` puts on the nodes, once its parameters are set. -/
def blocks : Partition → List Block
  | .halves a => match a.group1, a.group2 with
    | some group1, some group2 => crossing (Partitioners.getChainName a.ordinal) group1 group2
    | _, _ => []
  | .ring a => match a.ordered with
    | some ordered => ordered.zipIdx.map fun (n, i) =>
        ⟨n, Partitioners.getChainName a.ordinal, .input, PartitionMajoritiesRingAction.blocked ordered i⟩
    | none => []
  | .node a => match a.node with
    | some target =>
        crossing (Partitioners.getChainName a.ordinal) [target] (a.allNodes.filter (· ≠ target))
    | none => []
  | .subnet a => match a.node, a.blockedNodes with
    | some target, some blocked => a.getIptablesDirections.map fun direction =>
        ⟨target, Partitioners.getDirectionalChainName a.ordinal direction, direction, blocked⟩
    | _, _ => []
  | .dc a =>
    if dcMembers a = [] then []
    else crossing (Partitioners.getChainName a.ordinal) (dcMembers a)
      (a.allNodes.filter fun n => ! (dcMembers a).contains n)

/-- What `heal()` takes down. -/
def removals : Partition → List Removal
  | .subnet a => match a.node with
    | some target => a.getIptablesDirections.map fun direction =>
        ⟨target, Partitioners.getDirectionalChainName a.ordinal direction, direction⟩
    | none => []
  | p => p.base.allNodes.map (⟨·, Partitioners.getChainName p.ordinal, .input⟩)

variable {nodes : List String} {p : Partition}

theorem mem_crossing {chain : String} {group1 group2 : List String} {b : Block} :
    b ∈ crossing chain group1 group2 ↔ b.chain = chain ∧ b.hook = .input ∧
      (b.node ∈ group1 ∧ b.peers = group2 ∨ b.node ∈ group2 ∧ b.peers = group1) := by
  obtain ⟨n, chain', hook, peers⟩ := b
  simp only [crossing, List.mem_append, List.mem_map, Block.mk.injEq]
  grind

theorem crossing_cuts {chain : String} {group1 group2 : List String} (hook : Hook) (name peer : String) :
    (∃ b ∈ crossing chain group1 group2, b.node = name ∧ b.hook = hook ∧ peer ∈ b.peers) ↔
      hook = .input ∧ (name ∈ group1 ∧ peer ∈ group2 ∨ name ∈ group2 ∧ peer ∈ group1) := by
  constructor
  · rintro ⟨b, member, rfl, rfl, drops⟩
    obtain ⟨_, input, ⟨here, eq⟩ | ⟨here, eq⟩⟩ := mem_crossing.mp member
    · exact ⟨input, Or.inl ⟨here, eq ▸ drops⟩⟩
    · exact ⟨input, Or.inr ⟨here, eq ▸ drops⟩⟩
  · rintro ⟨rfl, ⟨here, there⟩ | ⟨here, there⟩⟩
    · exact ⟨⟨name, chain, .input, group2⟩, mem_crossing.mpr ⟨rfl, rfl, Or.inl ⟨here, rfl⟩⟩, rfl, rfl, there⟩
    · exact ⟨⟨name, chain, .input, group1⟩, mem_crossing.mpr ⟨rfl, rfl, Or.inr ⟨here, rfl⟩⟩, rfl, rfl, there⟩

theorem crossing_keys (chain : String) (group1 group2 : List String) :
    (crossing chain group1 group2).map (fun b => (b.node, b.chain)) =
      (group1 ++ group2).map fun n => (n, chain) := by
  simp [crossing, Function.comp_def]

theorem nodup_keys {l : List String} (distinct : l.Nodup) (chain : String) :
    (l.map fun n => (n, chain)).Nodup :=
  distinct.map fun _ _ eq => (Prod.mk.inj eq).1

/-- What the `i`-th node of a ring does not see. -/
theorem mem_blocked {ordered : List String} {i : Nat} (inside : i < ordered.length) (peer : String) :
    peer ∈ PartitionMajoritiesRingAction.blocked ordered i ↔
      peer ∈ ordered ∧ ∀ j ≤ ordered.length / 2, ordered[(i + j) % ordered.length]? ≠ some peer := by
  have lookup : ∀ j, ordered[(i + j) % ordered.length]? =
      some (ordered.getD ((i + j) % ordered.length) "") := by
    intro j
    have below : (i + j) % ordered.length < ordered.length := Nat.mod_lt _ (by omega)
    rw [List.getD_eq_getElem?_getD, List.getElem?_eq_getElem below]
    rfl
  have visible : peer ∈ PartitionMajoritiesRingAction.visible ordered i ↔
      ∃ j ≤ ordered.length / 2, ordered[(i + j) % ordered.length]? = some peer := by
    unfold PartitionMajoritiesRingAction.visible
    simp only [List.mem_map, List.mem_range, lookup, Option.some.injEq, Nat.lt_succ_iff]
  unfold PartitionMajoritiesRingAction.blocked
  rw [List.mem_filter]
  refine and_congr_right fun _ => ?_
  simp only [Bool.not_eq_true', List.contains_eq_mem, decide_eq_false_iff_not, visible, not_exists, not_and,
    ne_eq]

/-- The blocks drop what the partition is there to drop. -/
theorem blocks_iff_cuts (placed : WellPlaced nodes p) (hook : Hook) (name peer : String) :
    (∃ b ∈ p.blocks, b.node = name ∧ b.hook = hook ∧ peer ∈ b.peers) ↔ p.Cuts hook name peer := by
  obtain ⟨all, placed⟩ := placed
  cases p with
  | halves a =>
    simp only [blocks, Cuts]
    cases a.group1 <;> cases a.group2 <;> simp [crossing_cuts]
  | ring a =>
    simp only [blocks, Cuts]
    cases a.ordered with
    | none => simp
    | some ordered =>
      simp only [List.mem_map, Prod.exists, List.mem_zipIdx_iff_getElem?, Option.some.injEq]
      constructor
      · rintro ⟨b, ⟨n, i, at_i, rfl⟩, rfl, rfl, blocked⟩
        have inside := (List.getElem?_eq_some_iff.mp at_i).1
        obtain ⟨member, outside⟩ := (mem_blocked inside peer).mp blocked
        exact ⟨rfl, ordered, i, rfl, at_i, member, outside⟩
      · rintro ⟨rfl, _, i, rfl, at_i, member, outside⟩
        have inside := (List.getElem?_eq_some_iff.mp at_i).1
        exact ⟨_, ⟨name, i, at_i, rfl⟩, rfl, rfl, (mem_blocked inside peer).mpr ⟨member, outside⟩⟩
  | node a =>
    simp only [blocks, Cuts]
    have all : a.allNodes = nodes := all
    cases target : a.node with
    | none => simp
    | some n =>
      have member := placed n target
      rw [crossing_cuts]
      simp only [all, List.mem_singleton, List.mem_filter, decide_eq_true_eq, Option.some.injEq]
      grind
  | subnet a =>
    simp only [blocks, Cuts]
    cases a.node <;> cases a.blockedNodes <;> simp
    grind
  | dc a =>
    simp only [blocks, Cuts]
    have all : a.allNodes = nodes := all
    have inside : ∀ n ∈ dcMembers a, n ∈ nodes := by
      intro n member
      unfold dcMembers at member
      cases found : a.dcName.bind a.dcMap.get? with
      | none => rw [found] at member; cases member
      | some members =>
        rw [found] at member
        obtain ⟨dc, _, get⟩ := Option.bind_eq_some_iff.mp found
        exact (placed dc members get).2 member
    split
    · rename_i empty
      simp [empty]
    · rw [crossing_cuts]
      simp only [all, List.mem_filter, Bool.not_eq_true', List.contains_eq_mem, decide_eq_false_iff_not]
      grind

theorem dcMembers_placed {a : PartitionRandomDcAction} (placed : WellPlaced nodes (.dc a)) :
    (dcMembers a).Nodup ∧ dcMembers a ⊆ nodes := by
  unfold dcMembers
  cases found : a.dcName.bind a.dcMap.get? with
  | none => simp
  | some members =>
    obtain ⟨dc, _, get⟩ := Option.bind_eq_some_iff.mp found
    exact placed.2 dc members get

theorem getIptablesDirections_nodup (a : PartitionRandomSubnetAction) : a.getIptablesDirections.Nodup := by
  unfold PartitionRandomSubnetAction.getIptablesDirections
  split
  · decide
  · split <;> decide

/-- A chain of a partition and what it is linked to: a subnet partition has one for each direction. -/
def Hooked (p : Partition) (chain : String) (hook : Hook) : Prop :=
  match p with
  | .subnet a => chain = Partitioners.getDirectionalChainName a.ordinal hook
  | p => chain = Partitioners.getChainName p.ordinal ∧ hook = .input

theorem Hooked.owned {chain : String} {hook : Hook} (h : p.Hooked chain hook) : Owned p.ordinal chain := by
  cases p with
  | subnet a => exact Or.inr ⟨hook, h⟩
  | _ => exact Or.inl h.1

theorem Hooked.unique {chain : String} {hook hook' : Hook} (h : p.Hooked chain hook) (h' : p.Hooked chain hook') :
    hook = hook' := by
  cases p with
  | subnet a => exact directional_injective (h.symm.trans h')
  | _ => exact h.2.trans h'.2.symm

theorem blocks_hooked {b : Block} (member : b ∈ p.blocks) : p.Hooked b.chain b.hook := by
  have crossed : ∀ {chain group1 group2}, b ∈ crossing chain group1 group2 → b.chain = chain ∧ b.hook = .input :=
    fun inside => ⟨(mem_crossing.mp inside).1, (mem_crossing.mp inside).2.1⟩
  cases p with
  | halves a =>
    simp only [blocks] at member
    split at member
    · exact crossed member
    · cases member
  | ring a =>
    simp only [blocks] at member
    split at member
    · obtain ⟨_, _, rfl⟩ := List.mem_map.mp member
      exact ⟨rfl, rfl⟩
    · cases member
  | node a =>
    simp only [blocks] at member
    split at member
    · exact crossed member
    · cases member
  | subnet a =>
    simp only [blocks] at member
    split at member
    · obtain ⟨direction, _, rfl⟩ := List.mem_map.mp member
      rfl
    · cases member
  | dc a =>
    simp only [blocks] at member
    split at member
    · cases member
    · exact crossed member

theorem removals_hooked {r : Removal} (member : r ∈ p.removals) : p.Hooked r.chain r.hook := by
  cases p with
  | subnet a =>
    simp only [removals] at member
    split at member
    · obtain ⟨direction, _, rfl⟩ := List.mem_map.mp member
      rfl
    · cases member
  | _ =>
    obtain ⟨_, _, rfl⟩ := List.mem_map.mp member
    exact ⟨rfl, rfl⟩

/-- No two blocks of a partition share a node and a chain. -/
theorem blocks_keys (distinct : nodes.Nodup) (placed : WellPlaced nodes p) :
    (p.blocks.map fun b => (b.node, b.chain)).Nodup := by
  cases p with
  | halves a =>
    simp only [blocks]
    split
    · rename_i group1 group2 one two
      rw [crossing_keys]
      exact nodup_keys ((placed.2 group1 group2 one two).nodup_iff.mpr distinct) _
    · exact List.nodup_nil
  | ring a =>
    simp only [blocks]
    split
    · rename_i ordered set
      have keys : (ordered.zipIdx.map fun x => (x.1, Partitioners.getChainName a.ordinal)) =
          ordered.map fun n => (n, Partitioners.getChainName a.ordinal) := by
        have firsts := congrArg (List.map fun n => (n, Partitioners.getChainName a.ordinal))
          (List.zipIdx_map_fst 0 ordered)
        simpa only [List.map_map, Function.comp_def] using firsts
      rw [List.map_map]
      exact keys ▸ nodup_keys (placed.2 ordered set).1 _
    · exact List.nodup_nil
  | node a =>
    simp only [blocks]
    split
    · rename_i target set
      have all : a.allNodes.Nodup := placed.1.symm ▸ distinct
      rw [crossing_keys]
      refine nodup_keys (List.nodup_cons.mpr ⟨?_, all.filter _⟩) _
      simp
    · exact List.nodup_nil
  | subnet a =>
    simp only [blocks]
    split
    · rw [List.map_map]
      refine (getIptablesDirections_nodup a).map fun d d' eq => ?_
      exact directional_injective (Prod.mk.inj eq).2
    · exact List.nodup_nil
  | dc a =>
    simp only [blocks]
    split
    · exact List.nodup_nil
    · have all : a.allNodes.Nodup := placed.1.symm ▸ distinct
      rw [crossing_keys]
      refine nodup_keys (List.Nodup.append (dcMembers_placed placed).1 (all.filter _) ?_) _
      intro n member outside
      have := (List.mem_filter.mp outside).2
      simp [member] at this

/-- Groups of nodes of the cluster cross each other inside it. -/
theorem crossing_placed {chain : String} {group1 group2 : List String} {b : Block} (one : group1 ⊆ nodes) (two : group2 ⊆ nodes)
    (member : b ∈ crossing chain group1 group2) : b.node ∈ nodes ∧ b.chain = chain ∧ b.peers ⊆ nodes := by
  obtain ⟨named, _, ⟨here, eq⟩ | ⟨here, eq⟩⟩ := mem_crossing.mp member
  · exact ⟨one here, named, eq ▸ two⟩
  · exact ⟨two here, named, eq ▸ one⟩

/-- A partition drops packets from, or to, nodes of the cluster only, and `heal()` takes down every
block of it, at the chain it is linked to. -/
theorem blocks_placed (placed : WellPlaced nodes p) {b : Block} (member : b ∈ p.blocks) :
    b.peers ⊆ nodes ∧ ∃ r ∈ p.removals, r.Covers b := by
  obtain ⟨all, placed⟩ := id placed
  have everywhere : ∀ {chain : String}, b.node ∈ nodes ∧ b.chain = chain ∧ b.peers ⊆ nodes → b.peers ⊆ nodes ∧
      ∃ r ∈ p.base.allNodes.map (⟨·, chain, .input⟩ : String → Removal), r.Covers b := by
    rintro chain ⟨inside, rfl, peers⟩
    exact ⟨peers, _, List.mem_map_of_mem (all.symm ▸ inside), rfl, rfl⟩
  have others : ∀ keep : String → Bool, p.base.allNodes.filter keep ⊆ nodes :=
    fun keep n there => all ▸ (List.mem_filter.mp there).1
  cases p with
  | halves a =>
    simp only [blocks] at member
    split at member
    · rename_i group1 group2 one two
      have perm := placed group1 group2 one two
      exact everywhere (crossing_placed (fun n here => perm.subset (List.mem_append_left _ here))
        (fun n here => perm.subset (List.mem_append_right _ here)) member)
    · cases member
  | ring a =>
    simp only [blocks] at member
    split at member
    · rename_i ordered set
      have inside := (placed ordered set).2
      obtain ⟨⟨n, i⟩, at_i, rfl⟩ := List.mem_map.mp member
      exact everywhere ⟨inside (List.mem_of_getElem? (List.mem_zipIdx_iff_getElem?.mp at_i)), rfl,
        fun n there => inside (List.mem_filter.mp there).1⟩
    · cases member
  | node a =>
    simp only [blocks] at member
    split at member
    · rename_i target set
      exact everywhere (crossing_placed (fun n here => List.mem_singleton.mp here ▸ placed target set) (others _) member)
    · cases member
  | subnet a =>
    simp only [blocks] at member
    split at member
    · rename_i target blocked here set
      obtain ⟨direction, among, rfl⟩ := List.mem_map.mp member
      refine ⟨placed blocked set, ⟨target, _, direction⟩, ?_, rfl, rfl⟩
      simp only [removals, here]
      exact List.mem_map.mpr ⟨direction, among, rfl⟩
    · cases member
  | dc a =>
    simp only [blocks] at member
    split at member
    · cases member
    · exact everywhere (crossing_placed (dcMembers_placed ⟨all, placed⟩).2 (others _) member)

end Partition

end FaultStorm
