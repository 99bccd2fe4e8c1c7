import FaultStorm.Faults.Partitioners

/-!
# Placements

What a partition puts on the nodes of a cluster, as a list: a `Block` is a chain on one node
that drops the packets from, or to, some peers. `Placed start c l` says that the filter
tables of `c` are those of `start` with the blocks `l` on top; placing blocks appends them to
the list and removing chains filters it, whatever else is in the list.
-/

namespace FaultStorm

open Python Iptables Cluster

/-- A chain of drop rules on a node. -/
structure Block where
  node : String
  chain : String
  hook : Hook
  peers : List String
  deriving DecidableEq, Repr

/-- The rule that drops what comes from an address, or what goes to it. -/
def dropRule : Hook → String → Rule
  | .input, ip => { src := some ip, target := .drop }
  | .output, ip => { dst := some ip, target := .drop }

@[simp] theorem dropRule_target (hook : Hook) (ip : String) : (dropRule hook ip).target = .drop := by
  cases hook <;> rfl

/-- The install of a block, for the addresses of the nodes. -/
def Block.install (ip : String → String) (b : Block) : Install :=
  ⟨b.chain, b.hook, b.peers.map fun peer => dropRule b.hook (ip peer)⟩

/-- A chain to be taken down. -/
structure Removal where
  node : String
  chain : String
  hook : Hook
  deriving DecidableEq, Repr

/-- The removal takes the block down. -/
def Removal.Covers (r : Removal) (b : Block) : Prop := r.node = b.node ∧ r.chain = b.chain

instance (r : Removal) (b : Block) : Decidable (r.Covers b) := inferInstanceAs (Decidable (_ ∧ _))

namespace Cluster

/-- The address of a node, where docker knows one. -/
def ipOf (c : Cluster) (name : String) : String := (c.ip name).getD ""

def place (c : Cluster) (ip : String → String) (blocks : List Block) : Cluster :=
  blocks.foldl (fun c b => c.onTables b.node (b.install ip).build) c

def remove (c : Cluster) (removals : List Removal) : Cluster :=
  removals.foldl (fun c r => c.onTables r.node (runAll (removeCommands r.chain r.hook))) c

/-- The cluster differs from another one in its filter tables only. -/
structure SameDocker (start c : Cluster) : Prop where
  ip : c.ip = start.ip
  outage : c.outage = start.outage

theorem SameDocker.onTables {start c : Cluster} (h : SameDocker start c) (name : String)
    (f : Tables → Tables) : SameDocker start (c.onTables name f) :=
  ⟨h.ip, h.outage⟩

theorem SameDocker.place {start c : Cluster} (h : SameDocker start c) (ip : String → String)
    (blocks : List Block) : SameDocker start (c.place ip blocks) := by
  induction blocks generalizing c with
  | nil => exact h
  | cons b blocks ih => exact ih (h.onTables ..)

theorem SameDocker.remove {start c : Cluster} (h : SameDocker start c) (removals : List Removal) :
    SameDocker start (c.remove removals) := by
  induction removals generalizing c with
  | nil => exact h
  | cons r removals ih => exact ih (h.onTables ..)

end Cluster

/-- The installs of the blocks on a node. -/
def installsAt (ip : String → String) (name : String) (blocks : List Block) : List Install :=
  (blocks.filter (·.node = name)).map (Block.install ip)

/-- The filter tables of `c` are those of `start` with the blocks on top. -/
def Placed (start c : Cluster) (blocks : List Block) : Prop :=
  ∀ name, Over (start.node name).tables (installsAt start.ipOf name blocks) (c.node name).tables

section Placed

variable {start c : Cluster} {blocks : List Block}

theorem placed_nil (start : Cluster) : Placed start start [] := fun _ => Over.base _

theorem mem_installsAt {ip : String → String} {name : String} {i : Install} :
    i ∈ installsAt ip name blocks ↔ ∃ b ∈ blocks, b.node = name ∧ b.install ip = i := by
  simp [installsAt, and_assoc]

/-- Placing one block on a node that has no chain of its name. -/
theorem Placed.placeOne (h : Placed start c blocks) (b : Block) (free : (start.node b.node).tables.Free b.chain)
    (outside : (b.node, b.chain) ∉ blocks.map fun b => (b.node, b.chain)) :
    Placed start (c.onTables b.node (b.install start.ipOf).build) (blocks ++ [b]) := by
  intro name
  rw [node_onTables]
  by_cases eq : name = b.node
  · subst eq
    have fresh : (b.install start.ipOf).chain ∉ (installsAt start.ipOf b.node blocks).map (·.chain) := by
      intro member
      obtain ⟨i, hi, same⟩ := List.mem_map.mp member
      obtain ⟨b', hb', node, rfl⟩ := mem_installsAt.mp hi
      exact outside (List.mem_map.mpr ⟨b', hb', by rw [node, show b'.chain = b.chain from same]⟩)
    have built := (h b.node).build free fresh (by simp [Block.install])
    rw [if_pos rfl]
    simpa [installsAt, List.filter_append] using built
  · have ne : ¬ b.node = name := fun e => eq e.symm
    rw [if_neg eq]
    simpa [installsAt, List.filter_append, ne] using h name

/-- Placing blocks adds them. -/
theorem Placed.place (h : Placed start c blocks) (more : List Block)
    (free : ∀ b ∈ more, (start.node b.node).tables.Free b.chain)
    (distinct : ((blocks ++ more).map fun b => (b.node, b.chain)).Nodup) :
    Placed start (c.place start.ipOf more) (blocks ++ more) := by
  induction more generalizing c blocks with
  | nil =>
    rw [List.append_nil]
    exact h
  | cons b more ih =>
    have outside : (b.node, b.chain) ∉ blocks.map fun b => (b.node, b.chain) := by
      rw [List.map_append, List.nodup_append] at distinct
      intro member
      exact distinct.2.2 _ member _ (by simp) rfl
    have one := h.placeOne b (free b List.mem_cons_self) outside
    rw [List.append_cons] at distinct ⊢
    exact ih one (fun b' member => free b' (List.mem_cons_of_mem b member)) distinct

/-- Taking down one chain on a node. -/
theorem Placed.removeOne (h : Placed start c blocks) (r : Removal)
    (free : (start.node r.node).tables.Free r.chain) (at_hook : ∀ b ∈ blocks, r.Covers b → b.hook = r.hook) :
    Placed start (c.onTables r.node (runAll (removeCommands r.chain r.hook)))
      (blocks.filter fun b => ¬ r.Covers b) := by
  intro name
  have split : installsAt start.ipOf name (blocks.filter fun b => ¬ r.Covers b) =
      if name = r.node then (installsAt start.ipOf name blocks).filter (·.chain ≠ r.chain)
      else installsAt start.ipOf name blocks := by
    rw [installsAt, installsAt, List.filter_map, List.filter_filter]
    by_cases eq : name = r.node
    · rw [if_pos eq, List.filter_filter]
      refine congrArg _ (List.filter_congr fun b _ => ?_)
      by_cases here : b.node = name
      · have covers : r.Covers b ↔ b.chain = r.chain := by
          unfold Removal.Covers
          rw [here, eq]
          exact ⟨fun h => h.2.symm, fun h => ⟨rfl, h.symm⟩⟩
        rw [Bool.eq_iff_iff]
        simp only [Block.install, Function.comp_apply, here, covers, decide_true, Bool.true_and, Bool.and_true,
          decide_eq_true_eq, ne_eq]
        exact decide_eq_true_iff.symm
      · simp [here]
    · rw [if_neg eq]
      refine congrArg _ (List.filter_congr fun b _ => ?_)
      by_cases here : b.node = name
      · have covers : ¬ r.Covers b := fun h => eq (here ▸ h.1.symm)
        simp [covers, here]
      · simp [here]
  rw [node_onTables, split]
  by_cases eq : name = r.node
  · subst eq
    rw [if_pos rfl, if_pos rfl]
    refine (h r.node).removeAny free fun i member chain => ?_
    obtain ⟨b, hb, node, rfl⟩ := mem_installsAt.mp member
    exact at_hook b hb ⟨node.symm, Eq.symm chain⟩
  · rw [if_neg eq, if_neg eq]
    exact h name

/-- Taking down chains filters the blocks. -/
theorem Placed.remove (h : Placed start c blocks) (removals : List Removal)
    (free : ∀ r ∈ removals, (start.node r.node).tables.Free r.chain)
    (at_hook : ∀ r ∈ removals, ∀ b ∈ blocks, r.Covers b → b.hook = r.hook) :
    Placed start (c.remove removals) (blocks.filter fun b => ∀ r ∈ removals, ¬ r.Covers b) := by
  induction removals generalizing c blocks with
  | nil =>
    rw [List.filter_eq_self.mpr fun b _ => by simp]
    exact h
  | cons r removals ih =>
    have one := h.removeOne r (free r List.mem_cons_self) (at_hook r List.mem_cons_self)
    have all := ih one (fun s member => free s (List.mem_cons_of_mem r member)) fun s member b hb =>
      at_hook s (List.mem_cons_of_mem r member) b (List.mem_filter.mp hb).1
    rw [List.filter_filter] at all
    have same : (blocks.filter fun b => ∀ s ∈ r :: removals, ¬ s.Covers b) =
        blocks.filter fun b => (decide (∀ s ∈ removals, ¬ s.Covers b)) && decide (¬ r.Covers b) := by
      refine List.filter_congr fun b _ => ?_
      rw [Bool.eq_iff_iff]
      simp [and_comm]
    rw [same]
    exact all

/-- The packet that a node exchanges with a peer: the node receives it at its INPUT chain and
sends it at its OUTPUT chain. -/
def packetAt (ip : String → String) (hook : Hook) (name peer : String) : Packet :=
  match hook with
  | .input => ⟨ip peer, ip name⟩
  | .output => ⟨ip name, ip peer⟩

theorem dropRule_matches (ip : String → String) (hook : Hook) (name peer : String) (addr : String) :
    (dropRule hook addr).Matches (packetAt ip hook name peer) ↔ addr = ip peer := by
  cases hook <;> simp [dropRule, Rule.Matches, packetAt]

/-- A node drops what its starting table drops and what the blocks on it name. -/
theorem Placed.drops_iff (h : Placed start c blocks) (hook : Hook) {name peer : String}
    (known : ∀ b ∈ blocks, ∀ p ∈ b.peers, start.ipOf p = start.ipOf peer → p = peer) :
    (c.node name).tables.drops hook (packetAt start.ipOf hook name peer) ↔
      (start.node name).tables.drops hook (packetAt start.ipOf hook name peer) ∨
        ∃ b ∈ blocks, b.node = name ∧ b.hook = hook ∧ peer ∈ b.peers := by
  rw [(h name).drops_iff]
  refine or_congr_right ?_
  constructor
  · rintro ⟨i, member, at_hook, r, rule, matched⟩
    obtain ⟨b, hb, node, rfl⟩ := mem_installsAt.mp member
    obtain ⟨p, hp, rfl⟩ := List.mem_map.mp rule
    have hook_eq : b.hook = hook := at_hook
    rw [hook_eq, dropRule_matches] at matched
    exact ⟨b, hb, node, hook_eq, known b hb p hp matched ▸ hp⟩
  · rintro ⟨b, hb, node, rfl, member⟩
    refine ⟨b.install start.ipOf, mem_installsAt.mpr ⟨b, hb, node, rfl⟩, rfl, _,
      List.mem_map.mpr ⟨peer, member, rfl⟩, ?_⟩
    rw [dropRule_matches]

/-- Without blocks the filter tables are the starting ones. -/
theorem Placed.restored (h : Placed start c []) (name : String) :
    (c.node name).tables.builtin = (start.node name).tables.builtin ∧
      (c.node name).tables.user.get? = (start.node name).tables.user.get? :=
  (h name).restored

end Placed

end FaultStorm
