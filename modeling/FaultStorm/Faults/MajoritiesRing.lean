import FaultStorm.Circle.Windows
import FaultStorm.Faults.Overlap

/-!
# The majorities ring

Each node of the ring accepts input from the window of nodes that starts with itself. The counts
are those of the windows of a circle: every node accepts a majority and is accepted by one, no two
accept the same nodes, and only opposite nodes accept each other.
-/

namespace FaultStorm

open Python Iptables Cluster FaultStorm.Circle

/-! ## Who accepts whom -/

open Classical in
/-- The nodes whose packets reach a node. -/
noncomputable def Cluster.accepted (c : Cluster) (nodes : List String) (name : String) : Finset String :=
  nodes.toFinset.filter fun peer => ¬ (c.node name).tables.drops .input (packetAt c.ipOf .input name peer)

/-- Packets pass between two nodes in both directions. -/
def Cluster.TwoWay (c : Cluster) (nodes : List String) (name peer : String) : Prop :=
  peer ∈ c.accepted nodes name ∧ name ∈ c.accepted nodes peer

/-- No node drops what comes from another one. -/
def Cluster.Connected (c : Cluster) (nodes : List String) : Prop :=
  ∀ name ∈ nodes, ∀ peer ∈ nodes, ¬ (c.node name).tables.drops .input (packetAt c.ipOf .input name peer)

theorem mem_accepted {c : Cluster} {nodes : List String} {name peer : String} :
    peer ∈ c.accepted nodes name ↔
      peer ∈ nodes ∧ ¬ (c.node name).tables.drops .input (packetAt c.ipOf .input name peer) := by
  simp [accepted]

/-- The nodes of a list count in any order. -/
theorem accepted_perm {c : Cluster} {l l' : List String} (perm : l.Perm l') : c.accepted l = c.accepted l' := by
  funext name
  ext peer
  rw [mem_accepted, mem_accepted, perm.mem_iff]

/-! ## The ring -/

/-- The nodes at the places of a ring. -/
def places {ring : List String} (distinct : ring.Nodup) : Fin ring.length ↪ String :=
  ⟨ring.get, List.nodup_iff_injective_get.mp distinct⟩

/-- Each node of the ring accepts its window. -/
structure RingInForce (c : Cluster) (ring : List String) : Prop where
  distinct : ring.Nodup
  accepted : ∀ i, c.accepted ring (ring.get i) = (window (ring.length / 2 + 1) i).map (places distinct)

section Blocked

variable {ring : List String} {i p : Fin ring.length}

theorem getElem?_eq_place (distinct : ring.Nodup) (k : Nat) : ring[k]? = some (ring.get p) ↔ k = p.val := by
  rw [List.getElem?_eq_some_iff]
  constructor
  · rintro ⟨inside, same⟩
    exact (List.Nodup.getElem_inj_iff distinct).mp same
  · rintro rfl
    exact ⟨p.isLt, rfl⟩

/-- A node blocks what is outside its window. -/
theorem blocked_iff (distinct : ring.Nodup) :
    ring.get p ∈ PartitionMajoritiesRingAction.blocked ring i ↔ p ∉ window (ring.length / 2 + 1) i := by
  have some := i.isLt
  rw [Partition.mem_blocked i.isLt, mem_window]
  simp only [List.get_mem, true_and, ne_eq, getElem?_eq_place distinct]
  constructor
  · intro outside near
    exact outside (p - i).val (by omega) ((sub_val_eq (p - i).isLt).mp rfl)
  · intro far j near same
    have := (sub_val_eq (by omega)).mpr same
    omega

/-- The blocks of a ring, seen from a place. -/
theorem blocks_ring (distinct : ring.Nodup) (base : ActionBase) (i : Fin ring.length) (peer : String) :
    (∃ b ∈ Partition.blocks (.ring ⟨base, some ring⟩), b.node = ring.get i ∧ b.hook = .input ∧ peer ∈ b.peers) ↔
      peer ∈ PartitionMajoritiesRingAction.blocked ring i := by
  simp only [Partition.blocks, List.mem_map, Prod.exists, List.mem_zipIdx_iff_getElem?]
  constructor
  · rintro ⟨b, ⟨n, k, at_k, rfl⟩, rfl, -, blocked⟩
    rwa [← (getElem?_eq_place distinct k).mp at_k]
  · intro blocked
    exact ⟨_, ⟨ring.get i, i, (getElem?_eq_place distinct i).mpr rfl, rfl⟩, rfl, rfl, blocked⟩

end Blocked

/-! ## Executing it -/

/-- The nodes of the ring, in the order that is given or in some order. -/
def PartitionMajoritiesRingAction.members (a : PartitionMajoritiesRingAction) : List String :=
  a.ordered.getD a.allNodes

section Executed

variable {start : Cluster} {a : PartitionMajoritiesRingAction}

/-- Where docker works and the nodes reach each other, `execute()` puts a ring of the nodes in force:
the given one, if one is given. -/
theorem execute_ringInForce (sound : Sound start a.members)
    (free : ∀ name ∈ a.members, (start.node name).tables.Free (Partitioners.getChainName a.ordinal))
    (connected : start.Connected a.members) (draws : Nat → Nat) :
    ∃ ring, ring.Perm a.members ∧ (∀ given, a.ordered = some given → ring = given) ∧
      RingInForce ((Partition.ring a).execute ⟨draws, start⟩).2.env ring := by
  obtain ⟨ring, perm, given, drawn⟩ := Partition.drawn_ring draws a
  obtain ⟨-, later, ran⟩ := Partition.ran_execute (.ring a) ⟨draws, start⟩
  have distinct : ring.Nodup := perm.nodup_iff.mpr sound.distinct
  refine ⟨ring, perm, given, distinct, fun i => ?_⟩
  have acted : (Partition.program (.ring ⟨a.toActionBase, some ring⟩)).exec start =
      (.ok (), start.place start.ipOf (Partition.blocks (.ring ⟨a.toActionBase, some ring⟩))) :=
    exec_ring sound ⟨rfl, rfl⟩ a.ordinal perm.subset
  rw [ran, drawn, acted]
  -- the blocks depend on the order and the ordinal only, so the node lists may be those of the ring
  have wellPlaced : Partition.WellPlaced a.members
      (.ring ⟨{ a.toActionBase with dbNodes := a.members, extraNodes := [] }, some ring⟩) :=
    ⟨List.append_nil _, fun ordered same => Option.some.inj same ▸ ⟨distinct, perm.subset⟩⟩
  have placed : Placed start (start.place start.ipOf (Partition.blocks (.ring ⟨a.toActionBase, some ring⟩)))
      (Partition.blocks (.ring ⟨a.toActionBase, some ring⟩)) := by
    refine (placed_nil start).place _ (fun b member => ?_) (Partition.blocks_keys sound.distinct wellPlaced)
    obtain ⟨⟨n, k⟩, at_k, rfl⟩ := List.mem_map.mp member
    exact free n (perm.subset (List.mem_of_getElem? (List.mem_zipIdx_iff_getElem?.mp at_k)))
  have addresses : (start.place start.ipOf (Partition.blocks (.ring ⟨a.toActionBase, some ring⟩))).ipOf = start.ipOf := by
    have docker : SameDocker start start := ⟨rfl, rfl⟩
    funext name
    rw [ipOf, (docker.place ..).ip]
    rfl
  have drops : ∀ p : Fin ring.length,
      ((start.place start.ipOf (Partition.blocks (.ring ⟨a.toActionBase, some ring⟩))).node (ring.get i)).tables.drops
          .input (packetAt start.ipOf .input (ring.get i) (ring.get p)) ↔ p ∉ window (ring.length / 2 + 1) i := by
    intro p
    have inside : ∀ q : Fin ring.length, ring.get q ∈ a.members := fun q => perm.subset (List.get_mem ring q)
    have known : ∀ b ∈ Partition.blocks (.ring ⟨a.toActionBase, some ring⟩), ∀ other ∈ b.peers,
        start.ipOf other = start.ipOf (ring.get p) → other = ring.get p := fun b member other among =>
      sound.ipOf_injective ((Partition.blocks_placed wellPlaced member).1 among) (inside p)
    rw [placed.drops_iff .input known, blocks_ring distinct, blocked_iff distinct]
    exact or_iff_right (connected _ (inside i) _ (inside p))
  ext peer
  rw [mem_accepted, addresses, Finset.mem_map]
  constructor
  · rintro ⟨member, reaches⟩
    obtain ⟨p, rfl⟩ := List.get_of_mem member
    exact ⟨p, not_not.mp fun outside => reaches ((drops p).mpr outside), rfl⟩
  · rintro ⟨p, near, rfl⟩
    exact ⟨List.get_mem ring p, fun dropped => (drops p).mp dropped near⟩

end Executed

/-! ## What is in force -/

namespace RingInForce

variable {c : Cluster} {ring : List String} {i p : Fin ring.length}

theorem mem_accepted_iff (h : RingInForce c ring) :
    ring.get p ∈ c.accepted ring (ring.get i) ↔ p ∈ window (ring.length / 2 + 1) i := by
  rw [h.accepted]
  exact Finset.mem_map' (places h.distinct)

/-- A node accepts a majority, itself included. -/
theorem card_accepted (h : RingInForce c ring) (three : 3 ≤ ring.length) {name : String} (member : name ∈ ring) :
    (c.accepted ring name).card = ring.length / 2 + 1 ∧ name ∈ c.accepted ring name := by
  have : NeZero ring.length := ⟨by omega⟩
  obtain ⟨i, rfl⟩ := List.get_of_mem member
  constructor
  · rw [h.accepted, Finset.card_map, card_window (by omega)]
  · rw [h.mem_accepted_iff, mem_window, sub_self]
    exact Nat.succ_pos _

/-- No two nodes accept the same nodes. -/
theorem accepted_injective (h : RingInForce c ring) (three : 3 ≤ ring.length) {name other : String}
    (member : name ∈ ring) (member' : other ∈ ring) (same : c.accepted ring name = c.accepted ring other) :
    name = other := by
  have : NeZero ring.length := ⟨by omega⟩
  obtain ⟨i, rfl⟩ := List.get_of_mem member
  obtain ⟨j, rfl⟩ := List.get_of_mem member'
  rw [h.accepted, h.accepted] at same
  rw [window_injective (by omega) (by omega) (Finset.map_injective _ same)]

/-- A node is accepted by a majority. -/
theorem card_accepting (h : RingInForce c ring) (three : 3 ≤ ring.length) {peer : String} (member : peer ∈ ring) :
    (ring.toFinset.filter fun name => peer ∈ c.accepted ring name).card = ring.length / 2 + 1 := by
  have : NeZero ring.length := ⟨by omega⟩
  obtain ⟨p, rfl⟩ := List.get_of_mem member
  have accepting : (ring.toFinset.filter fun name => ring.get p ∈ c.accepted ring name) =
      (Finset.univ.filter fun i => p ∈ window (ring.length / 2 + 1) i).map (places h.distinct) := by
    ext name
    rw [Finset.mem_filter, List.mem_toFinset, Finset.mem_map]
    constructor
    · rintro ⟨here, accepts⟩
      obtain ⟨i, rfl⟩ := List.get_of_mem here
      exact ⟨i, Finset.mem_filter.mpr ⟨Finset.mem_univ i, h.mem_accepted_iff.mp accepts⟩, rfl⟩
    · rintro ⟨i, covers, rfl⟩
      exact ⟨List.get_mem ring i, h.mem_accepted_iff.mpr (Finset.mem_filter.mp covers).2⟩
  rw [accepting, Finset.card_map, card_covering (by omega)]

/-- Two nodes accept each other only if they are opposite. -/
theorem twoWay_iff (h : RingInForce c ring) (ne : p ≠ i) :
    c.TwoWay ring (ring.get i) (ring.get p) ↔ 2 * (p - i).val = ring.length := by
  rw [TwoWay, h.mem_accepted_iff, h.mem_accepted_iff]
  exact mutual_iff ne

open Classical in
/-- The nodes that a node reaches and hears are no majority, itself included. -/
theorem card_twoWay (h : RingInForce c ring) (three : 3 ≤ ring.length) {name : String} (member : name ∈ ring) :
    2 * (ring.toFinset.filter (c.TwoWay ring name)).card ≤ ring.length := by
  obtain ⟨i, rfl⟩ := List.get_of_mem member
  have opposite : ∀ peer ∈ ring.toFinset.filter (c.TwoWay ring (ring.get i)),
      peer = ring.get i ∨ ∃ p : Fin ring.length, peer = ring.get p ∧ 2 * (p - i).val = ring.length := by
    intro peer among
    obtain ⟨inside, twoWay⟩ := Finset.mem_filter.mp among
    obtain ⟨p, rfl⟩ := List.get_of_mem (List.mem_toFinset.mp inside)
    by_cases same : p = i
    · exact Or.inl (congrArg ring.get same)
    · exact Or.inr ⟨p, rfl, (h.twoWay_iff same).mp twoWay⟩
  rcases Nat.mod_two_eq_zero_or_one ring.length with even | odd
  · have two : ring.toFinset.filter (c.TwoWay ring (ring.get i)) ⊆
        {ring.get i, ring.get ⟨(i.val + ring.length / 2) % ring.length, Nat.mod_lt _ (by omega)⟩} := by
      intro peer among
      rw [Finset.mem_insert, Finset.mem_singleton]
      refine (opposite peer among).imp_right ?_
      rintro ⟨p, rfl, half⟩
      exact congrArg ring.get (Fin.ext ((opposite_iff even i p).mp half).symm)
    have := (Finset.card_le_card two).trans Finset.card_le_two
    omega
  · have alone : ring.toFinset.filter (c.TwoWay ring (ring.get i)) ⊆ {ring.get i} := by
      intro peer among
      rw [Finset.mem_singleton]
      refine (opposite peer among).resolve_right ?_
      rintro ⟨p, -, half⟩
      omega
    have := Finset.card_le_card alone
    rw [Finset.card_singleton] at this
    omega

end RingInForce

/-! ## The counts for every order -/

section Counts

variable {start : Cluster} {a : PartitionMajoritiesRingAction}

/-- After `execute()` of three or more nodes, in any order: each node accepts a majority with itself in
it and drops the others, no two nodes accept the same nodes, and each node is accepted by a majority. -/
theorem execute_majorities (sound : Sound start a.members) (three : 3 ≤ a.members.length)
    (free : ∀ name ∈ a.members, (start.node name).tables.Free (Partitioners.getChainName a.ordinal))
    (connected : start.Connected a.members) (draws : Nat → Nat) :
    let after := ((Partition.ring a).execute ⟨draws, start⟩).2.env
    (∀ name ∈ a.members, (after.accepted a.members name).card = a.members.length / 2 + 1 ∧
        name ∈ after.accepted a.members name ∧ ∀ peer ∈ a.members,
          (after.node name).tables.drops .input (packetAt after.ipOf .input name peer) ↔
            peer ∉ after.accepted a.members name) ∧
      (∀ name ∈ a.members, ∀ other ∈ a.members,
        after.accepted a.members name = after.accepted a.members other → name = other) ∧
      ∀ peer ∈ a.members,
        (a.members.toFinset.filter fun name => peer ∈ after.accepted a.members name).card = a.members.length / 2 + 1 := by
  intro after
  obtain ⟨ring, perm, -, inForce⟩ := execute_ringInForce sound free connected draws
  have three' : 3 ≤ ring.length := perm.length_eq ▸ three
  rw [← accepted_perm perm, ← perm.length_eq, ← List.toFinset_eq_of_perm ring a.members perm]
  refine ⟨fun name member => ?_, fun name member other member' => ?_, fun peer member => ?_⟩
  · obtain ⟨card, itself⟩ := inForce.card_accepted three' (perm.mem_iff.mpr member)
    refine ⟨card, itself, fun peer inside => ?_⟩
    rw [mem_accepted, and_iff_right (perm.mem_iff.mpr inside), not_not]
  · exact inForce.accepted_injective three' (perm.mem_iff.mpr member) (perm.mem_iff.mpr member')
  · exact inForce.card_accepting three' (perm.mem_iff.mpr member)

/-- After `execute()` of three or more nodes each node accepts a majority and the groups differ, but
packets pass in both directions only between opposite nodes of a ring of even length. -/
theorem execute_twoWay (sound : Sound start a.members) (three : 3 ≤ a.members.length)
    (free : ∀ name ∈ a.members, (start.node name).tables.Free (Partitioners.getChainName a.ordinal))
    (connected : start.Connected a.members) (draws : Nat → Nat) :
    let after := ((Partition.ring a).execute ⟨draws, start⟩).2.env
    ∃ ring : List String, ring.Perm a.members ∧ (∀ given, a.ordered = some given → ring = given) ∧
      (∀ name ∈ ring, name ∈ after.accepted ring name ∧ ring.length < 2 * (after.accepted ring name).card) ∧
      (∀ name ∈ ring, ∀ other ∈ ring, after.accepted ring name = after.accepted ring other → name = other) ∧
      ∀ i p : Fin ring.length, p ≠ i →
        (after.TwoWay ring (ring.get i) (ring.get p) ↔ 2 * (p - i).val = ring.length) := by
  intro after
  obtain ⟨ring, perm, given, inForce⟩ := execute_ringInForce sound free connected draws
  have three' : 3 ≤ ring.length := perm.length_eq ▸ three
  refine ⟨ring, perm, given, fun name member => ?_, fun name member other member' => ?_, fun i p => inForce.twoWay_iff⟩
  · obtain ⟨card, itself⟩ := inForce.card_accepted three' member
    refine ⟨itself, ?_⟩
    rw [card]
    omega
  · exact inForce.accepted_injective three' member member'

end Counts

section Trio

/-- Three database nodes on which nothing has been run. -/
def idleTrio : Cluster :=
  { idleCluster with
    ip := fun name =>
      if name = "pg1" then some "10.0.0.1" else if name = "pg2" then some "10.0.0.2"
      else if name = "pg3" then some "10.0.0.3" else none }

/-- The ring of the three, in this order. -/
def trioRing : PartitionMajoritiesRingAction where
  dbNodes := ["pg1", "pg2", "pg3"]
  extraNodes := []
  ordinal := 1
  dcMap := Dict.empty
  ordered := some ["pg1", "pg2", "pg3"]

theorem idleTrio_sound : Sound idleTrio ["pg1", "pg2", "pg3"] :=
  ⟨fun _ => rfl, by decide, by decide, by decide⟩

theorem idleTrio_free (ordinal : Int) (name : String) :
    (idleTrio.node name).tables.Free (Partitioners.getChainName ordinal) :=
  idleCluster_fstormFree name ordinal _ (Or.inl rfl)

theorem idleTrio_connected (nodes : List String) : idleTrio.Connected nodes := by
  rintro name - peer - (⟨member, -, -⟩ | ⟨member, -, -, -, -⟩)
  · cases member
  · cases member

theorem trioRing_majorities :
    let after := ((Partition.ring trioRing).execute ⟨fun _ => 0, idleTrio⟩).2.env
    (∀ name ∈ trioRing.members, (after.accepted trioRing.members name).card = trioRing.members.length / 2 + 1 ∧
        name ∈ after.accepted trioRing.members name ∧ ∀ peer ∈ trioRing.members,
          (after.node name).tables.drops .input (packetAt after.ipOf .input name peer) ↔
            peer ∉ after.accepted trioRing.members name) ∧
      (∀ name ∈ trioRing.members, ∀ other ∈ trioRing.members,
        after.accepted trioRing.members name = after.accepted trioRing.members other → name = other) ∧
      ∀ peer ∈ trioRing.members,
        (trioRing.members.toFinset.filter fun name => peer ∈ after.accepted trioRing.members name).card =
          trioRing.members.length / 2 + 1 :=
  execute_majorities idleTrio_sound (by decide) (fun name _ => idleTrio_free 1 name) (idleTrio_connected _) _

theorem trioRing_twoWay :
    let after := ((Partition.ring trioRing).execute ⟨fun _ => 0, idleTrio⟩).2.env
    ∃ ring : List String, ring.Perm trioRing.members ∧ (∀ given, trioRing.ordered = some given → ring = given) ∧
      (∀ name ∈ ring, name ∈ after.accepted ring name ∧ ring.length < 2 * (after.accepted ring name).card) ∧
      (∀ name ∈ ring, ∀ other ∈ ring, after.accepted ring name = after.accepted ring other → name = other) ∧
      ∀ i p : Fin ring.length, p ≠ i →
        (after.TwoWay ring (ring.get i) (ring.get p) ↔ 2 * (p - i).val = ring.length) :=
  execute_twoWay idleTrio_sound (by decide) (fun name _ => idleTrio_free 1 name) (idleTrio_connected _) _

open Classical in
/-- In a ring of three no node has another one that it reaches and hears: it is alone, and two are
a majority. -/
theorem trioRing_no_majority :
    let after := ((Partition.ring trioRing).execute ⟨fun _ => 0, idleTrio⟩).2.env
    ¬ ∀ name ∈ trioRing.members,
      trioRing.members.length < 2 * (trioRing.members.toFinset.filter (after.TwoWay trioRing.members name)).card := by
  intro after majority
  obtain ⟨ring, -, given, inForce⟩ := execute_ringInForce (a := trioRing) idleTrio_sound
    (fun name _ => idleTrio_free 1 name) (idleTrio_connected _) fun _ => 0
  obtain rfl := given _ rfl
  have few := inForce.card_twoWay (Nat.le_refl 3) (List.mem_cons_self : "pg1" ∈ _)
  exact absurd (majority "pg1" List.mem_cons_self) (Nat.not_lt.mpr few)

end Trio

end FaultStorm
