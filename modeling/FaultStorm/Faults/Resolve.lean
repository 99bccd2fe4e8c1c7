import FaultStorm.Faults.Partition

/-!
# Setting the parameters of a partition

`execute()` of a partition first chooses the parameters that are not given, and then acts on the
cluster. `ran_execute` separates the two for all five actions, whatever docker does.
-/

namespace FaultStorm.Partition

open Python Iptables Cluster

/-- The last part of `execute()`, for the parameters that are set by then. -/
def program : Partition → ClusterM Unit
  | .halves a => match a.group1, a.group2 with
    | some group1, some group2 => PartitionRandomHalvesAction.partition a.ordinal group1 group2
    | _, _ => pure ()
  | .ring a => match a.ordered with
    | some ordered => PartitionMajoritiesRingAction.partition a.ordinal ordered
    | none => pure ()
  | .node a => match a.node with
    | some target => PartitionRandomNodeAction.partition a.ordinal a.allNodes target
    | none => pure ()
  | .subnet a => match a.node, a.blockedNodes with
    | some target, some blocked =>
        PartitionRandomSubnetAction.partition a.ordinal target a.getIptablesDirections blocked
    | _, _ => pure ()
  | .dc a =>
    if dcMembers a = [] then pure ()
    else PartitionRandomDcAction.partition a.ordinal a.allNodes (dcMembers a)

/-- The parameters as `execute()` chooses them where they are not given. -/
def parameters : Partition → Random.Draw Partition
  | .halves a =>
    if a.group1.isNone || a.group2.isNone then do
      let nodes ← Random.shuffle a.allNodes
      let mid := nodes.length / 2
      return .halves { a with group1 := some (nodes.take mid), group2 := some (nodes.drop mid) }
    else pure (.halves a)
  | .ring a =>
    if a.ordered.isNone then do
      let ordered ← Random.shuffle a.allNodes
      return .ring { a with ordered := some ordered }
    else pure (.ring a)
  | .node a => do return .node (← choosing (·.node) (fun a v => { a with node := some v }) (·.allNodes) a)
  | .subnet a => do
    let a ← choosing (·.node) (fun a v => { a with node := some v }) (·.dbNodes) a
    let a ← choosing (·.direction) (fun a v => { a with direction := some v })
      (fun _ => PartitionRandomSubnetAction.directions) a
    let a ← choosing (·.subnetType) (fun a v => { a with subnetType := some v })
      (fun _ => PartitionRandomSubnetAction.subnetTypes) a
    return .subnet (if a.blockedNodes.isNone then { a with blockedNodes := some a.resolveBlockedNodes } else a)
  | .dc a =>
    if a.dcMap.items.isEmpty then pure (.dc a)
    else do return .dc (← choosing (·.dcName) (fun a v => { a with dcName := some v }) (·.dcMap.keys) a)

/-- The partition with its parameters chosen, or as it was if one cannot be. -/
def drawn (p : Partition) (draws : Nat → Nat) : Partition :=
  match (p.parameters.exec draws).1 with
  | .ok p' => p'
  | .error _ => p

/-- The parameters of an action are given, or chosen among the nodes of the cluster. -/
inductive Resolves : Partition → Partition → Prop
  | given (p : Partition) : Resolves p p
  | halves {a : PartitionRandomHalvesAction} {nodes : List String} (mid : Nat) (perm : nodes.Perm a.allNodes) :
      Resolves (.halves a) (.halves ⟨a.toActionBase, some (nodes.take mid), some (nodes.drop mid)⟩)
  | ring {a : PartitionMajoritiesRingAction} {nodes : List String} (perm : nodes.Perm a.allNodes) :
      Resolves (.ring a) (.ring ⟨a.toActionBase, some nodes⟩)
  | node {a : PartitionRandomNodeAction} {target : String} (member : target ∈ a.allNodes) :
      Resolves (.node a) (.node ⟨a.toActionBase, some target⟩)
  | subnet {a b : PartitionRandomSubnetAction} (base : b.toActionBase = a.toActionBase)
      (blocked : b.blockedNodes = a.blockedNodes ∨ ∃ l ⊆ a.allNodes, b.blockedNodes = some l) :
      Resolves (.subnet a) (.subnet b)
  | dc {a : PartitionRandomDcAction} (dc : String) : Resolves (.dc a) (.dc ⟨a.toActionBase, some dc⟩)

variable {nodes : List String} {p p' : Partition} {w : World Cluster}

theorem Resolves.base (h : Resolves p p') : p'.base = p.base := by
  cases h with
  | subnet base _ => exact base
  | _ => rfl

theorem Resolves.ordinal (h : Resolves p p') : p'.ordinal = p.ordinal := congrArg ActionBase.ordinal h.base

theorem Resolves.wellPlaced (h : Resolves p p') (distinct : nodes.Nodup) (placed : WellPlaced nodes p) :
    WellPlaced nodes p' := by
  have all : p'.base.allNodes = nodes := (congrArg ActionBase.allNodes h.base).trans placed.1
  refine ⟨all, ?_⟩
  cases h with
  | given => exact placed.2
  | halves mid perm =>
    intro group1 group2 one two
    rw [← Option.some.inj one, ← Option.some.inj two, List.take_append_drop, ← placed.1]
    exact perm
  | ring perm =>
    intro ordered set
    rw [← Option.some.inj set, ← placed.1]
    exact ⟨perm.nodup_iff.mpr (placed.1.symm ▸ distinct), perm.subset⟩
  | node member =>
    intro target set
    rw [← Option.some.inj set, ← placed.1]
    exact member
  | @subnet a b base blocked =>
    intro l set
    rcases blocked with same | ⟨l', inside, chosen⟩
    · exact placed.2 l (same.symm.trans set)
    · rw [chosen] at set
      rw [← Option.some.inj set, ← placed.1]
      exact inside
  | dc dc => exact placed.2

/-- `execute()` comes to the chosen parameters, and to where their program ends. -/
def Ran (p : Partition) (w : World Cluster) (result : Partition × World Cluster) : Prop :=
  Resolves p (p.drawn w.draws) ∧
    ∃ later, result = (p.drawn w.draws, ⟨later, ((p.drawn w.draws).program.exec w.env).2⟩)

/-- The method ends with the program. -/
theorem Ran.program {α : Type} {f : α → Partition} {a : α} {later later' : Nat → Nat} (h : Resolves p (f a))
    (chosen : p.parameters.exec w.draws = (.ok (f a), later')) :
    Ran p w (f ((onCluster (f a).program).exec (a, ⟨later, w.env⟩)).2.1,
      ((onCluster (f a).program).exec (a, ⟨later, w.env⟩)).2.2) := by
  have same : p.drawn w.draws = f a := by rw [drawn, chosen]
  unfold Ran
  rw [same]
  exact ⟨h, later, rfl⟩

/-- The method ends before it acts. -/
theorem Ran.nothing {result : Except PyExc Partition} {later later' : Nat → Nat}
    (chosen : p.parameters.exec w.draws = (result, later')) (as_before : ∀ p', result = .ok p' → p' = p)
    (idle : p.program = pure ()) : Ran p w (p, ⟨later, w.env⟩) := by
  have same : p.drawn w.draws = p := by
    rw [drawn, chosen]
    cases result with
    | error e => rfl
    | ok p' => exact as_before p' rfl
  unfold Ran
  rw [same, idle]
  exact ⟨Resolves.given p, later, rfl⟩

theorem ran_halves (a : PartitionRandomHalvesAction) (w : World Cluster) :
    Ran (.halves a) w (execute (.halves a) w) := by
  unfold execute run PartitionRandomHalvesAction.execute
  dsimp only
  rw [Proc.exec_bind_ok (exec_this _)]
  by_cases missing : a.group1.isNone || a.group2.isNone
  · obtain ⟨nodes, later, perm, drawn⟩ := Random.exec_shuffle a.allNodes w.draws
    have chosen : (parameters (.halves a)).exec w.draws = (.ok (.halves
        ⟨a.toActionBase, some (nodes.take (nodes.length / 2)), some (nodes.drop (nodes.length / 2))⟩), later) := by
      rw [parameters, if_pos missing, Proc.exec_bind_ok drawn]
      rfl
    rw [if_pos missing, Proc.exec_bind_ok (exec_pick_ok drawn), Proc.exec_bind_ok (exec_assign _ _),
      Proc.exec_bind_ok (exec_this _)]
    exact Ran.program (Resolves.halves (nodes.length / 2) perm) chosen
  · rw [if_neg missing, Proc.exec_bind_ok (exec_this _)]
    have chosen : (parameters (.halves a)).exec w.draws = (.ok (.halves a), w.draws) := by
      rw [parameters, if_neg missing]
      rfl
    obtain ⟨base, _ | group1, _ | group2⟩ := a
    · exact absurd rfl missing
    · exact absurd rfl missing
    · exact absurd rfl missing
    exact Ran.program (Resolves.given _) chosen

theorem ran_ring (a : PartitionMajoritiesRingAction) (w : World Cluster) :
    Ran (.ring a) w (execute (.ring a) w) := by
  unfold execute run PartitionMajoritiesRingAction.execute
  dsimp only
  rw [Proc.exec_bind_ok (exec_this _)]
  by_cases missing : a.ordered.isNone
  · obtain ⟨nodes, later, perm, drawn⟩ := Random.exec_shuffle a.allNodes w.draws
    have chosen : (parameters (.ring a)).exec w.draws = (.ok (.ring ⟨a.toActionBase, some nodes⟩), later) := by
      rw [parameters, if_pos missing, Proc.exec_bind_ok drawn]
      rfl
    rw [if_pos missing, Proc.exec_bind_ok (exec_pick_ok drawn), Proc.exec_bind_ok (exec_assign _ _),
      Proc.exec_bind_ok (exec_this _)]
    exact Ran.program (Resolves.ring perm) chosen
  · rw [if_neg missing, Proc.exec_bind_ok (exec_this _)]
    have chosen : (parameters (.ring a)).exec w.draws = (.ok (.ring a), w.draws) := by
      rw [parameters, if_neg missing]
      rfl
    obtain ⟨base, _ | ordered⟩ := a
    · exact absurd rfl missing
    exact Ran.program (Resolves.given _) chosen

theorem ran_node (a : PartitionRandomNodeAction) (w : World Cluster) :
    Ran (.node a) w (execute (.node a) w) := by
  unfold execute run PartitionRandomNodeAction.execute
  dsimp only
  rcases exec_choosing a w.draws with ⟨b, later, picked, drawn⟩ | ⟨missing, -, e, later, drawn⟩
  · have chosen : (parameters (.node a)).exec w.draws = (.ok (.node b), later) := by
      rw [parameters, Proc.exec_bind_ok drawn]
      rfl
    rw [Proc.exec_bind_ok (exec_choose_of_ok drawn), Proc.exec_bind_ok (exec_this _)]
    rcases picked with ⟨rfl, set⟩ | ⟨target, member, rfl⟩
    · obtain ⟨base, _ | target⟩ := b
      · cases set
      exact Ran.program (Resolves.given _) chosen
    · exact Ran.program (Resolves.node member) chosen
  · have chosen : (parameters (.node a)).exec w.draws = (.error e, later) := by
      rw [parameters, Proc.exec_bind_error drawn]
    rw [Proc.exec_bind_error (exec_choose_of_error drawn)]
    obtain ⟨base, _⟩ := a
    cases missing
    exact Ran.nothing chosen nofun rfl

theorem resolveBlockedNodes_subset (a : PartitionRandomSubnetAction) : a.resolveBlockedNodes ⊆ a.allNodes := by
  have others : (a.dbNodes.filter fun n => some n ≠ a.node) ⊆ a.dbNodes := List.filter_subset_self _
  unfold PartitionRandomSubnetAction.resolveBlockedNodes ActionBase.allNodes
  split
  · exact List.subset_append_right _ _
  · split
    · exact List.Subset.trans others (List.subset_append_left _ _)
    · intro n member
      rcases List.mem_append.mp member with extra | db
      · exact List.mem_append_right _ extra
      · exact List.mem_append_left _ (others db)

theorem ran_subnet (a : PartitionRandomSubnetAction) (w : World Cluster) :
    Ran (.subnet a) w (execute (.subnet a) w) := by
  unfold execute run PartitionRandomSubnetAction.execute
  dsimp only
  rcases @exec_choosing PartitionRandomSubnetAction (·.node) (fun a v => { a with node := some v }) (·.dbNodes) a
    w.draws with ⟨b, draws, picked, drawn⟩ | ⟨missing, -, e, later, drawn⟩
  · have targeted : b.toActionBase = a.toActionBase ∧ b.blockedNodes = a.blockedNodes ∧ b.node.isSome := by
      rcases picked with ⟨rfl, set⟩ | ⟨_, _, rfl⟩
      · exact ⟨rfl, rfl, set⟩
      · exact ⟨rfl, rfl, rfl⟩
    rcases @exec_choosing PartitionRandomSubnetAction (·.direction) (fun a v => { a with direction := some v })
      (fun _ => PartitionRandomSubnetAction.directions) b draws with ⟨c, draws', picked', drawn'⟩ | ⟨-, nothing, -⟩
    · rcases @exec_choosing PartitionRandomSubnetAction (·.subnetType) (fun a v => { a with subnetType := some v })
        (fun _ => PartitionRandomSubnetAction.subnetTypes) c draws' with
        ⟨d, later, picked'', drawn''⟩ | ⟨-, nothing, -⟩
      · have known : d.toActionBase = a.toActionBase ∧ d.blockedNodes = a.blockedNodes ∧ d.node.isSome := by
          rcases picked' with ⟨rfl, _⟩ | ⟨_, _, rfl⟩ <;> rcases picked'' with ⟨rfl, _⟩ | ⟨_, _, rfl⟩ <;>
            exact targeted
        have chosen : (parameters (.subnet a)).exec w.draws = (.ok (.subnet
            (if d.blockedNodes.isNone then { d with blockedNodes := some d.resolveBlockedNodes } else d)), later) := by
          rw [parameters, Proc.exec_bind_ok drawn, Proc.exec_bind_ok drawn', Proc.exec_bind_ok drawn'']
          rfl
        rw [Proc.exec_bind_ok (exec_choose_of_ok drawn), Proc.exec_bind_ok (exec_choose_of_ok drawn'),
          Proc.exec_bind_ok (exec_choose_of_ok drawn''), Proc.exec_bind_ok (exec_this _)]
        clear picked' picked'' drawn' drawn''
        obtain ⟨base, _ | target, direction, subnetType, given⟩ := d
        · cases known.2.2
        obtain ⟨same, kept, -⟩ := known
        by_cases missing : given.isNone
        · cases Option.isNone_iff_eq_none.mp missing
          have inside := resolveBlockedNodes_subset ⟨base, some target, direction, subnetType, none⟩
          have all : base.allNodes = a.allNodes := congrArg ActionBase.allNodes same
          rw [if_pos missing] at chosen
          rw [if_pos missing, Proc.exec_bind_ok (exec_assign _ _), Proc.exec_bind_ok (exec_this _)]
          exact Ran.program (Resolves.subnet same (Or.inr ⟨_, all ▸ inside, rfl⟩)) chosen
        · rw [if_neg missing] at chosen
          rw [if_neg missing, Proc.exec_bind_ok (exec_this _)]
          obtain ⟨l, rfl⟩ := Option.ne_none_iff_exists'.mp fun eq => missing (Option.isNone_iff_eq_none.mpr eq)
          exact Ran.program (Resolves.subnet same (Or.inl kept)) chosen
      · exact absurd nothing (by decide)
    · exact absurd nothing (by decide)
  · have chosen : (parameters (.subnet a)).exec w.draws = (.error e, later) := by
      rw [parameters, Proc.exec_bind_error drawn]
    rw [Proc.exec_bind_error (exec_choose_of_error drawn)]
    obtain ⟨base, _, direction, subnetType, blocked⟩ := a
    cases missing
    exact Ran.nothing chosen nofun rfl

/-- The last part of `execute()` of a DC partition. -/
theorem ran_members {a b : PartitionRandomDcAction} {w : World Cluster} {later later' : Nat → Nat}
    (h : Resolves (.dc a) (.dc b)) (chosen : (parameters (.dc a)).exec w.draws = (.ok (.dc b), later'))
    {members : List String} (named : dcMembers b = members) {m : ActionM PartitionRandomDcAction Unit}
    (last : m = if members.isEmpty then pure ()
      else onCluster (PartitionRandomDcAction.partition b.ordinal b.allNodes members)) :
    Ran (.dc a) w (.dc (m.exec (b, ⟨later, w.env⟩)).2.1, (m.exec (b, ⟨later, w.env⟩)).2.2) := by
  have acts : m = onCluster (program (.dc b)) ∨ m = pure () ∧ program (.dc b) = pure () := by
    subst named last
    by_cases empty : dcMembers b = []
    · exact Or.inr ⟨if_pos (List.isEmpty_iff.mpr empty), if_pos empty⟩
    · have acts : program (.dc b) = PartitionRandomDcAction.partition b.ordinal b.allNodes (dcMembers b) :=
        if_neg empty
      rw [acts]
      exact Or.inl (if_neg (by simpa using empty))
  have same : drawn (.dc a) w.draws = .dc b := by rw [drawn, chosen]
  unfold Ran
  rw [same]
  rcases acts with rfl | ⟨rfl, idle⟩
  · exact ⟨h, later, rfl⟩
  · rw [idle]
    exact ⟨h, later, rfl⟩

theorem ran_dc (a : PartitionRandomDcAction) (w : World Cluster) : Ran (.dc a) w (execute (.dc a) w) := by
  unfold execute run PartitionRandomDcAction.execute
  dsimp only
  rw [Proc.exec_bind_ok (exec_this _)]
  by_cases unmapped : a.dcMap.items.isEmpty
  · have nothing : dcMembers a = [] := by
      have missing : a.dcMap.get? = fun _ => none := by
        unfold Dict.get?
        rw [List.isEmpty_iff.mp unmapped]
        rfl
      rw [dcMembers, missing, Option.bind_fun_none]
      rfl
    have chosen : (parameters (.dc a)).exec w.draws = (.ok (.dc a), w.draws) := by
      rw [parameters, if_pos unmapped]
      rfl
    rw [if_pos unmapped]
    exact Ran.nothing chosen (fun p' eq => (Except.ok.inj eq).symm) (if_pos nothing)
  · rw [if_neg unmapped]
    rcases exec_choosing a w.draws with ⟨b, later, picked, drawn⟩ | ⟨missing, -, e, later, drawn⟩
    · have chosen : (parameters (.dc a)).exec w.draws = (.ok (.dc b), later) := by
        rw [parameters, if_neg unmapped, Proc.exec_bind_ok drawn]
        rfl
      rw [Proc.exec_bind_ok (exec_choose_of_ok drawn), Proc.exec_bind_ok (exec_this _)]
      rcases picked with ⟨rfl, set⟩ | ⟨dc, member, rfl⟩
      · obtain ⟨base, _ | dc⟩ := b
        · cases set
        exact ran_members (Resolves.given _) chosen rfl rfl
      · exact ran_members (Resolves.dc dc) chosen rfl rfl
    · have chosen : (parameters (.dc a)).exec w.draws = (.error e, later) := by
        rw [parameters, if_neg unmapped, Proc.exec_bind_error drawn]
      have nothing : dcMembers a = [] := by
        rw [dcMembers, show a.dcName = none from missing]
        rfl
      rw [Proc.exec_bind_error (exec_choose_of_error drawn)]
      exact Ran.nothing chosen nofun (if_pos nothing)

/-- `execute()` chooses the parameters that are not given, and runs the program for them. -/
theorem ran_execute (p : Partition) (w : World Cluster) : Ran p w (p.execute w) := by
  cases p with
  | halves a => exact ran_halves a w
  | ring a => exact ran_ring a w
  | node a => exact ran_node a w
  | subnet a => exact ran_subnet a w
  | dc a => exact ran_dc a w

/-! ## What is chosen -/

section Drawn

variable (draws : Nat → Nat)

/-- Two groups that are given are kept, and otherwise all nodes are split. -/
theorem drawn_halves (a : PartitionRandomHalvesAction) :
    (a.group1.isSome ∧ a.group2.isSome ∧ (halves a).drawn draws = .halves a) ∨
      (a.group1 = none ∨ a.group2 = none) ∧ ∃ (nodes : List String) (mid : Nat), nodes.Perm a.allNodes ∧
        (halves a).drawn draws = .halves ⟨a.toActionBase, some (nodes.take mid), some (nodes.drop mid)⟩ := by
  by_cases missing : a.group1.isNone || a.group2.isNone
  · obtain ⟨nodes, later, perm, drawn⟩ := Random.exec_shuffle a.allNodes draws
    refine Or.inr ⟨by simpa using missing, nodes, nodes.length / 2, perm, ?_⟩
    rw [Partition.drawn, parameters, if_pos missing, Proc.exec_bind_ok drawn]
    rfl
  · refine Or.inl ⟨?_, ?_, ?_⟩
    · simp_all [Option.isSome_iff_ne_none]
    · simp_all [Option.isSome_iff_ne_none]
    · rw [Partition.drawn, parameters, if_neg missing]
      rfl

/-- The order that is given is kept, and otherwise one is drawn. -/
theorem drawn_ring (a : PartitionMajoritiesRingAction) :
    ∃ ring, ring.Perm (a.ordered.getD a.allNodes) ∧ (∀ given, a.ordered = some given → ring = given) ∧
      (Partition.ring a).drawn draws = .ring ⟨a.toActionBase, some ring⟩ := by
  obtain ⟨base, _ | given⟩ := a
  · obtain ⟨ring, later, perm, drawn⟩ := Random.exec_shuffle base.allNodes draws
    refine ⟨ring, perm, nofun, ?_⟩
    have missing : (PartitionMajoritiesRingAction.ordered ⟨base, none⟩).isNone = true := rfl
    rw [Partition.drawn, parameters, if_pos missing, Proc.exec_bind_ok drawn]
    rfl
  · exact ⟨given, List.Perm.refl _, fun other same => Option.some.inj same, rfl⟩

/-- A node that is given is kept, and otherwise one of all nodes is drawn, if there are any. -/
theorem drawn_node (a : PartitionRandomNodeAction) :
    (Partition.node a).drawn draws = .node a ∨
      a.node = none ∧ ∃ target ∈ a.allNodes, (Partition.node a).drawn draws = .node ⟨a.toActionBase, some target⟩ := by
  by_cases set : a.node = none
  · rcases @exec_choosing PartitionRandomNodeAction (·.node) (fun a v => { a with node := some v }) (·.allNodes) a draws
      with ⟨b, later, picked, drawn⟩ | ⟨-, -, e, later, drawn⟩
    · rcases picked with ⟨rfl, given⟩ | ⟨target, member, rfl⟩
      · rw [set] at given
        cases given
      · refine Or.inr ⟨set, target, member, ?_⟩
        rw [Partition.drawn, parameters, Proc.exec_bind_ok drawn]
        rfl
    · refine Or.inl ?_
      rw [Partition.drawn, parameters, Proc.exec_bind_error drawn]
  · refine Or.inl ?_
    rw [Partition.drawn, parameters, Proc.exec_bind_ok (exec_choosing_set set draws)]
    rfl

/-- A DC that is given is kept, and otherwise one of the map is drawn, if there are any. -/
theorem drawn_dc (a : PartitionRandomDcAction) :
    ((Partition.dc a).drawn draws = .dc a ∧ (a.dcName = none → dcMembers a = [])) ∨
      a.dcName = none ∧ ∃ dc, (Partition.dc a).drawn draws = .dc ⟨a.toActionBase, some dc⟩ := by
  have unnamed : a.dcName = none → dcMembers a = [] := by
    intro none
    rw [dcMembers, none]
    rfl
  by_cases unmapped : a.dcMap.items.isEmpty
  · refine Or.inl ⟨?_, unnamed⟩
    rw [Partition.drawn, parameters, if_pos unmapped]
    rfl
  by_cases set : a.dcName = none
  · rcases @exec_choosing PartitionRandomDcAction (·.dcName) (fun a v => { a with dcName := some v }) (·.dcMap.keys) a draws
      with ⟨b, later, picked, drawn⟩ | ⟨-, -, e, later, drawn⟩
    · rcases picked with ⟨rfl, given⟩ | ⟨dc, member, rfl⟩
      · rw [set] at given
        cases given
      · refine Or.inr ⟨set, dc, ?_⟩
        rw [Partition.drawn, parameters, if_neg unmapped, Proc.exec_bind_ok drawn]
        rfl
    · refine Or.inl ⟨?_, unnamed⟩
      rw [Partition.drawn, parameters, if_neg unmapped, Proc.exec_bind_error drawn]
  · refine Or.inl ⟨?_, unnamed⟩
    rw [Partition.drawn, parameters, if_neg unmapped, Proc.exec_bind_ok (exec_choosing_set set draws)]
    rfl

end Drawn

/-- Every DC of the map can be drawn. -/
theorem exists_drawn_dc {a : PartitionRandomDcAction} (unset : a.dcName = none) {dc : String} (member : dc ∈ a.dcMap.keys) :
    ∃ draws, (Partition.dc a).drawn draws = .dc ⟨a.toActionBase, some dc⟩ := by
  obtain ⟨draws, later, chosen⟩ := Random.exists_choice member
  have mapped : ¬ a.dcMap.items.isEmpty := by
    intro empty
    rw [Dict.keys, List.isEmpty_iff.mp empty] at member
    cases member
  refine ⟨draws, ?_⟩
  rw [Partition.drawn, parameters, if_neg mapped, Proc.exec_bind_ok (exec_choosing_unset unset chosen)]
  rfl

end FaultStorm.Partition
