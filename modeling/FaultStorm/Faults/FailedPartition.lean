import FaultStorm.Faults.ChainCalls

/-!
# Partitions whose commands fail

The docker calls that each partition action issues, and what a heal restores after any of them
has failed. `Follows` ties the program of an action to the list of its calls.
-/

namespace FaultStorm

open Python Iptables Cluster

/-- The program issues these calls up to the first that raises, and returns `v` if none does. -/
def Follows {α : Type} (ip : String → Option String) (m : ClusterM α) (calls : List ChainCall) (v : α) : Prop :=
  ∀ c, c.ip = ip → m.exec c = (do Proc.forEach calls ChainCall.run; pure v : ClusterM α).exec c

section Follows

variable {α β : Type} {ip : String → Option String} {m : ClusterM α} {calls : List ChainCall} {v : α}

theorem tryCommands_ip (node : String) (commands : List Command) :
    Proc.Keeps (fun c => c.ip = ip) (tryCommands node commands) := by
  refine Proc.Keeps.swallow (Proc.Keeps.forEach commands fun command c same => ?_)
  rw [exec_execOnNode_eq]
  cases c.outage 0 with
  | some exc => exact same
  | none => cases (c.node node).run (.iptables command) <;> exact same

/-- The calls do not change addresses. -/
theorem run_ip (call : ChainCall) : Proc.Keeps (fun c => c.ip = ip) call.run := by
  cases call with
  | lookup name =>
    intro c same
    rcases exec_lookup name c with ⟨-, -, ran⟩ | ⟨-, exc, ran⟩ <;> rw [ran] <;> exact same
  | create r => exact tryCommands_ip _ _
  | rule node chain r => exact tryCommands_ip _ _

theorem Follows.pure (v : α) : Follows ip (pure v) [] v := fun _ _ => rfl

theorem Follows.call (ip : String → Option String) (call : ChainCall) : Follows ip call.run [call] () := by
  intro c _
  rw [Proc.forEach_singleton, bind_pure_unit]

theorem Follows.bind {k : α → ClusterM β} {calls' : List ChainCall} {u : β} (first : Follows ip m calls v)
    (next : Follows ip (k v) calls' u) : Follows ip (m >>= k) (calls ++ calls') u := by
  intro c same
  have kept := (Proc.Keeps.forEach calls run_ip).final same
  have ran := first c same
  rw [Proc.forEach_append, bind_assoc]
  rcases loop : (Proc.forEach calls ChainCall.run).exec c with ⟨exc | _, c'⟩
  · rw [Proc.exec_bind_error loop] at ran
    rw [Proc.exec_bind_error ran, Proc.exec_bind_error loop]
  · rw [loop] at kept
    rw [Proc.exec_bind_ok loop] at ran
    rw [Proc.exec_bind_ok ran, Proc.exec_bind_ok loop]
    exact next c' kept

theorem Follows.forEach {l : List α} {body : α → ClusterM Unit} {f : α → List ChainCall}
    (one : ∀ a ∈ l, Follows ip (body a) (f a) ()) : Follows ip (Proc.forEach l body) (l.flatMap f) () := by
  induction l with
  | nil => exact Follows.pure ()
  | cons a l ih =>
    rw [Proc.forEach_cons, List.flatMap_cons]
    exact (one a List.mem_cons_self).bind (ih fun b member => one b (List.mem_cons_of_mem a member))

/-- The address of a node, where docker knows one. -/
def addr (ip : String → Option String) (name : String) : String := (ip name).getD ""

theorem follows_getNodeIp (ip : String → Option String) (name : String) :
    Follows ip (ClusterManager.getNodeIp name) [.lookup name] (addr ip name) := by
  intro c same
  rw [Proc.forEach_cons, Proc.forEach_nil, bind_assoc, ChainCall.run, bind_assoc, Proc.exec_bind, exec_getNodeIp_eq, addr,
    ← same]
  cases c.outage 0 with
  | some exc => rfl
  | none => cases c.ip name <;> rfl

theorem follows_getNodeIps (ip : String → Option String) (l : List String) :
    Follows ip (getNodeIps l) (l.map .lookup) (l.map (addr ip)) := by
  unfold getNodeIps
  induction l with
  | nil => exact Follows.pure []
  | cons name l ih =>
    rw [List.mapM_cons]
    have rest : Follows ip (do let ips ← l.mapM ClusterManager.getNodeIp; pure (addr ip name :: ips))
        (l.map .lookup ++ []) (addr ip name :: l.map (addr ip)) := ih.bind (Follows.pure _)
    rw [List.append_nil] at rest
    exact (follows_getNodeIp ip name).bind rest

end Follows

/-! ## The calls of each action -/

/-- A chain is created and filled on a node. -/
def chainCalls (r : Removal) (ips : List String) : List ChainCall :=
  .create r :: ips.map fun ip => .rule r.node r.chain (dropRule r.hook ip)

/-- Each node of a list drops what comes from the peers. -/
def sideCalls (ip : String → Option String) (chain : String) (l peers : List String) : List ChainCall :=
  peers.map .lookup ++ l.flatMap fun n => chainCalls ⟨n, chain, .input⟩ (peers.map (addr ip))

/-- The docker calls of `execute()` once its parameters are set. -/
def Partition.calls (ip : String → Option String) : Partition → List ChainCall
  | .halves a => match a.group1, a.group2 with
    | some group1, some group2 =>
        sideCalls ip (Partitioners.getChainName a.ordinal) group1 group2 ++
          sideCalls ip (Partitioners.getChainName a.ordinal) group2 group1
    | _, _ => []
  | .ring a => match a.ordered with
    | some ordered => ordered.zipIdx.flatMap fun (n, i) =>
        sideCalls ip (Partitioners.getChainName a.ordinal) [n] (PartitionMajoritiesRingAction.blocked ordered i)
    | none => []
  | .node a => match a.node with
    | some target =>
        sideCalls ip (Partitioners.getChainName a.ordinal) [target] (a.allNodes.filter (· ≠ target)) ++
          sideCalls ip (Partitioners.getChainName a.ordinal) (a.allNodes.filter (· ≠ target)) [target]
    | none => []
  | .subnet a => match a.node, a.blockedNodes with
    | some target, some blocked => blocked.map .lookup ++ a.getIptablesDirections.flatMap fun direction =>
        chainCalls ⟨target, Partitioners.getDirectionalChainName a.ordinal direction, direction⟩ (blocked.map (addr ip))
    | _, _ => []
  | .dc a =>
    if dcMembers a = [] then []
    else
      sideCalls ip (Partitioners.getChainName a.ordinal) (dcMembers a)
          (a.allNodes.filter fun n => ! (dcMembers a).contains n) ++
        sideCalls ip (Partitioners.getChainName a.ordinal) (a.allNodes.filter fun n => ! (dcMembers a).contains n)
          (dcMembers a)

section Calls

variable (ip : String → Option String)

/-- The commands of a chain and its rules. -/
theorem follows_chain (r : Removal) (ips : List String) {m : ClusterM Unit}
    (fills : m = Proc.forEach ips fun ip => tryCommands r.node [.append (.user r.chain) (dropRule r.hook ip)]) :
    Follows ip (do tryCommands r.node [.newChain r.chain, .append (.builtin r.hook) (link r.chain)]; m)
      (chainCalls r ips) () := by
  subst fills
  have rules : Follows ip (Proc.forEach ips fun addr => tryCommands r.node [.append (.user r.chain) (dropRule r.hook addr)])
      (ips.flatMap fun addr => [.rule r.node r.chain (dropRule r.hook addr)]) () :=
    Follows.forEach fun addr _ => Follows.call ip (.rule r.node r.chain (dropRule r.hook addr))
  have both := (Follows.call ip (.create r)).bind (k := fun _ => _) rules
  rw [← List.map_eq_flatMap] at both
  exact both

theorem follows_side (chain : String) (l peers : List String) :
    Follows ip (do
        let ips ← getNodeIps peers
        Proc.forEach l fun n => do
          Partitioners.createChain n chain
          Partitioners.addDropRulesBySrc n chain ips)
      (sideCalls ip chain l peers) () :=
  (follows_getNodeIps ip peers).bind (Follows.forEach fun n _ => follows_chain ip ⟨n, chain, .input⟩ _ rfl)

theorem follows_halves (ordinal : Int) (group1 group2 : List String) :
    Follows ip (PartitionRandomHalvesAction.partition ordinal group1 group2)
      (sideCalls ip (Partitioners.getChainName ordinal) group1 group2 ++
        sideCalls ip (Partitioners.getChainName ordinal) group2 group1) () := by
  have both := (follows_side ip (Partitioners.getChainName ordinal) group1 group2).bind (k := fun _ => _)
    (follows_side ip (Partitioners.getChainName ordinal) group2 group1)
  rw [bind_assoc] at both
  exact both

theorem follows_ring (ordinal : Int) (ordered : List String) :
    Follows ip (PartitionMajoritiesRingAction.partition ordinal ordered) (ordered.zipIdx.flatMap fun (n, i) =>
      sideCalls ip (Partitioners.getChainName ordinal) [n] (PartitionMajoritiesRingAction.blocked ordered i)) () := by
  refine Follows.forEach fun (n, i) _ => ?_
  have one := follows_side ip (Partitioners.getChainName ordinal) [n] (PartitionMajoritiesRingAction.blocked ordered i)
  simp only [Proc.forEach_singleton] at one
  exact one

theorem follows_node (ordinal : Int) (allNodes : List String) (target : String) :
    Follows ip (PartitionRandomNodeAction.partition ordinal allNodes target)
      (sideCalls ip (Partitioners.getChainName ordinal) [target] (allNodes.filter (· ≠ target)) ++
        sideCalls ip (Partitioners.getChainName ordinal) (allNodes.filter (· ≠ target)) [target]) () := by
  have here := follows_side ip (Partitioners.getChainName ordinal) [target] (allNodes.filter (· ≠ target))
  have others := (follows_getNodeIp ip target).bind (k := fun nodeIp =>
      Proc.forEach (allNodes.filter (· ≠ target)) fun other => do
        Partitioners.createChain other (Partitioners.getChainName ordinal)
        Partitioners.addDropRulesBySrc other (Partitioners.getChainName ordinal) [nodeIp])
    (Follows.forEach fun n _ => follows_chain ip ⟨n, Partitioners.getChainName ordinal, .input⟩ [addr ip target] rfl)
  simp only [Proc.forEach_singleton] at here
  have both := here.bind (k := fun _ => _) others
  rw [bind_assoc] at both
  simp only [bind_assoc] at both
  exact both

theorem follows_subnet (ordinal : Int) (target : String) (directions : List Hook) (blocked : List String) :
    Follows ip (PartitionRandomSubnetAction.partition ordinal target directions blocked)
      (blocked.map .lookup ++ directions.flatMap fun direction =>
        chainCalls ⟨target, Partitioners.getDirectionalChainName ordinal direction, direction⟩ (blocked.map (addr ip))) () := by
  refine (follows_getNodeIps ip blocked).bind (Follows.forEach fun direction _ => ?_)
  exact follows_chain ip ⟨target, Partitioners.getDirectionalChainName ordinal direction, direction⟩ _
    (by cases direction <;> rfl)

/-- The program of a partition issues its calls. -/
theorem follows_program (p : Partition) : Follows ip p.program (p.calls ip) () := by
  cases p with
  | halves a =>
    obtain ⟨base, _ | group1, _ | group2⟩ := a
    · exact Follows.pure ()
    · exact Follows.pure ()
    · exact Follows.pure ()
    exact follows_halves ip base.ordinal group1 group2
  | ring a =>
    obtain ⟨base, _ | ordered⟩ := a
    · exact Follows.pure ()
    exact follows_ring ip base.ordinal ordered
  | node a =>
    obtain ⟨base, _ | target⟩ := a
    · exact Follows.pure ()
    exact follows_node ip base.ordinal base.allNodes target
  | subnet a =>
    obtain ⟨base, _ | target, direction, subnetType, _ | blocked⟩ := a
    · exact Follows.pure ()
    · exact Follows.pure ()
    · exact Follows.pure ()
    exact follows_subnet ip base.ordinal target _ blocked
  | dc a =>
    by_cases empty : Partition.dcMembers a = []
    · have idle : Partition.program (.dc a) = pure () := if_pos empty
      have nothing : Partition.calls ip (.dc a) = [] := if_pos empty
      rw [idle, nothing]
      exact Follows.pure ()
    · have acts : Partition.program (.dc a) =
          PartitionRandomDcAction.partition a.ordinal a.allNodes (Partition.dcMembers a) := if_neg empty
      have issued : Partition.calls ip (.dc a) = _ := if_neg empty
      rw [acts, issued]
      exact follows_halves ip a.ordinal _ _

end Calls

/-! ## Where the calls act -/

/-- A call creates or fills one of these chains. -/
def ChainCall.Fits (chains : Removal → Prop) : ChainCall → Prop
  | .lookup _ => True
  | .create r => chains r
  | .rule node chain r => (∃ hook, chains ⟨node, chain, hook⟩) ∧ r.target = .drop

section Fits

variable {ip : String → Option String} {chains : Removal → Prop} {call : ChainCall}

theorem chainCalls_fit {r : Removal} (fits : chains r) {ips : List String} (member : call ∈ chainCalls r ips) :
    call.Fits chains := by
  rcases List.mem_cons.mp member with rfl | rule
  · exact fits
  · obtain ⟨ip, -, rfl⟩ := List.mem_map.mp rule
    exact ⟨⟨r.hook, fits⟩, dropRule_target r.hook ip⟩

theorem lookups_fit {l : List String} (member : call ∈ l.map ChainCall.lookup) : call.Fits chains := by
  obtain ⟨name, -, rfl⟩ := List.mem_map.mp member
  trivial

theorem sideCalls_fit {chain : String} {l peers : List String} (fits : ∀ n ∈ l, chains ⟨n, chain, .input⟩)
    (member : call ∈ sideCalls ip chain l peers) : call.Fits chains := by
  rcases List.mem_append.mp member with lookup | create
  · exact lookups_fit lookup
  · obtain ⟨n, inside, here⟩ := List.mem_flatMap.mp create
    exact chainCalls_fit (fits n inside) here

end Fits

namespace Partition

/-- The parameters that are given name nodes of the cluster. -/
def Within : Partition → Prop
  | .halves a => ∀ group, a.group1 = some group ∨ a.group2 = some group → group ⊆ a.allNodes
  | .ring a => ∀ ordered, a.ordered = some ordered → ordered ⊆ a.allNodes
  | .node a => ∀ target, a.node = some target → target ∈ a.allNodes
  | .subnet _ => True
  | .dc a => ∀ dc members, a.dcMap.get? dc = some members → members ⊆ a.allNodes

variable {p p' : Partition} {ip : String → Option String}

theorem Resolves.within (h : Resolves p p') (within : p.Within) : p'.Within := by
  cases h with
  | given => exact within
  | @halves a nodes mid perm =>
    rintro group (one | two)
    · rw [← Option.some.inj one]
      exact List.Subset.trans (List.take_subset mid nodes) perm.subset
    · rw [← Option.some.inj two]
      exact List.Subset.trans (List.drop_subset mid nodes) perm.subset
  | ring perm =>
    intro ordered set
    rw [← Option.some.inj set]
    exact perm.subset
  | node member =>
    intro target set
    rw [← Option.some.inj set]
    exact member
  | subnet => trivial
  | dc dc => exact within

theorem mem_removals {a : ActionBase} {n : String} (inside : n ∈ a.allNodes) :
    (⟨n, Partitioners.getChainName a.ordinal, .input⟩ : Removal) ∈
      a.allNodes.map (⟨·, Partitioners.getChainName a.ordinal, .input⟩) :=
  List.mem_map_of_mem inside

theorem dcMembers_within {a : PartitionRandomDcAction} (within : Within (.dc a)) : dcMembers a ⊆ a.allNodes := by
  unfold dcMembers
  cases found : a.dcName.bind a.dcMap.get? with
  | none => exact List.nil_subset _
  | some members =>
    obtain ⟨dc, _, get⟩ := Option.bind_eq_some_iff.mp found
    exact within dc members get

/-- The calls create and fill chains that `heal()` takes down. -/
theorem calls_fit (within : p.Within) {call : ChainCall} (member : call ∈ p.calls ip) :
    call.Fits (· ∈ p.removals) := by
  cases p with
  | halves a =>
    simp only [calls] at member
    split at member
    · rename_i group1 group2 one two
      rcases List.mem_append.mp member with first | second
      · exact sideCalls_fit (fun n here => mem_removals (within group1 (Or.inl one) here)) first
      · exact sideCalls_fit (fun n here => mem_removals (within group2 (Or.inr two) here)) second
    · cases member
  | ring a =>
    simp only [calls] at member
    split at member
    · rename_i ordered set
      obtain ⟨⟨n, i⟩, at_i, here⟩ := List.mem_flatMap.mp member
      have inside : n ∈ ordered := List.mem_of_getElem? (List.mem_zipIdx_iff_getElem?.mp at_i)
      refine sideCalls_fit (fun m this => ?_) here
      rw [List.mem_singleton.mp this]
      exact mem_removals (within ordered set inside)
    · cases member
  | node a =>
    simp only [calls] at member
    split at member
    · rename_i target set
      rcases List.mem_append.mp member with first | second
      · refine sideCalls_fit (fun m this => ?_) first
        rw [List.mem_singleton.mp this]
        exact mem_removals (within target set)
      · exact sideCalls_fit (fun n here => mem_removals (List.mem_filter.mp here).1) second
    · cases member
  | subnet a =>
    simp only [calls] at member
    split at member
    · rename_i target blocked node set
      rcases List.mem_append.mp member with lookup | create
      · exact lookups_fit lookup
      · obtain ⟨direction, among, here⟩ := List.mem_flatMap.mp create
        refine chainCalls_fit ?_ here
        simp only [removals, node]
        exact List.mem_map_of_mem among
    · cases member
  | dc a =>
    simp only [calls] at member
    split at member
    · cases member
    · rcases List.mem_append.mp member with first | second
      · exact sideCalls_fit (fun n here => mem_removals (dcMembers_within within here)) first
      · exact sideCalls_fit (fun n here => mem_removals (List.mem_filter.mp here).1) second

/-- A chain name of a partition tells the hook it is linked at. -/
theorem same_hook {r x : Removal} (hr : r ∈ p.removals) (hx : x ∈ p.removals) (same : r.chain = x.chain) : r.hook = x.hook :=
  (removals_hooked hr).unique (same ▸ removals_hooked hx)

/-! ## Healing -/

/-- Docker works from here on. -/
def repaired (c : Cluster) : Cluster := { c with outage := fun _ => none }

/-- `execute()`, and `heal()` once docker works. -/
def healed (p : Partition) (w : World Cluster) : World Cluster :=
  (p.execute w).1.heal { (p.execute w).2 with env := repaired (p.execute w).2.env }

variable {w : World Cluster}

theorem healed_env (p : Partition) (w : World Cluster) :
    (healed p w).env = (repaired ((Proc.forEach ((p.drawn w.draws).calls w.env.ip) ChainCall.run).exec w.env).2).remove
      (p.drawn w.draws).removals := by
  obtain ⟨-, later, ran⟩ := ran_execute p w
  have calls := follows_program w.env.ip (p.drawn w.draws) w.env rfl
  rw [bind_pure_unit] at calls
  unfold healed
  rw [ran, heal_eq (fun _ => rfl), calls]

/-- The tables do not depend on what docker does later. -/
theorem tables_remove_repaired (c : Cluster) (removals : List Removal) (name : String) :
    (((repaired c).remove removals).node name).tables = ((c.remove removals).node name).tables := by
  induction removals generalizing c with
  | nil => rfl
  | cons r removals ih => exact ih (c.onTables r.node (runAll (removeCommands r.chain r.hook)))

/-- A partition is healed completely if and only if no chain that it created stayed without its
link. -/
theorem restored_iff_linksThrough (within : p.Within) (free : FstormFree w.env) :
    Restored w.env (healed p w).env ↔
      LinksThrough w.env.ip [] w.env.outage ((p.drawn w.draws).calls w.env.ip) := by
  have chosen := (ran_execute p w).1.within within
  have fits := fun call => @calls_fit (p.drawn w.draws) w.env.ip chosen call
  have all_free : ∀ r ∈ (p.drawn w.draws).removals, (w.env.node r.node).tables.Free r.chain := fun r removed =>
    free r.node _ _ (removals_hooked removed).owned
  have for_free : ForFree w.env ((p.drawn w.draws).calls w.env.ip) := by
    intro call member
    have here := fits call member
    cases call with
    | lookup name => trivial
    | create r => exact all_free r here
    | rule node chain r =>
      obtain ⟨⟨hook, removed⟩, drop⟩ := here
      exact ⟨all_free ⟨node, chain, hook⟩ removed, drop⟩
  have same : Restored w.env (healed p w).env ↔ Restored w.env
      (((Proc.forEach ((p.drawn w.draws).calls w.env.ip) ChainCall.run).exec w.env).2.remove
        (p.drawn w.draws).removals) := by
    unfold Restored
    rw [healed_env]
    simp only [tables_remove_repaired]
  rw [same]
  apply restored_iff for_free all_free
  · exact fun r member => ⟨r, fits _ member, rfl, rfl⟩
  · exact fun r member x removed _ chain => same_hook (fits _ member) removed chain

/-- pg1 is to be cut off from pg2. -/
def cutPg1 : Partition :=
  .node ⟨{ dbNodes := ["pg1", "pg2"], extraNodes := [], ordinal := 1, dcMap := Dict.empty }, some "pg1"⟩

/-- A world in which these docker calls fail. -/
def failing (calls : List Nat) : World Cluster :=
  ⟨fun _ => 0, { idleCluster with outage := fun k => if k ∈ calls then some .calledProcessError else none }⟩

theorem cutPg1_within : cutPg1.Within := by
  rintro _ ⟨⟩
  exact List.mem_cons_self

theorem failing_fstormFree (calls : List Nat) : FstormFree (failing calls).env := idleCluster_fstormFree

/-- The rules of pg1, and the chain of pg2, are not added. -/
theorem restored_iff_linksThrough_cutPg1 :
    Restored (failing [3, 5]).env (healed cutPg1 (failing [3, 5])).env ↔
      LinksThrough (failing [3, 5]).env.ip [] (failing [3, 5]).env.outage
        ((cutPg1.drawn (failing [3, 5]).draws).calls (failing [3, 5]).env.ip) :=
  restored_iff_linksThrough cutPg1_within (failing_fstormFree _)

/-- The chain of pg1 is created and not linked, and the heal leaves it. -/
theorem cutPg1_not_restored : cutPg1.Within ∧ FstormFree (failing [2]).env ∧
    ¬ Restored (failing [2]).env (healed cutPg1 (failing [2])).env := by
  refine ⟨cutPg1_within, failing_fstormFree _, fun restored => ?_⟩
  have left : (((healed cutPg1 (failing [2])).env.node "pg1").tables.user.get? "FSTORM_PART_1").isSome := by
    decide +kernel
  rw [(restored "pg1").2] at left
  cases left

end Partition

end FaultStorm
