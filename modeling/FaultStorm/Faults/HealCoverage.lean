import FaultStorm.Faults.FailedPartition

/-!
# What a heal reaches

`execute()` and `heal()` of a partition each work out for themselves on which nodes they act. A
chain that `execute()` creates is one that `heal()` takes down if the parameters name nodes of the
cluster; the node lists that `heal()` goes through hold no others.
-/

namespace FaultStorm

open Python Iptables Cluster

/-! ## Chains that come and go -/

/-- A node has a chain of this name. -/
def Cluster.HasChain (c : Cluster) (node chain : String) : Prop := ((c.node node).tables.user.get? chain).isSome

section Commands

variable {command : Command} {T T' : Tables} {name : String}

/-- A chain goes by `-X` only. -/
theorem run_keeps_chain (ran : run command T = some T') (other : command ≠ .deleteChain name)
    (there : (T.user.get? name).isSome) : (T'.user.get? name).isSome := by
  have set : ∀ chain rules, ((T.setRules chain rules).user.get? name).isSome := by
    intro chain rules
    cases chain with
    | builtin hook => exact there
    | user chain => exact setRules_user_isSome T chain rules there
  cases command with
  | newChain chain =>
    rw [run] at ran
    split at ran
    · cases ran
    · exact Option.some.inj ran ▸ set _ _
  | append chain rule =>
    obtain ⟨rules, -, rfl⟩ := Option.map_eq_some_iff.mp ran
    exact set _ _
  | delete chain rule =>
    obtain ⟨rules, -, erased⟩ := Option.bind_eq_some_iff.mp ran
    split at erased
    · exact Option.some.inj erased ▸ set _ _
    · cases erased
  | flush chain =>
    obtain ⟨rules, -, rfl⟩ := Option.map_eq_some_iff.mp ran
    exact set _ _
  | deleteChain chain =>
    rw [run] at ran
    split at ran
    · have ne : name ≠ chain := fun eq => other (congrArg Command.deleteChain eq.symm)
      rw [← Option.some.inj ran]
      show ((T.user.erase chain).get? name).isSome
      rw [Dict.get?_erase, if_neg ne]
      exact there
    · cases ran

/-- A chain comes by `-N` only. -/
theorem run_keeps_absent (ran : run command T = some T') (other : command ≠ .newChain name)
    (absent : ¬ (T.user.get? name).isSome) : ¬ (T'.user.get? name).isSome := by
  have set : ∀ chain rules, T.rules chain = some rules → ∀ rules', ¬ ((T.setRules chain rules').user.get? name).isSome := by
    intro chain rules found rules'
    cases chain with
    | builtin hook => exact absent
    | user chain =>
      have ne : name ≠ chain := by
        rintro rfl
        exact absent (Option.isSome_iff_exists.mpr ⟨rules, found⟩)
      show ¬ ((T.user.set chain rules').get? name).isSome
      rw [Dict.get?_set, if_neg ne]
      exact absent
  cases command with
  | newChain chain =>
    rw [run] at ran
    split at ran
    · cases ran
    · have ne : name ≠ chain := fun eq => other (congrArg Command.newChain eq.symm)
      rw [← Option.some.inj ran]
      show ¬ ((T.user.set chain []).get? name).isSome
      rw [Dict.get?_set, if_neg ne]
      exact absent
  | append chain rule =>
    obtain ⟨rules, found, rfl⟩ := Option.map_eq_some_iff.mp ran
    exact set _ _ found _
  | delete chain rule =>
    obtain ⟨rules, found, erased⟩ := Option.bind_eq_some_iff.mp ran
    split at erased
    · exact Option.some.inj erased ▸ set _ _ found _
    · cases erased
  | flush chain =>
    obtain ⟨rules, found, rfl⟩ := Option.map_eq_some_iff.mp ran
    exact set _ _ found _
  | deleteChain chain =>
    rw [run] at ran
    split at ran
    · rw [← Option.some.inj ran]
      show ¬ ((T.user.erase chain).get? name).isSome
      rw [Dict.get?_erase]
      split
      · exact Bool.false_ne_true
      · exact absent
    · cases ran

theorem runAll_keeps_chain {commands : List Command} (plain : Command.deleteChain name ∉ commands)
    (there : (T.user.get? name).isSome) : ((runAll commands T).user.get? name).isSome := by
  induction commands generalizing T with
  | nil => exact there
  | cons command rest ih =>
    rw [List.mem_cons, not_or] at plain
    rw [runAll]
    split
    · rename_i T' ran
      exact ih plain.2 (run_keeps_chain ran (Ne.symm plain.1) there)
    · exact there

end Commands

/-- What every command of a `try` keeps of the tables of a node. -/
theorem tryCommands_keeps {Q : Tables → Prop} {node name : String} {commands : List Command}
    (step : ∀ command ∈ commands, name = node → ∀ T T', run command T = some T' → Q T → Q T') :
    Proc.Keeps (fun c : Cluster => Q (c.node node).tables) (tryCommands name commands) := by
  refine Proc.Keeps.swallow ?_
  induction commands with
  | nil => exact Proc.Keeps.pure ()
  | cons command rest ih =>
    rw [Proc.forEach_cons]
    refine Proc.Keeps.bind (fun c held => ?_) fun _ => ih fun other member => step other (List.mem_cons_of_mem _ member)
    rw [exec_execOnNode_eq]
    cases c.outage 0 with
    | some exc => exact held
    | none =>
      simp only [Node.run]
      cases ran : run command (c.node name).tables with
      | none => exact held
      | some T =>
        show Q (if node = name then _ else _ : Node).tables
        split
        · rename_i here
          exact step command List.mem_cons_self here.symm _ _ ran (here ▸ held)
        · exact held

/-! ## What the calls create -/

section Calls

variable {c : Cluster} {node chain : String} {calls : List ChainCall}

theorem run_keeps_hasChain (call : ChainCall) (node chain : String) :
    Proc.Keeps (fun c : Cluster => c.HasChain node chain) call.run := by
  have kept : ∀ {name commands}, (∀ command ∈ commands, ∀ gone, command ≠ Command.deleteChain gone) →
      Proc.Keeps (fun c : Cluster => c.HasChain node chain) (tryCommands name commands) := fun plain =>
    tryCommands_keeps (Q := fun T => (T.user.get? chain).isSome) fun command member _ T T' ran there =>
      run_keeps_chain ran (plain command member chain) there
  cases call with
  | lookup name =>
    intro c there
    rcases exec_lookup name c with ⟨-, -, ran⟩ | ⟨-, exc, ran⟩ <;> rw [ran] <;> exact there
  | create r =>
    apply kept
    simp
  | rule name other rule =>
    apply kept
    simp

theorem run_keeps_noChain {call : ChainCall} (other : ∀ hook, call ≠ .create ⟨node, chain, hook⟩) :
    Proc.Keeps (fun c : Cluster => ¬ c.HasChain node chain) call.run := by
  cases call with
  | lookup name =>
    intro c absent
    rcases exec_lookup name c with ⟨-, -, ran⟩ | ⟨-, exc, ran⟩ <;> rw [ran] <;> exact absent
  | create r =>
    refine tryCommands_keeps (Q := fun T => ¬ (T.user.get? chain).isSome) fun command member here T T' ran => ?_
    apply run_keeps_absent ran
    rintro rfl
    have same : chain = r.chain := by simpa using member
    exact other r.hook (by rw [same, ← here])
  | rule name chain' rule =>
    refine tryCommands_keeps (Q := fun T => ¬ (T.user.get? chain).isSome) fun command member here T T' ran => ?_
    apply run_keeps_absent ran
    rintro rfl
    cases List.mem_singleton.mp member

/-- Only the calls for a chain create it. -/
theorem forEach_keeps_noChain (other : ∀ hook, .create ⟨node, chain, hook⟩ ∉ calls) :
    Proc.Keeps (fun c : Cluster => ¬ c.HasChain node chain) (Proc.forEach calls ChainCall.run) := by
  induction calls with
  | nil => exact Proc.Keeps.pure ()
  | cons call calls ih =>
    rw [Proc.forEach_cons]
    refine Proc.Keeps.bind (run_keeps_noChain fun hook eq => other hook ?_) fun _ => ih fun hook member => other hook ?_
    · exact eq ▸ List.mem_cons_self
    · exact List.mem_cons_of_mem call member

/-- Docker works and knows every node. -/
structure Cluster.Answers (c : Cluster) : Prop where
  works : c.Works
  known : ∀ name, (c.ip name).isSome

theorem run_answers (h : c.Answers) (call : ChainCall) : ∃ c', call.run.exec c = (.ok (), c') ∧ c'.Answers := by
  cases call with
  | lookup name =>
    rcases exec_lookup name c with ⟨-, -, ran⟩ | ⟨failed, -⟩
    · refine ⟨_, ran, fun k => h.works (k + 1), h.known⟩
    · exact absurd ⟨h.works 0, h.known name⟩ failed
  | create r => exact ⟨_, exec_tryCommands h.works _ _, h.works, h.known⟩
  | rule node chain r => exact ⟨_, exec_tryCommands h.works _ _, h.works, h.known⟩

theorem create_hasChain (h : c.Answers) (r : Removal) :
    (((ChainCall.create r).run.exec c).2).HasChain r.node r.chain := by
  rw [ChainCall.run, exec_tryCommands h.works]
  unfold HasChain
  rw [node_onTables, if_pos rfl]
  by_cases there : ((c.node r.node).tables.user.get? r.chain).isSome
  · have refused : run (.newChain r.chain) (c.node r.node).tables = none := if_pos there
    rw [runAll_cons_none refused]
    exact there
  · have created : run (.newChain r.chain) (c.node r.node).tables =
        some ((c.node r.node).tables.setRules (.user r.chain) []) := if_neg there
    have linked : run (.append (.builtin r.hook) (link r.chain)) ((c.node r.node).tables.setRules (.user r.chain) []) =
        some _ := rfl
    rw [runAll_cons_some created, runAll_cons_some linked]
    apply run_keeps_chain linked (by simp)
    show (((c.node r.node).tables.user.set r.chain []).get? r.chain).isSome
    rw [Dict.get?_set_self]
    rfl

/-- Where docker answers, every chain of the calls is there in the end. -/
theorem forEach_hasChain (h : c.Answers) {r : Removal} (member : .create r ∈ calls) :
    (((Proc.forEach calls ChainCall.run).exec c).2).HasChain r.node r.chain := by
  induction calls generalizing c with
  | nil => cases member
  | cons call calls ih =>
    obtain ⟨c', ran, answers⟩ := run_answers h call
    rw [Proc.forEach_cons, Proc.exec_bind_ok ran]
    rcases List.mem_cons.mp member with rfl | later
    · have made := create_hasChain h r
      rw [ran] at made
      exact (Proc.Keeps.forEach calls fun call => run_keeps_hasChain call r.node r.chain).final made
    · exact ih answers later

end Calls

namespace Partition

variable {p : Partition} {draws : Nat → Nat} {node chain : String}

/-! ## The two sets -/

/-- On some cluster `execute()` creates the chain on the node. -/
def MayCreate (p : Partition) (draws : Nat → Nat) (node chain : String) : Prop :=
  ∃ env : Cluster, ¬ env.HasChain node chain ∧ (p.execute ⟨draws, env⟩).2.env.HasChain node chain

/-- On some cluster where docker works `heal()` removes the chain from the node. -/
def Removes (p : Partition) (node chain : String) : Prop :=
  ∃ w : World Cluster, w.env.Works ∧ w.env.HasChain node chain ∧ ¬ (p.heal w).env.HasChain node chain

theorem create_mem_chainCalls {r x : Removal} {ips : List String} : .create r ∈ chainCalls x ips ↔ r = x := by
  simp [chainCalls]

theorem create_mem_sideCalls {ip : String → Option String} {l peers : List String} {r : Removal} :
    .create r ∈ sideCalls ip chain l peers ↔ r.node ∈ l ∧ r.chain = chain ∧ r.hook = .input := by
  obtain ⟨node, chain', hook⟩ := r
  simp [sideCalls, create_mem_chainCalls]

theorem create_mem_crossing {ip : String → Option String} {group1 group2 : List String} {r : Removal} :
    .create r ∈ sideCalls ip chain group1 group2 ++ sideCalls ip chain group2 group1 ↔
      ∃ b ∈ crossing chain group1 group2, b.node = r.node ∧ b.chain = r.chain ∧ b.hook = r.hook := by
  rw [List.mem_append, create_mem_sideCalls, create_mem_sideCalls]
  constructor
  · rintro (⟨here, rfl, input⟩ | ⟨here, rfl, input⟩)
    · exact ⟨⟨r.node, r.chain, .input, group2⟩, mem_crossing.mpr ⟨rfl, rfl, Or.inl ⟨here, rfl⟩⟩, rfl, rfl, input.symm⟩
    · exact ⟨⟨r.node, r.chain, .input, group1⟩, mem_crossing.mpr ⟨rfl, rfl, Or.inr ⟨here, rfl⟩⟩, rfl, rfl, input.symm⟩
  · rintro ⟨b, member, node, chain, hook⟩
    obtain ⟨named, input, sides⟩ := mem_crossing.mp member
    rw [← node, ← chain, ← hook]
    exact sides.imp (fun side => ⟨side.1, named, input⟩) fun side => ⟨side.1, named, input⟩

/-- The chains that the calls create are those of the blocks. -/
theorem create_mem_calls (ip : String → Option String) {r : Removal} :
    .create r ∈ p.calls ip ↔ ∃ b ∈ p.blocks, b.node = r.node ∧ b.chain = r.chain ∧ b.hook = r.hook := by
  cases p with
  | halves a =>
    obtain ⟨base, _ | group1, _ | group2⟩ := a
    · simp [calls, blocks]
    · simp [calls, blocks]
    · simp [calls, blocks]
    exact create_mem_crossing
  | ring a =>
    obtain ⟨base, _ | ordered⟩ := a
    · simp [calls, blocks]
    · simp only [calls, blocks, List.mem_flatMap, List.mem_map, create_mem_sideCalls, List.mem_singleton]
      constructor
      · rintro ⟨x, member, here, chain, input⟩
        exact ⟨_, ⟨x, member, rfl⟩, here.symm, chain.symm, input.symm⟩
      · rintro ⟨_, ⟨x, member, rfl⟩, here, chain, input⟩
        exact ⟨x, member, here.symm, chain.symm, input.symm⟩
  | node a =>
    obtain ⟨base, _ | target⟩ := a
    · simp [calls, blocks]
    exact create_mem_crossing
  | subnet a =>
    obtain ⟨base, _ | target, direction, subnetType, _ | blocked⟩ := a
    · simp [calls, blocks]
    · simp [calls, blocks]
    · simp [calls, blocks]
    obtain ⟨node, chain, hook⟩ := r
    simp only [calls, blocks, List.mem_append, List.mem_flatMap, List.mem_map, create_mem_chainCalls, reduceCtorEq,
      and_false, exists_false, false_or, Removal.mk.injEq]
    constructor
    · rintro ⟨direction, among, rfl, rfl, rfl⟩
      exact ⟨_, ⟨hook, among, rfl⟩, rfl, rfl, rfl⟩
    · rintro ⟨_, ⟨direction, among, rfl⟩, rfl, rfl, rfl⟩
      exact ⟨direction, among, rfl, rfl, rfl⟩
  | dc a =>
    by_cases empty : dcMembers a = []
    · have idle : calls ip (.dc a) = [] := if_pos empty
      have nothing : blocks (.dc a) = [] := if_pos empty
      simp [idle, nothing]
    · have issued : calls ip (.dc a) = _ := if_neg empty
      have placed : blocks (.dc a) = _ := if_neg empty
      rw [issued, placed]
      exact create_mem_crossing

/-- A cluster on which docker answers every call and nothing has been run. -/
def answering : Cluster := { idleCluster with ip := fun _ => some "" }

theorem answering_answers : answering.Answers := ⟨fun _ => rfl, fun _ => rfl⟩

theorem answering_noChain (node chain : String) : ¬ answering.HasChain node chain := Bool.false_ne_true

theorem execute_env (p : Partition) (w : World Cluster) :
    (p.execute w).2.env = ((Proc.forEach ((p.drawn w.draws).calls w.env.ip) ChainCall.run).exec w.env).2 := by
  obtain ⟨-, later, ran⟩ := ran_execute p w
  have calls := follows_program w.env.ip (p.drawn w.draws) w.env rfl
  rw [bind_pure_unit] at calls
  rw [ran, calls]

theorem mayCreate_iff : p.MayCreate draws node chain ↔ ∃ b ∈ (p.drawn draws).blocks, b.node = node ∧ b.chain = chain := by
  constructor
  · rintro ⟨env, absent, there⟩
    rw [execute_env] at there
    by_contra uncreated
    refine (forEach_keeps_noChain fun hook member => uncreated ?_).final absent there
    obtain ⟨b, among, here, named, -⟩ := (create_mem_calls env.ip).mp member
    exact ⟨b, among, here, named⟩
  · rintro ⟨b, among, rfl, rfl⟩
    refine ⟨answering, answering_noChain _ _, ?_⟩
    rw [execute_env]
    have issued : .create ⟨b.node, b.chain, b.hook⟩ ∈ (p.drawn draws).calls answering.ip :=
      (create_mem_calls _).mpr ⟨b, among, rfl, rfl, rfl⟩
    exact forEach_hasChain answering_answers issued

/-- Taking chains down leaves the others. -/
theorem remove_keeps {removals : List Removal} (other : ∀ r ∈ removals, ¬ (r.node = node ∧ r.chain = chain)) {c : Cluster}
    (there : c.HasChain node chain) : (c.remove removals).HasChain node chain := by
  induction removals generalizing c with
  | nil => exact there
  | cons r removals ih =>
    refine ih (fun s member => other s (List.mem_cons_of_mem r member)) ?_
    unfold HasChain
    rw [node_onTables]
    split
    · rename_i here
      refine runAll_keeps_chain (fun member => ?_) (here ▸ there)
      have same : chain = r.chain := by simpa [removeCommands] using member
      exact other r List.mem_cons_self ⟨here.symm, same.symm⟩
    · exact there

theorem removes_iff : p.Removes node chain ↔ ∃ r ∈ p.removals, r.node = node ∧ r.chain = chain := by
  constructor
  · rintro ⟨w, works, there, gone⟩
    rw [heal_eq works] at gone
    by_contra missed
    exact gone (remove_keeps (fun r member same => missed ⟨r, member, same⟩) there)
  · rintro ⟨r, member, rfl, rfl⟩
    have docker : SameDocker answering answering := ⟨rfl, rfl⟩
    have free : FstormFree answering := idleCluster_fstormFree
    have free_removals : ∀ x ∈ p.removals, (answering.node x.node).tables.Free x.chain := fun x removed =>
      free x.node _ _ (removals_hooked removed).owned
    -- the chain alone, as `create_chain` makes it
    have placed : Placed answering (answering.place answering.ipOf [⟨r.node, r.chain, r.hook, []⟩])
        [⟨r.node, r.chain, r.hook, []⟩] := by
      refine (placed_nil answering).place [_] (fun b among => ?_) (List.nodup_singleton _)
      rw [List.mem_singleton.mp among]
      exact free_removals r member
    refine ⟨⟨fun _ => 0, answering.place answering.ipOf [⟨r.node, r.chain, r.hook, []⟩]⟩, ?_, ?_, ?_⟩
    · intro k
      rw [(docker.place ..).outage]
      rfl
    · have installed := (placed r.node).installed ⟨r.chain, r.hook, []⟩
        (mem_installsAt.mpr ⟨_, List.mem_singleton_self _, rfl, rfl⟩)
      exact Option.isSome_iff_exists.mpr ⟨_, installed⟩
    · have at_hook : ∀ x ∈ p.removals, ∀ b ∈ [(⟨r.node, r.chain, r.hook, []⟩ : Block)], x.Covers b → b.hook = x.hook := by
        intro x removed b among covers
        rw [List.mem_singleton.mp among] at covers ⊢
        exact same_hook member removed covers.2.symm
      have left := placed.remove p.removals free_removals at_hook
      have nothing : ([⟨r.node, r.chain, r.hook, []⟩].filter fun b : Block => ∀ x ∈ p.removals, ¬ x.Covers b) = [] := by
        rw [List.filter_eq_nil_iff]
        intro b among kept
        rw [List.mem_singleton.mp among] at kept
        exact of_decide_eq_true kept r member ⟨rfl, rfl⟩
      rw [nothing] at left
      rw [heal_eq fun k => by rw [(docker.place ..).outage]; rfl]
      unfold HasChain
      rw [(left.restored r.node).2]
      exact answering_noChain r.node r.chain

/-! ## The condition -/

/-- The parameters that `execute()` acts on name nodes of the cluster. Groups of which one is not set
are drawn anew, and without a DC any DC may be drawn. -/
def Covered : Partition → Prop
  | .halves a => ∀ group1 group2, a.group1 = some group1 → a.group2 = some group2 →
      group1 ⊆ a.allNodes ∧ group2 ⊆ a.allNodes
  | .ring a => ∀ ordered, a.ordered = some ordered → ordered ⊆ a.allNodes
  | .node a => ∀ target, a.node = some target → target ∈ a.allNodes
  | .subnet _ => True
  | .dc a => ∀ dc members, a.dcName = none ∨ a.dcName = some dc → a.dcMap.get? dc = some members →
      members ⊆ a.allNodes

/-- `heal()` takes down every block. -/
def Reaches (p : Partition) : Prop := ∀ b ∈ p.blocks, ∃ r ∈ p.removals, r.Covers b

theorem reaches_iff_nodes {base : ActionBase} {l : List Block}
    (named : ∀ b ∈ l, b.chain = Partitioners.getChainName base.ordinal) :
    (∀ b ∈ l, ∃ r ∈ base.allNodes.map (⟨·, Partitioners.getChainName base.ordinal, .input⟩ : String → Removal),
        r.Covers b) ↔ ∀ b ∈ l, b.node ∈ base.allNodes := by
  refine forall₂_congr fun b member => ?_
  constructor
  · rintro ⟨r, removed, here, -⟩
    obtain ⟨n, inside, rfl⟩ := List.mem_map.mp removed
    exact here ▸ inside
  · intro inside
    exact ⟨_, List.mem_map_of_mem inside, rfl, (named b member).symm⟩

theorem crossing_nodes {group1 group2 l : List String} :
    (∀ b ∈ crossing chain group1 group2, b.node ∈ l) ↔ group1 ⊆ l ∧ group2 ⊆ l := by
  unfold crossing
  simp only [List.forall_mem_append, List.forall_mem_map]
  rfl

theorem reaches_crossing {base : ActionBase} {group1 group2 : List String} :
    (∀ b ∈ crossing (Partitioners.getChainName base.ordinal) group1 group2,
        ∃ r ∈ base.allNodes.map (⟨·, Partitioners.getChainName base.ordinal, .input⟩ : String → Removal), r.Covers b) ↔
      group1 ⊆ base.allNodes ∧ group2 ⊆ base.allNodes := by
  rw [reaches_iff_nodes fun b member => (mem_crossing.mp member).1, crossing_nodes]

theorem reaches_halves (a : PartitionRandomHalvesAction) :
    (∀ draws, Reaches ((Partition.halves a).drawn draws)) ↔ Covered (.halves a) := by
  constructor
  · intro reaches group1 group2 one two
    rcases drawn_halves (fun _ => 0) a with ⟨-, -, drawn⟩ | ⟨unset, -⟩
    · have here := reaches fun _ => 0
      obtain ⟨base, _, _⟩ := a
      cases one
      cases two
      rw [drawn] at here
      exact reaches_crossing.mp here
    · rw [one, two] at unset
      simp at unset
  · intro covered draws
    rcases drawn_halves draws a with ⟨one, two, drawn⟩ | ⟨-, nodes, mid, perm, drawn⟩
    · obtain ⟨base, _ | group1, _ | group2⟩ := a
      · cases one
      · cases one
      · cases two
      rw [drawn]
      exact reaches_crossing.mpr (covered group1 group2 rfl rfl)
    · rw [drawn]
      refine reaches_crossing.mpr ⟨?_, ?_⟩
      · exact List.Subset.trans (List.take_subset mid nodes) perm.subset
      · exact List.Subset.trans (List.drop_subset mid nodes) perm.subset

theorem reaches_order {base : ActionBase} {ordered : List String} :
    Reaches (.ring ⟨base, some ordered⟩) ↔ ordered ⊆ base.allNodes := by
  have named : ∀ b ∈ blocks (.ring ⟨base, some ordered⟩), b.chain = Partitioners.getChainName base.ordinal := by
    intro b member
    obtain ⟨_, _, rfl⟩ := List.mem_map.mp member
    rfl
  refine (reaches_iff_nodes named).trans ?_
  constructor
  · intro inside n member
    obtain ⟨i, at_i⟩ := List.mem_iff_getElem?.mp member
    have placed : (n, i) ∈ ordered.zipIdx := List.mem_zipIdx_iff_getElem?.mpr at_i
    exact inside _ (List.mem_map_of_mem placed)
  · intro inside b member
    obtain ⟨⟨n, i⟩, at_i, rfl⟩ := List.mem_map.mp member
    exact inside (List.mem_of_getElem? (List.mem_zipIdx_iff_getElem?.mp at_i))

theorem reaches_ring (a : PartitionMajoritiesRingAction) :
    (∀ draws, Reaches ((Partition.ring a).drawn draws)) ↔ Covered (.ring a) := by
  constructor
  · intro reaches ordered set
    obtain ⟨ring, -, given, drawn⟩ := drawn_ring (fun _ => 0) a
    have here := reaches fun _ => 0
    rw [drawn, given ordered set] at here
    exact reaches_order.mp here
  · intro covered draws
    obtain ⟨ring, perm, -, drawn⟩ := drawn_ring draws a
    rw [drawn]
    refine reaches_order.mpr (List.Subset.trans perm.subset ?_)
    cases set : a.ordered with
    | none => exact List.Subset.refl _
    | some ordered => exact covered ordered set

theorem reaches_target {base : ActionBase} {target : String} :
    Reaches (.node ⟨base, some target⟩) ↔ target ∈ base.allNodes := by
  refine reaches_crossing.trans ?_
  rw [and_iff_left (List.filter_subset_self _)]
  simp

theorem reaches_node (a : PartitionRandomNodeAction) :
    (∀ draws, Reaches ((Partition.node a).drawn draws)) ↔ Covered (.node a) := by
  constructor
  · intro reaches target set
    have here := reaches fun _ => 0
    rcases drawn_node (fun _ => 0) a with drawn | ⟨unset, -⟩
    · obtain ⟨base, _⟩ := a
      cases set
      rw [drawn] at here
      exact reaches_target.mp here
    · rw [unset] at set
      cases set
  · intro covered draws
    rcases drawn_node draws a with drawn | ⟨-, target, member, drawn⟩
    · rw [drawn]
      obtain ⟨base, _ | target⟩ := a
      · exact nofun
      exact reaches_target.mpr (covered target rfl)
    · rw [drawn]
      exact reaches_target.mpr member

theorem reaches_subnet (a : PartitionRandomSubnetAction) : Reaches (.subnet a) := by
  obtain ⟨base, _ | target, direction, subnetType, _ | blocked⟩ := a
  · exact nofun
  · exact nofun
  · exact nofun
  intro b member
  obtain ⟨hook, among, rfl⟩ := List.mem_map.mp member
  exact ⟨_, List.mem_map_of_mem among, rfl, rfl⟩

theorem reaches_members {a : PartitionRandomDcAction} : Reaches (.dc a) ↔ dcMembers a ⊆ a.allNodes := by
  by_cases empty : dcMembers a = []
  · have nothing : blocks (.dc a) = [] := if_pos empty
    rw [Reaches, nothing, empty]
    exact iff_of_true nofun (List.nil_subset _)
  · have placed : blocks (.dc a) = crossing (Partitioners.getChainName a.ordinal) (dcMembers a)
        (a.allNodes.filter fun n => ! (dcMembers a).contains n) := if_neg empty
    rw [Reaches, placed]
    refine reaches_crossing.trans ?_
    rw [and_iff_left (List.filter_subset_self _)]

theorem reaches_dc (a : PartitionRandomDcAction) :
    (∀ draws, Reaches ((Partition.dc a).drawn draws)) ↔ Covered (.dc a) := by
  have members : ∀ {base : ActionBase} {dc : String} {l : List String}, base.dcMap.get? dc = some l →
      dcMembers ⟨base, some dc⟩ = l := by
    intro base dc l found
    show (base.dcMap.get? dc).getD [] = l
    rw [found]
    rfl
  constructor
  · intro reaches dc l named found
    rcases named with unset | set
    · obtain ⟨draws, drawn⟩ := exists_drawn_dc unset (Dict.mem_keys_of_get? found)
      have here := reaches draws
      rw [drawn, reaches_members, members found] at here
      exact here
    · have here := reaches fun _ => 0
      rcases drawn_dc (fun _ => 0) a with ⟨drawn, -⟩ | ⟨unset, -⟩
      · obtain ⟨base, _⟩ := a
        cases set
        rw [drawn, reaches_members, members found] at here
        exact here
      · rw [unset] at set
        cases set
  · intro covered draws
    have inside : ∀ dc, (a.dcName = none ∨ a.dcName = some dc) → dcMembers ⟨a.toActionBase, some dc⟩ ⊆ a.allNodes := by
      intro dc named
      cases found : a.dcMap.get? dc with
      | none =>
        show (a.dcMap.get? dc).getD [] ⊆ _
        rw [found]
        exact List.nil_subset _
      | some l =>
        rw [members found]
        exact covered dc l named found
    rcases drawn_dc draws a with ⟨drawn, unnamed⟩ | ⟨unset, dc, drawn⟩
    · rw [drawn, reaches_members]
      obtain ⟨base, _ | dc⟩ := a
      · rw [unnamed rfl]
        exact List.nil_subset _
      · exact inside dc (Or.inr rfl)
    · rw [drawn]
      exact reaches_members.mpr (inside dc (Or.inl unset))

/-- Every draw of the parameters leads to chains that `heal()` takes down if and only if the parameters
that are given name nodes of the cluster. -/
theorem reaches_iff_covered (p : Partition) : (∀ draws, Reaches (p.drawn draws)) ↔ p.Covered := by
  cases p with
  | halves a => exact reaches_halves a
  | ring a => exact reaches_ring a
  | node a => exact reaches_node a
  | subnet a =>
    refine iff_of_true (fun draws => ?_) trivial
    have resolved : Resolves (.subnet a) (drawn (.subnet a) draws) := (ran_execute (.subnet a) ⟨draws, answering⟩).1
    generalize drawn (.subnet a) draws = chosen at resolved
    cases resolved with
    | given => exact reaches_subnet a
    | @subnet _ b _ _ => exact reaches_subnet b
  | dc a => exact reaches_dc a

/-- Every chain that `execute()` may create is one that `heal()` removes, whatever is drawn, if and
only if the parameters that are given name nodes of the cluster. -/
theorem mayCreate_removed_iff (p : Partition) :
    (∀ draws env node chain, p.MayCreate draws node chain → (p.execute ⟨draws, env⟩).1.Removes node chain) ↔
      p.Covered := by
  have object : ∀ draws env, (p.execute ⟨draws, env⟩).1 = p.drawn draws := by
    intro draws env
    obtain ⟨-, later, ran⟩ := ran_execute p ⟨draws, env⟩
    rw [ran]
  rw [← reaches_iff_covered]
  constructor
  · intro removed draws b member
    have gone := removed draws answering b.node b.chain (mayCreate_iff.mpr ⟨b, member, rfl, rfl⟩)
    rw [object] at gone
    exact removes_iff.mp gone
  · intro reaches draws env node chain may
    obtain ⟨b, member, rfl, rfl⟩ := mayCreate_iff.mp may
    rw [object]
    exact removes_iff.mpr (reaches draws b member)

/-- A DC with a node that is neither a database node nor an extra node. -/
def cutDc1 : Partition :=
  .dc ⟨{ dbNodes := ["pg1", "pg2"], extraNodes := [], ordinal := 1, dcMap := ⟨[("dc1", ["pg1", "zk1"])], by decide⟩ },
       some "dc1"⟩

/-- The chain on zk1 stays. -/
theorem cutDc1_not_removed : ¬ ∀ draws env node chain,
    cutDc1.MayCreate draws node chain → (cutDc1.execute ⟨draws, env⟩).1.Removes node chain := by
  rw [mayCreate_removed_iff]
  intro covered
  have inside := covered "dc1" ["pg1", "zk1"] (Or.inr rfl) rfl
  exact absurd (inside (List.mem_cons_of_mem _ List.mem_cons_self) : "zk1" ∈ ["pg1", "pg2"] ++ []) (by decide)

end Partition

end FaultStorm
