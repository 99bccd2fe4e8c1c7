import FaultStorm.Net.Reserved
import FaultStorm.Faults.Contract
import FaultStorm.Faults.ProcessFreezer

/-!
# What the actions leave alone

On a node FaultStorm owns the chains whose names begin as `get_chain_name` has them begin, the
jumps to them, and the flag file of the freezer. Whatever docker does, whatever raises and
whatever the parameters of an action are, no method of a built-in class changes anything else,
unless a pattern of a freeze ends the here-document it is written in: the shell then runs the
patterns behind it.
-/

namespace FaultStorm

open Python Proc Iptables

/-- The chain is named as the partition actions name theirs. -/
def Fstorm (chain : String) : Prop := "FSTORM_PART_".toList <+: chain.toList

instance : DecidablePred Fstorm := fun chain => inferInstanceAs (Decidable (_ <+: chain.toList))

theorem fstorm_getChainName (ordinal : Int) : Fstorm (Partitioners.getChainName ordinal) := by
  unfold Fstorm Partitioners.getChainName
  rw [String.toList_append]
  exact List.prefix_append _ _

theorem fstorm_getDirectionalChainName (ordinal : Int) (direction : Hook) :
    Fstorm (Partitioners.getDirectionalChainName ordinal direction) := by
  unfold Fstorm Partitioners.getDirectionalChainName
  simp only [String.toList_append, List.append_assoc]
  exact List.prefix_append _ _

/-- The command changes what FaultStorm owns, or nothing. -/
def NodeCommand.Own : NodeCommand → Prop
  | .iptables command => command.Within Fstorm
  | .tc _ => False
  | .heredoc path delimiter lines => path = BaseFreezeAction.flagFile ∧ delimiter ∉ lines
  | .rm path => path = BaseFreezeAction.flagFile
  | .pkill _ => True

/-- The nodes agree in everything that FaultStorm does not own. -/
structure Node.SameOutside (n n' : Node) : Prop where
  tables : Tables.SameOutside Fstorm n.tables n'.tables
  iface : n'.iface = n.iface
  files : ∀ path, path ≠ BaseFreezeAction.flagFile → n'.files path = n.files path
  stray : n'.stray = n.stray

theorem Node.SameOutside.refl (n : Node) : n.SameOutside n := ⟨.refl _, rfl, fun _ _ => rfl, rfl⟩

theorem Node.SameOutside.trans {n n' n'' : Node} (h : n.SameOutside n') (h' : n'.SameOutside n'') : n.SameOutside n'' :=
  ⟨h.tables.trans h'.tables, h'.iface.trans h.iface, fun path other => (h'.files path other).trans (h.files path other),
    h'.stray.trans h.stray⟩

theorem Node.run_sameOutside {n n' : Node} {command : NodeCommand} (own : command.Own) (ran : n.run command = some n') :
    n.SameOutside n' := by
  cases command with
  | iptables command =>
    obtain ⟨tables, changed, rfl⟩ := Option.map_eq_some_iff.mp ran
    exact ⟨Iptables.run_sameOutside own changed, rfl, fun _ _ => rfl, rfl⟩
  | tc command => exact own.elim
  | heredoc path delimiter lines =>
    obtain ⟨rfl, closed⟩ := (own : path = _ ∧ _)
    cases ran
    exact ⟨.refl _, rfl, fun path other => if_neg other, by simp [closed]⟩
  | rm path =>
    obtain rfl := (own : path = _)
    cases ran
    exact ⟨.refl _, rfl, fun path other => if_neg other, rfl⟩
  | pkill process =>
    cases ran
    exact .refl n

/-- The node is as it was, but for the order in which its chains were made. -/
structure Node.Restored (n n' : Node) : Prop where
  builtin : n'.tables.builtin = n.tables.builtin
  user : n'.tables.user.get? = n.tables.user.get?
  iface : n'.iface = n.iface
  files : n'.files = n.files
  stray : n'.stray = n.stray

/-- What FaultStorm owns is restored where the filter table and the flag file are. -/
theorem Node.SameOutside.restored {n n' : Node} (h : n.SameOutside n') (builtin : n'.tables.builtin = n.tables.builtin)
    (user : n'.tables.user.get? = n.tables.user.get?)
    (flag : n'.files BaseFreezeAction.flagFile = n.files BaseFreezeAction.flagFile) : n.Restored n' := by
  refine ⟨builtin, user, h.iface, funext fun path => ?_, h.stray⟩
  by_cases flagged : path = BaseFreezeAction.flagFile
  · rw [flagged]
    exact flag
  · exact h.files path flagged

/-- The clusters agree in everything that FaultStorm does not own. -/
structure Cluster.LeftAlone (start c : Cluster) : Prop where
  ip : c.ip = start.ip
  nodes : ∀ name, (start.node name).SameOutside (c.node name)

/-! ## Docker calls -/

section Docker

variable {start : Cluster}

/-- A command on what FaultStorm owns, wherever and with whatever end. -/
theorem execOnNode_leavesAlone (name : String) (command : NodeCommand) (own : command.Own) :
    Keeps start.LeftAlone (ClusterManager.execOnNode name command) := by
  intro c kept
  rw [exec_execOnNode_eq]
  cases c.outage 0 with
  | some exc => exact ⟨kept.ip, kept.nodes⟩
  | none =>
    cases ran : (c.node name).run command with
    | none => exact ⟨kept.ip, kept.nodes⟩
    | some n =>
      refine ⟨kept.ip, fun other => ?_⟩
      show (start.node other).SameOutside (if other = name then n else c.node other)
      by_cases here : other = name
      · rw [if_pos here, here]
        exact (kept.nodes name).trans (Node.run_sameOutside own ran)
      · rw [if_neg here]
        exact kept.nodes other

theorem getNodeIp_leavesAlone (name : String) : Keeps start.LeftAlone (ClusterManager.getNodeIp name) := by
  intro c kept
  rw [exec_getNodeIp_eq]
  cases c.outage 0 with
  | some exc => exact ⟨kept.ip, kept.nodes⟩
  | none => cases c.ip name <;> exact ⟨kept.ip, kept.nodes⟩

theorem getNodeIps_leavesAlone (nodes : List String) : Keeps start.LeftAlone (getNodeIps nodes) := by
  unfold getNodeIps
  induction nodes with
  | nil => exact .pure []
  | cons name nodes ih =>
    rw [List.mapM_cons]
    exact (getNodeIp_leavesAlone name).bind fun _ => ih.bind fun _ => .pure _

theorem tryCommands_leavesAlone (name : String) {commands : List Command} (within : ∀ c ∈ commands, c.Within Fstorm) :
    Keeps start.LeftAlone (tryCommands name commands) := by
  refine Keeps.swallow ?_
  induction commands with
  | nil => exact .pure ()
  | cons command commands ih =>
    rw [forEach_cons]
    exact (execOnNode_leavesAlone name (.iptables command) (within command List.mem_cons_self)).bind fun _ =>
      ih fun c member => within c (List.mem_cons_of_mem command member)

variable {chain : String}

theorem createChainForDirection_leavesAlone (name : String) (direction : Hook) (fstorm : Fstorm chain) :
    Keeps start.LeftAlone (Partitioners.createChainForDirection name chain direction) := by
  apply tryCommands_leavesAlone
  simp only [List.forall_mem_cons]
  exact ⟨fstorm, ⟨chain, fstorm, rfl⟩, List.forall_mem_nil _⟩

theorem createChain_leavesAlone (name : String) (fstorm : Fstorm chain) :
    Keeps start.LeftAlone (Partitioners.createChain name chain) :=
  createChainForDirection_leavesAlone name .input fstorm

theorem addDropRulesBySrc_leavesAlone (name : String) (ips : List String) (fstorm : Fstorm chain) :
    Keeps start.LeftAlone (Partitioners.addDropRulesBySrc name chain ips) :=
  .forEach ips fun _ => tryCommands_leavesAlone name (List.forall_mem_singleton.mpr fstorm)

theorem addDropRulesByDest_leavesAlone (name : String) (ips : List String) (fstorm : Fstorm chain) :
    Keeps start.LeftAlone (Partitioners.addDropRulesByDest name chain ips) :=
  .forEach ips fun _ => tryCommands_leavesAlone name (List.forall_mem_singleton.mpr fstorm)

theorem removeChainForDirection_leavesAlone (name : String) (direction : Hook) (fstorm : Fstorm chain) :
    Keeps start.LeftAlone (Partitioners.removeChainForDirection name chain direction) := by
  apply tryCommands_leavesAlone
  simp only [List.forall_mem_cons]
  exact ⟨fstorm, ⟨chain, fstorm, rfl⟩, fstorm, List.forall_mem_nil _⟩

theorem healPartition_leavesAlone (ordinal : Int) (nodes : List String) :
    Keeps start.LeftAlone (Partitioners.healPartition ordinal nodes) :=
  .forEach nodes fun name => removeChainForDirection_leavesAlone name .input (fstorm_getChainName ordinal)

theorem healDirectionalPartition_leavesAlone (ordinal : Int) (name : String) (directions : List Hook) :
    Keeps start.LeftAlone (Partitioners.healDirectionalPartition ordinal name directions) :=
  .forEach directions fun direction =>
    removeChainForDirection_leavesAlone name direction (fstorm_getDirectionalChainName ordinal direction)

/-- Nodes that drop what comes from some addresses. -/
theorem side_leavesAlone (nodes ips : List String) (fstorm : Fstorm chain) :
    Keeps start.LeftAlone (forEach nodes fun name => do
      Partitioners.createChain name chain
      Partitioners.addDropRulesBySrc name chain ips) :=
  .forEach nodes fun name => (createChain_leavesAlone name fstorm).bind fun _ => addDropRulesBySrc_leavesAlone name ips fstorm

theorem writeFlagToNodes_leavesAlone {a : BaseFreezeAction} (enclosed : ProcessFreezer.Enclosed a)
    (targets : List String) : Keeps start.LeftAlone (a.writeFlagToNodes targets) := by
  have closed := mt List.contains_iff_mem.mpr
    (Bool.eq_false_iff.mp ((ProcessFreezer.strays_eq_false_iff a).mpr enclosed))
  exact .forEach targets fun name => (execOnNode_leavesAlone name (.heredoc _ _ _) ⟨rfl, closed⟩).swallow

theorem removeFlagFromNodes_leavesAlone (targets : List String) :
    Keeps start.LeftAlone (BaseFreezeAction.removeFlagFromNodes targets) :=
  .forEach targets fun name => (execOnNode_leavesAlone name (.rm _) rfl).swallow

end Docker

/-! ## The methods -/

section Methods

variable {α δ : Type} {P : α → Prop} {G : Cluster → Prop}

/-- The method, called on an object in `P`, keeps it there and keeps a property of the cluster. -/
def KeepsCluster (P : α → Prop) (G : Cluster → Prop) (m : ActionM α δ) : Prop :=
  Keeps (fun s => P s.1 ∧ G s.2.env) m

namespace KeepsCluster

theorem pure (d : δ) : KeepsCluster P G (Pure.pure d : ActionM α δ) := fun _ hs => hs

theorem throw (e : PyExc) : KeepsCluster P G (MonadExcept.throw e : ActionM α δ) := fun _ hs => hs

theorem bind {γ : Type} {m : ActionM α δ} {f : δ → ActionM α γ} (first : KeepsCluster P G m)
    (next : ∀ d, KeepsCluster P G (f d)) : KeepsCluster P G (m >>= f) :=
  Keeps.bind first next

theorem ite {c : Prop} [Decidable c] {m n : ActionM α δ} (yes : KeepsCluster P G m) (no : KeepsCluster P G n) :
    KeepsCluster P G (if c then m else n) :=
  Triple.ite (fun _ => yes) fun _ => no

/-- What is done with the object is done with one in `P`. -/
theorem this_bind {γ : Type} {f : α → ActionM α γ} (next : ∀ a, P a → KeepsCluster P G (f a)) :
    KeepsCluster P G (FaultStorm.this >>= f) := by
  intro s hs
  rw [exec_bind_ok (exec_this s)]
  exact next s.1 hs.1 s hs

theorem assign {f : α → α} (keeps : ∀ a, P a → P (f a)) : KeepsCluster P G (FaultStorm.assign f) :=
  fun s hs => ⟨keeps s.1 hs.1, hs.2⟩

theorem pick (d : Random.Draw δ) : KeepsCluster P G (FaultStorm.pick d : ActionM α δ) := by
  intro s hs
  rw [FaultStorm.pick, exec_focus]
  rcases (d.exec s.2.draws).1 with _ | _ <;> exact hs

theorem onCluster {m : ClusterM δ} (keeps : Keeps G m) : KeepsCluster P G (FaultStorm.onCluster m : ActionM α δ) := by
  intro s hs
  have final := keeps.final hs.2
  rw [FaultStorm.onCluster, exec_focus]
  rcases (m.exec s.2.env).1 with _ | _ <;> exact ⟨hs.1, final⟩

theorem choose {view : α → Option String} {put : α → String → α} {options : α → List String}
    (keeps : ∀ a v, P a → P (put a v)) : KeepsCluster P G (FaultStorm.choose view put options) :=
  this_bind fun _ _ => ite ((pick _).bind fun v => assign fun a => keeps a v) (pure ())

/-- `this`, and a call on the cluster that depends on it. -/
theorem act {m : α → ClusterM δ} (keeps : ∀ a, P a → Keeps G (m a)) :
    KeepsCluster P G (do let a ← FaultStorm.this; FaultStorm.onCluster (m a) : ActionM α δ) :=
  this_bind fun a among => onCluster (keeps a among)

/-- A method of a built-in class keeps what its body keeps. -/
theorem builtinMethod {Q : ActionObj Builtin → Prop} {m : ActionM α Unit} {wrap : α → Builtin}
    {view : Builtin → Option α} (keeps : KeepsCluster P G m) (reads : ∀ b a, view b = some a → Q (.custom b) → P a)
    (wraps : ∀ a, P a → Q (.custom (wrap a))) :
    Keeps (fun s => Q s.1 ∧ G s.2.env) (FaultStorm.builtinMethod wrap view m) := by
  rintro ⟨self, w⟩ hs
  have ran : (FaultStorm.builtinMethod wrap view m).exec (self, w) = FaultStorm.builtinMethod wrap view m (self, w) := rfl
  rw [ran, FaultStorm.builtinMethod]
  cases self with
  | wait a => exact hs
  | custom b =>
    dsimp only
    cases viewed : view b with
    | none => exact hs
    | some a =>
      have final := Keeps.final (I := fun s : α × World Cluster => P s.1 ∧ G s.2.env) keeps (s := (a, w))
        ⟨reads b a viewed hs.1, hs.2⟩
      dsimp only
      rcases (m.exec (a, w)).1 with _ | _ <;> exact ⟨wraps _ final.1, final.2⟩

end KeepsCluster

end Methods

section Builtin

variable {start : Cluster}

/-- No pattern of a freeze ends the here-document of its flag file. -/
def ActionObj.Enclosed : ActionObj Builtin → Prop
  | .custom (.freeze a) => ProcessFreezer.Enclosed a.toBaseFreezeAction
  | .custom (.freezeGroup a) => ProcessFreezer.Enclosed a.toBaseFreezeAction
  | _ => True

theorem KillProcessAction.execute_leavesAlone : KeepsCluster (fun _ => True) start.LeftAlone execute := by
  unfold execute
  refine KeepsCluster.bind (.choose fun _ _ h => h) fun _ => ?_
  refine KeepsCluster.bind (.choose fun _ _ h => h) fun _ => .act fun a _ => ?_
  exact (execOnNode_leavesAlone _ (.pkill _) trivial).swallow

theorem PartitionRandomHalvesAction.partition_leavesAlone (ordinal : Int) (group1 group2 : List String) :
    Keeps start.LeftAlone (partition ordinal group1 group2) :=
  (getNodeIps_leavesAlone group2).bind fun _ => (side_leavesAlone group1 _ (fstorm_getChainName ordinal)).bind fun _ =>
    (getNodeIps_leavesAlone group1).bind fun _ => side_leavesAlone group2 _ (fstorm_getChainName ordinal)

theorem PartitionRandomHalvesAction.execute_leavesAlone : KeepsCluster (fun _ => True) start.LeftAlone execute := by
  have acts : KeepsCluster (fun _ => True) start.LeftAlone (do
      let a ← this
      onCluster (partition a.ordinal (a.group1.getD []) (a.group2.getD [])) : ActionM PartitionRandomHalvesAction Unit) :=
    .act fun a _ => partition_leavesAlone _ _ _
  unfold execute
  refine KeepsCluster.this_bind fun a _ => .ite ?_ acts
  exact KeepsCluster.bind (.pick _) fun _ => KeepsCluster.bind (.assign fun _ h => h) fun _ => acts

theorem PartitionMajoritiesRingAction.partition_leavesAlone (ordinal : Int) (ordered : List String) :
    Keeps start.LeftAlone (partition ordinal ordered) := by
  have fstorm := fstorm_getChainName ordinal
  refine Keeps.forEach _ fun place => (getNodeIps_leavesAlone _).bind fun ips => ?_
  exact (createChain_leavesAlone place.1 fstorm).bind fun _ => addDropRulesBySrc_leavesAlone place.1 ips fstorm

theorem PartitionMajoritiesRingAction.execute_leavesAlone : KeepsCluster (fun _ => True) start.LeftAlone execute := by
  have acts : KeepsCluster (fun _ => True) start.LeftAlone (do
      let a ← this
      onCluster (partition a.ordinal (a.ordered.getD [])) : ActionM PartitionMajoritiesRingAction Unit) :=
    .act fun a _ => partition_leavesAlone _ _
  unfold execute
  refine KeepsCluster.this_bind fun a _ => .ite ?_ acts
  exact KeepsCluster.bind (.pick _) fun _ => KeepsCluster.bind (.assign fun _ h => h) fun _ => acts

theorem PartitionRandomNodeAction.partition_leavesAlone (ordinal : Int) (allNodes : List String) (node : String) :
    Keeps start.LeftAlone (partition ordinal allNodes node) := by
  have fstorm := fstorm_getChainName ordinal
  exact (getNodeIps_leavesAlone _).bind fun _ => (createChain_leavesAlone node fstorm).bind fun _ =>
    (addDropRulesBySrc_leavesAlone node _ fstorm).bind fun _ => (getNodeIp_leavesAlone node).bind fun _ =>
      side_leavesAlone _ _ fstorm

theorem PartitionRandomNodeAction.execute_leavesAlone : KeepsCluster (fun _ => True) start.LeftAlone execute := by
  unfold execute
  exact KeepsCluster.bind (.choose fun _ _ h => h) fun _ => .act fun a _ => partition_leavesAlone _ _ _

theorem PartitionRandomSubnetAction.partition_leavesAlone (ordinal : Int) (node : String) (directions : List Hook)
    (blocked : List String) : Keeps start.LeftAlone (partition ordinal node directions blocked) := by
  refine (getNodeIps_leavesAlone _).bind fun ips => .forEach _ fun direction => ?_
  have fstorm := fstorm_getDirectionalChainName ordinal direction
  refine (createChainForDirection_leavesAlone node direction fstorm).bind fun _ => ?_
  cases direction with
  | input => exact addDropRulesBySrc_leavesAlone node ips fstorm
  | output => exact addDropRulesByDest_leavesAlone node ips fstorm

theorem PartitionRandomSubnetAction.execute_leavesAlone : KeepsCluster (fun _ => True) start.LeftAlone execute := by
  have acts : KeepsCluster (fun _ => True) start.LeftAlone (do
      let a ← this
      onCluster (partition a.ordinal (strOrEmpty a.node) a.getIptablesDirections (a.blockedNodes.getD [])) :
        ActionM PartitionRandomSubnetAction Unit) :=
    .act fun a _ => partition_leavesAlone _ _ _ _
  unfold execute
  refine KeepsCluster.bind (.choose fun _ _ h => h) fun _ => KeepsCluster.bind (.choose fun _ _ h => h) fun _ =>
    KeepsCluster.bind (.choose fun _ _ h => h) fun _ => KeepsCluster.this_bind fun a _ => .ite ?_ acts
  exact KeepsCluster.bind (.assign fun _ h => h) fun _ => acts

theorem PartitionRandomSubnetAction.heal_leavesAlone : KeepsCluster (fun _ => True) start.LeftAlone heal := by
  unfold heal
  refine KeepsCluster.this_bind fun a _ => ?_
  cases a.node with
  | none => exact .throw _
  | some node => exact .onCluster (healDirectionalPartition_leavesAlone _ _ _)

theorem PartitionRandomDcAction.execute_leavesAlone : KeepsCluster (fun _ => True) start.LeftAlone execute := by
  unfold execute
  refine KeepsCluster.this_bind fun a _ => .ite (.pure ()) ?_
  refine KeepsCluster.bind (.choose fun _ _ h => h) fun _ => KeepsCluster.this_bind fun a _ => ?_
  exact .ite (.pure ()) (.onCluster (PartitionRandomHalvesAction.partition_leavesAlone _ _ _))

theorem FreezeProcessesAction.execute_leavesAlone : KeepsCluster
    (fun a : FreezeProcessesAction => ProcessFreezer.Enclosed a.toBaseFreezeAction) start.LeftAlone execute := by
  unfold execute resolveTargets
  refine KeepsCluster.bind (KeepsCluster.bind (.choose fun _ _ h => h) fun _ => ?_) fun _ => ?_
  · exact KeepsCluster.this_bind fun a _ => .pure _
  · exact .act fun a enclosed => writeFlagToNodes_leavesAlone enclosed _

theorem FreezeProcessesAction.heal_leavesAlone : KeepsCluster
    (fun a : FreezeProcessesAction => ProcessFreezer.Enclosed a.toBaseFreezeAction) start.LeftAlone heal := by
  unfold heal
  refine KeepsCluster.this_bind fun a _ => ?_
  cases a.node with
  | none => exact .throw _
  | some node => exact .onCluster (removeFlagFromNodes_leavesAlone _)

theorem FreezeProcessesGroupAction.execute_leavesAlone : KeepsCluster
    (fun a : FreezeProcessesGroupAction => ProcessFreezer.Enclosed a.toBaseFreezeAction) start.LeftAlone execute := by
  have targets : KeepsCluster (fun a : FreezeProcessesGroupAction => ProcessFreezer.Enclosed a.toBaseFreezeAction)
      start.LeftAlone resolveTargets := by
    unfold resolveTargets
    refine KeepsCluster.this_bind fun a _ => .ite (.ite (.pure _) ?_) (KeepsCluster.this_bind fun a _ => .pure _)
    exact KeepsCluster.bind (.pick _) fun group => KeepsCluster.bind (.assign fun _ h => h) fun _ =>
      KeepsCluster.this_bind fun a _ => .pure _
  unfold execute
  exact targets.bind fun _ => .ite (.pure ()) (.act fun a enclosed => writeFlagToNodes_leavesAlone enclosed _)

/-- `heal()` of the partitions that cut all nodes. -/
theorem heal_leavesAlone {α : Type} (base : α → ActionBase) : KeepsCluster (fun _ => True) start.LeftAlone (do
    let a ← this
    onCluster (Partitioners.healPartition (base a).ordinal (base a).allNodes) : ActionM α Unit) :=
  .act fun _ _ => healPartition_leavesAlone _ _

theorem FreezeProcessesGroupAction.heal_leavesAlone : KeepsCluster
    (fun a : FreezeProcessesGroupAction => ProcessFreezer.Enclosed a.toBaseFreezeAction) start.LeftAlone heal :=
  .act fun _ _ => removeFlagFromNodes_leavesAlone _

/-- Every method of a built-in class leaves alone what FaultStorm does not own, if no pattern of a freeze
ends the here-document of its flag file. -/
theorem builtin_leavesAlone {cls : ActionClass Builtin Cluster} (member : cls ∈ builtinClasses)
    {method : Method Builtin Cluster} (among : method ∈ [cls.execute, cls.heal]) :
    Keeps (fun s => s.1.Enclosed ∧ start.LeftAlone s.2.env) method := by
  have all : ∀ {α : Type} {m : ActionM α Unit} {wrap : α → Builtin} {view : Builtin → Option α},
      KeepsCluster (fun _ => True) start.LeftAlone m → (∀ a, ActionObj.Enclosed (.custom (wrap a))) →
        Keeps (fun s => s.1.Enclosed ∧ start.LeftAlone s.2.env) (builtinMethod wrap view m) :=
    fun keeps enclosed => keeps.builtinMethod (fun _ _ _ _ => trivial) fun a _ => enclosed a
  simp only [builtinClasses, List.mem_cons, List.not_mem_nil, or_false] at member among
  rcases member with rfl | rfl | rfl | rfl | rfl | rfl | rfl | rfl | rfl <;> rcases among with rfl | rfl
  · exact .pure ()
  · exact .pure ()
  · exact all KillProcessAction.execute_leavesAlone fun _ => trivial
  · exact all (.pure ()) fun _ => trivial
  · exact all PartitionRandomHalvesAction.execute_leavesAlone fun _ => trivial
  · exact all (heal_leavesAlone PartitionRandomHalvesAction.toActionBase) fun _ => trivial
  · exact all PartitionMajoritiesRingAction.execute_leavesAlone fun _ => trivial
  · exact all (heal_leavesAlone PartitionMajoritiesRingAction.toActionBase) fun _ => trivial
  · exact all PartitionRandomNodeAction.execute_leavesAlone fun _ => trivial
  · exact all (heal_leavesAlone PartitionRandomNodeAction.toActionBase) fun _ => trivial
  · exact all PartitionRandomSubnetAction.execute_leavesAlone fun _ => trivial
  · exact all PartitionRandomSubnetAction.heal_leavesAlone fun _ => trivial
  · exact all PartitionRandomDcAction.execute_leavesAlone fun _ => trivial
  · exact all (heal_leavesAlone PartitionRandomDcAction.toActionBase) fun _ => trivial
  · refine FreezeProcessesAction.execute_leavesAlone.builtinMethod (fun b a viewed enclosed => ?_) fun _ enclosed => enclosed
    cases b <;> cases viewed
    exact enclosed
  · refine FreezeProcessesAction.heal_leavesAlone.builtinMethod (fun b a viewed enclosed => ?_) fun _ enclosed => enclosed
    cases b <;> cases viewed
    exact enclosed
  · refine FreezeProcessesGroupAction.execute_leavesAlone.builtinMethod (fun b a viewed enclosed => ?_) fun _ enclosed => enclosed
    cases b <;> cases viewed
    exact enclosed
  · refine FreezeProcessesGroupAction.heal_leavesAlone.builtinMethod (fun b a viewed enclosed => ?_) fun _ enclosed => enclosed
    cases b <;> cases viewed
    exact enclosed

end Builtin

end FaultStorm
