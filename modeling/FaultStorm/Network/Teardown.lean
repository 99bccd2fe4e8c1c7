import FaultStorm.Network.StoredBands

/-!
# Taking the latency away

`TestRunner.run` applies the latency before the `try` whose `finally` removes it. The phases of
the test are any procedure on the world; docker calls of `apply` may fail at any point.
-/

namespace FaultStorm

open Python Cluster NetworkLatency

namespace NetworkLatencyManager

/-- `_remove_node`. -/
def removeNode (node : String) : ActionM NetworkLatencyManager Unit :=
  onCluster <| Proc.swallow <| ClusterManager.execOnNode node (.tc .delRoot)

/-- `remove`. -/
def remove (forceAllNodes : Bool) : ActionM NetworkLatencyManager Unit := do
  if (← this).configuredNodes.isEmpty && ! forceAllNodes then return
  if forceAllNodes then assign fun m => { m with configuredNodes := m.config.allNodes.eraseDups }
  Proc.forEach (← this).configuredNodes removeNode
  assign fun m => { m with configuredNodes := [], nodeBands := Dict.empty }

end NetworkLatencyManager

open NetworkLatencyManager

/-- `TestRunner.run`: `logDirs` is what `os.makedirs` raises, if anything, and `runPhases` is
`_run_phases`. -/
def TestRunner.run {α : Type} (config : TestConfig) (dcMap : DcMap) (logDirs : Option PyExc)
    (runPhases : Proc (World Cluster) PyExc α) : Proc (World Cluster) PyExc α := fun w =>
  match logDirs with
  | some exc => (.error exc, w)
  | none =>
    let (result, _, w) := Proc.exec (do
      apply dcMap
      Proc.tryFinally (Proc.focus Prod.snd (fun s w => (s.1, w)) runPhases) (remove false)) (init config, w)
    (result, w)

namespace NetworkLatencyManager

/-- The body of the loop of `apply`. -/
def configureNode (config : TestConfig) (dcMap : DcMap) (node : String) : ActionM NetworkLatencyManager Unit := do
  let dest ← onCluster (destDelays config dcMap node)
  if dest.items.isEmpty then return
  applyNode node dest
  assign fun m => { m with configuredNodes := m.configuredNodes.insert node }

/-! ## What one node's turn changes -/

/-- The interfaces of the nodes. -/
def ifaces (c : Cluster) (name : String) : Tc.Iface := (c.node name).iface

section Frame

variable {config : TestConfig} {dcMap : DcMap} {node : String} {I : (String → Node) → Prop}

theorem readOnNode_keeps (name : String) (output : Node → List Char) :
    Proc.Keeps (fun c => I c.node) (ClusterManager.readOnNode name output) := by
  intro c keeps
  rw [exec_readOnNode_eq]
  cases c.outage 0 <;> exact keeps

theorem getNodeIp_keeps (name : String) : Proc.Keeps (fun c => I c.node) (ClusterManager.getNodeIp name) := by
  intro c keeps
  rw [exec_getNodeIp_eq]
  cases c.outage 0 with
  | some exc => exact keeps
  | none => cases c.ip name <;> exact keeps

/-- The lookups change no node. -/
theorem destDelays_keeps : Proc.Keeps (fun c => I c.node) (destDelays config dcMap node) := by
  apply Proc.Keeps.foldlM
  intro dest other
  refine Proc.Keeps.ite (.pure dest) (Proc.Keeps.ite ?_ (.pure dest))
  exact Proc.Keeps.bind (getNodeIp_keeps other) fun ip => .pure _

theorem matching_keeps (bands : Dict (List Char) BandInfo) (targetIps : List String) :
    Proc.Keeps (fun c => I c.node) (do
      if bands.items.isEmpty then return Dict.empty
      let some filterOut ← Proc.orNone (ClusterManager.readOnNode node fun n => Tc.showFilter n.iface)
        | return Dict.empty
      return matchBands bands (parseFilterIpToBand filterOut) targetIps : ClusterM (Dict String BandInfo)) := by
  refine Proc.Keeps.ite (.pure _) ?_
  refine Proc.Keeps.bind (.orNone (readOnNode_keeps node _)) fun filters => ?_
  cases filters <;> exact .pure _

/-- Discovery changes no node, even if it raises. -/
theorem discover_keeps (targetIps : List String) :
    Proc.Keeps (fun c => I c.node) (discoverBandsForIps node targetIps) := by
  unfold discoverBandsForIps
  refine Proc.Keeps.bind (.orNone (readOnNode_keeps node _)) fun qdiscs => ?_
  cases qdiscs with
  | none => exact .pure _
  | some qdiscs =>
    dsimp only
    cases parseNetemBands qdiscs with
    | error exc => exact Proc.Keeps.bind (.throw exc) fun bands => matching_keeps bands targetIps
    | ok bands => exact Proc.Keeps.bind (.pure bands) fun bands => matching_keeps bands targetIps

/-- A command changes no other node. -/
theorem execOnNode_elsewhere {start : String → Tc.Iface} (command : NodeCommand) :
    Proc.Keeps (fun c => ∀ d, d ≠ node → ifaces c d = start d) (ClusterManager.execOnNode node command) := by
  intro c same
  rw [exec_execOnNode_eq]
  cases c.outage 0 with
  | some exc => exact same
  | none =>
    cases (c.node node).run command with
    | none => exact same
    | some n =>
      intro d other
      unfold ifaces setNode
      dsimp only
      rw [if_neg other]
      exact same d other

/-- The bands are attached without raising. -/
theorem attachBands_elsewhere {start : String → Tc.Iface} (bands : List Band) (ipToBand : Dict String BandInfo) :
    Proc.Triple (fun c => ∀ d, d ≠ node → ifaces c d = start d) (attachBands node bands ipToBand)
      (fun _ c => ∀ d, d ≠ node → ifaces c d = start d) (fun _ _ => False) := by
  induction bands generalizing ipToBand with
  | nil => exact Proc.Triple.pure fun _ same => same
  | cons b bands ih =>
    unfold attachBands
    refine Proc.Triple.bind (Q := fun _ c => ∀ d, d ≠ node → ifaces c d = start d)
      (Proc.Triple.attempt (execOnNode_elsewhere _)) fun failed => ?_
    refine Proc.Triple.ite (fun _ => ih _) fun _ => ?_
    refine Proc.Triple.bind (Q := fun _ c => ∀ d, d ≠ node → ifaces c d = start d) ?_ fun _ => ih _
    exact Proc.Triple.forEach (I := fun _ c => ∀ d, d ≠ node → ifaces c d = start d) _ fun ip _ =>
      Proc.Triple.swallow (execOnNode_elsewhere _)

/-- A command that fails changes nothing on the node. -/
theorem execOnNode_refused {c c' : Cluster} {command : NodeCommand} {e : PyExc}
    (refused : (ClusterManager.execOnNode node command).exec c = (.error e, c')) : c' = c.after 1 := by
  rw [exec_execOnNode_eq] at refused
  cases outage : c.outage 0 with
  | some exc =>
    rw [outage] at refused
    exact (Prod.mk.inj refused).2.symm
  | none =>
    rw [outage] at refused
    cases ran : (c.node node).run command <;> rw [ran] at refused <;> cases refused
    rfl

/-- `_apply_node` changes no other node, and nothing if it raises. -/
theorem exec_applyNode_frame (dest : Dict String Int) (m : NetworkLatencyManager) (w : World Cluster) :
    (∃ nodeBands env, (applyNode node dest).exec (m, w) = (.ok (), { m with nodeBands }, { w with env }) ∧
      ∀ d, d ≠ node → ifaces env d = ifaces w.env d) ∨
    ∃ e env, (applyNode node dest).exec (m, w) = (.error e, m, { w with env }) ∧ env.node = w.env.node := by
  rcases ran : (ClusterManager.execOnNode node (.tc (.addPrio ((delayToIps dest).items.length + 1)))).exec w.env with
    ⟨e | _, env⟩
  · obtain rfl := execOnNode_refused ran
    have discovery : Proc.Keeps (fun c => c.node = w.env.node) (discoverBandsForIps node dest.keys) :=
      discover_keeps (I := (· = w.env.node)) dest.keys
    have same := discovery.final (s := w.env.after 1) rfl
    rcases found : (discoverBandsForIps node dest.keys).exec (w.env.after 1) with ⟨exc | existing, env⟩
    · rw [found] at same
      refine Or.inr ⟨exc, env, ?_, same⟩
      rw [applyNode, Proc.exec_bind, exec_onCluster, Proc.exec_attempt_error ran]
      dsimp only
      rw [if_pos (by rfl), Proc.exec_bind, exec_onCluster, found]
    · rw [found] at same
      dsimp only at same
      have frame : ∀ d, d ≠ node → ifaces env d = ifaces w.env d := by
        intro d _
        rw [ifaces, same]
        rfl
      have rest : (applyNode node dest).exec (m, w) = (do
          if ! existing.items.isEmpty then
            assign fun m => { m with nodeBands := m.nodeBands.set node existing } : ActionM _ Unit).exec
              (m, { w with env }) := by
        rw [applyNode, Proc.exec_bind, exec_onCluster, Proc.exec_attempt_error ran]
        dsimp only
        rw [if_pos (by rfl), Proc.exec_bind, exec_onCluster, found]
      rw [rest]
      split
      · exact Or.inl ⟨_, env, rfl, frame⟩
      · exact Or.inl ⟨m.nodeBands, env, rfl, frame⟩
  · have command : Proc.Keeps (fun c => ∀ d, d ≠ node → ifaces c d = ifaces w.env d)
        (ClusterManager.execOnNode node (.tc (.addPrio ((delayToIps dest).items.length + 1)))) := execOnNode_elsewhere _
    have others := command w.env fun _ _ => rfl
    rw [ran] at others
    have attached := attachBands_elsewhere ((delayToIps dest).items.zipIdx 2) Dict.empty env others
    rcases loop : (attachBands node ((delayToIps dest).items.zipIdx 2) Dict.empty).exec env with ⟨exc | stored, env'⟩
    · rw [loop] at attached
      exact absurd attached id
    · rw [loop] at attached
      refine Or.inl ⟨m.nodeBands.set node stored, env', ?_, attached⟩
      rw [applyNode, Proc.exec_bind, exec_onCluster, Proc.exec_attempt_ok ran]
      dsimp only
      rw [if_neg (by decide), Proc.exec_bind, exec_onCluster]
      dsimp only
      rw [loop]
      rfl

/-- Every node that was without a root qdisc and has one is to be cleaned up. -/
def Recorded (start : String → Tc.Iface) (s : NetworkLatencyManager × World Cluster) : Prop :=
  ∀ d, start d = none → ifaces s.2.env d ≠ none → d ∈ s.1.configuredNodes

/-- A node's turn records what it installs, and if it raises it has installed nothing. -/
theorem configureNode_recorded {start : String → Tc.Iface} {s t : NetworkLatencyManager × World Cluster}
    {result : Except PyExc Unit} (recorded : Recorded start s)
    (ran : (configureNode config dcMap node).exec s = (result, t)) :
    (result = .ok () → Recorded start t) ∧ ∀ e, result = .error e → t.2.env.node = s.2.env.node := by
  obtain ⟨m, w⟩ := s
  have lookups : Proc.Keeps (fun c => c.node = w.env.node) (destDelays config dcMap node) :=
    destDelays_keeps (I := (· = w.env.node))
  have same := lookups.final (s := w.env) rfl
  unfold configureNode at ran
  rw [Proc.exec_bind, exec_onCluster] at ran
  rcases looked : (destDelays config dcMap node).exec w.env with ⟨exc | dest, env⟩
  · rw [looked] at ran same
    cases ran
    exact ⟨nofun, fun _ _ => same⟩
  · rw [looked] at ran same
    dsimp only at ran same
    have unchanged : ∀ d, ifaces env d = ifaces w.env d := by
      intro d
      rw [ifaces, same]
      rfl
    by_cases nothing : dest.items.isEmpty = true
    · rw [if_pos nothing] at ran
      cases ran
      exact ⟨fun _ d clean installed => recorded d clean (by rw [← unchanged]; exact installed), nofun⟩
    · rw [if_neg nothing] at ran
      rcases @exec_applyNode_frame node dest m { w with env } with ⟨nodeBands, env', applied, others⟩ | ⟨e, env', raised, kept⟩
      · rw [Proc.exec_bind_ok applied] at ran
        cases ran
        refine ⟨fun _ d clean installed => ?_, nofun⟩
        by_cases here : d = node
        · exact List.mem_insert_iff.mpr (Or.inl here)
        · have before := (others d here).trans (unchanged d)
          exact List.mem_insert_of_mem (recorded d clean (by rw [← before]; exact installed))
      · rw [Proc.exec_bind_error raised] at ran
        cases ran
        exact ⟨nofun, fun _ _ => kept.trans same⟩

end Frame

/-! ## The whole of `run` -/

section Remove

variable {m : NetworkLatencyManager} {w : World Cluster}

/-- While docker works, a node has no root qdisc after its turn. -/
theorem exec_removeNode (works : w.env.Works) (node : String) :
    (removeNode node).exec (m, w) = (.ok (), m, { w with env := w.env.setIface node none }) := by
  rw [removeNode, exec_onCluster, Proc.exec_swallow]
  cases iface : (w.env.node node).iface with
  | none =>
    have fails : Tc.run .delRoot (w.env.node node).iface = none := by
      rw [iface]
      rfl
    rw [exec_tc_fails works fails, setIface_self iface]
  | some root =>
    have removed : Tc.run .delRoot (w.env.node node).iface = some none := by
      rw [iface]
      rfl
    rw [exec_tc works removed]

theorem exec_removeNodes (works : w.env.Works) (nodes : List String) :
    ∃ env, (Proc.forEach nodes removeNode).exec (m, w) = (.ok (), m, { w with env }) ∧
      ∀ d, ifaces env d = if d ∈ nodes then none else ifaces w.env d := by
  induction nodes generalizing w with
  | nil => exact ⟨w.env, rfl, fun d => (if_neg List.not_mem_nil).symm⟩
  | cons node nodes ih =>
    obtain ⟨env, ran, removed⟩ := ih (w := { w with env := w.env.setIface node none }) works
    refine ⟨env, ?_, fun d => ?_⟩
    · rw [Proc.forEach_cons, Proc.exec_bind_ok (exec_removeNode works node)]
      exact ran
    · rw [removed]
      unfold ifaces
      rw [iface_setIface]
      by_cases here : d = node
      · simp [here]
      · simp [here]

/-- While docker works, the configured nodes are without a root qdisc afterwards. -/
theorem exec_remove (works : w.env.Works) :
    ∃ m' env, (remove false).exec (m, w) = (.ok (), m', { w with env }) ∧
      ∀ d, ifaces env d = if d ∈ m.configuredNodes then none else ifaces w.env d := by
  by_cases empty : m.configuredNodes.isEmpty = true
  · refine ⟨m, w.env, ?_, fun d => ?_⟩
    · rw [remove, Proc.exec_bind_ok (exec_this (m, w)), if_pos (by rw [empty]; rfl)]
      rfl
    · rw [List.isEmpty_iff.mp empty, if_neg List.not_mem_nil]
  · obtain ⟨env, ran, removed⟩ := exec_removeNodes (m := m) works m.configuredNodes
    refine ⟨{ m with configuredNodes := [], nodeBands := Dict.empty }, env, ?_, removed⟩
    have configured : ¬ (m.configuredNodes.isEmpty && ! false) = true := by
      rw [Bool.not_false, Bool.and_true]
      exact empty
    rw [remove, Proc.exec_bind_ok (exec_this (m, w)), if_neg configured]
    exact (Proc.exec_bind_ok ran).trans rfl

end Remove

section Run

variable {α : Type} {config : TestConfig} {dcMap : DcMap} {logDirs : Option PyExc}
  {runPhases : Proc (World Cluster) PyExc α} {w : World Cluster}

/-- The loop of `apply` over some nodes. -/
def configureNodes (config : TestConfig) (dcMap : DcMap) (nodes : List String) : ActionM NetworkLatencyManager Unit :=
  Proc.forEach nodes (configureNode config dcMap)

theorem exec_apply (config : TestConfig) (dcMap : DcMap) (w : World Cluster) : (apply dcMap).exec (init config, w) =
    if config.crossDcDelays.items.isEmpty ∧ config.dbZkDelayMs ≤ 0 then (.ok (), init config, w)
    else (configureNodes config dcMap config.allNodes).exec (init config, w) := by
  have body : (apply dcMap).exec (init config, w) = Proc.exec (
      if config.crossDcDelays.items.isEmpty ∧ config.dbZkDelayMs ≤ 0 then pure ()
      else configureNodes config dcMap config.allNodes) (init config, w) := rfl
  rw [body]
  split <;> rfl

/-- Without configured delays no node has a turn that raises. -/
theorem configureNode_idle (idle : config.crossDcDelays.items.isEmpty ∧ config.dbZkDelayMs ≤ 0) (node : String)
    (s : NetworkLatencyManager × World Cluster) : (configureNode config dcMap node).exec s = (.ok (), s) := by
  have none_between : ∀ other, ¬ delayBetween config dcMap node other > 0 := by
    intro other
    have table : delays config = Dict.empty := by
      rw [delays, List.isEmpty_iff.mp idle.1]
      rfl
    have still : ¬ config.dbZkDelayMs > 0 := by omega
    unfold delayBetween
    rw [table, if_neg still]
    split
    · split <;> simp [Dict.getD]
    · simp
  have lookups : ∀ (nodes : List String) (dest : Dict String Int) (c : Cluster), Proc.exec (nodes.foldlM (fun dest other => do
      if other = node then return dest
      let delay := delayBetween config dcMap node other
      if delay > 0 then
        let ip ← ClusterManager.getNodeIp other
        return dest.set ip delay
      else return dest) dest : ClusterM (Dict String Int)) c = (.ok dest, c) := by
    intro nodes dest c
    induction nodes with
    | nil => rfl
    | cons other nodes ih =>
      rw [List.foldlM_cons]
      refine (Proc.exec_bind_ok ?_).trans ih
      split
      · rfl
      · rw [if_neg (none_between other)]
        rfl
  rw [configureNode, Proc.exec_bind, exec_onCluster, destDelays, lookups]
  rfl

theorem configureNodes_recorded {start : String → Tc.Iface} (nodes : List String)
    {s t : NetworkLatencyManager × World Cluster} (recorded : Recorded start s)
    (ran : (configureNodes config dcMap nodes).exec s = (.ok (), t)) : Recorded start t := by
  induction nodes generalizing s with
  | nil =>
    cases ran
    exact recorded
  | cons node nodes ih =>
    rw [configureNodes, Proc.forEach_cons] at ran
    rcases turn : (configureNode config dcMap node).exec s with ⟨exc | _, u⟩
    · rw [Proc.exec_bind_error turn] at ran
      cases ran
    · rw [Proc.exec_bind_ok turn] at ran
      exact ih ((configureNode_recorded recorded turn).1 rfl) ran

/-- No node's turn of `apply` raises once a node that was clean has got a root qdisc. -/
def RaisesEarly (config : TestConfig) (dcMap : DcMap) (w : World Cluster) : Prop :=
  ∀ done node rest s t e, config.allNodes = done ++ node :: rest →
    (configureNodes config dcMap done).exec (init config, w) = (.ok (), s) →
    (configureNode config dcMap node).exec s = (.error e, t) →
    ∀ d, ifaces w.env d = none → ifaces s.2.env d = none

/-- Whichever docker calls of `apply` fail and however the phases end: no node is left with a root
qdisc of this run if and only if the log directories cannot be made or `apply` does not raise after
it has installed one. -/
theorem run_leaves_no_root_iff
    (frame : ∀ w d, ifaces (runPhases.exec w).2.env d = ifaces w.env d)
    (works : ∀ s, (apply dcMap).exec (init config, w) = (.ok (), s) → (runPhases.exec s.2).2.env.Works) :
    (∀ d, ifaces w.env d = none → ifaces ((TestRunner.run config dcMap logDirs runPhases).exec w).2.env d = none) ↔
      logDirs.isSome ∨ RaisesEarly config dcMap w := by
  cases logDirs with
  | some exc => exact iff_of_true (fun d clean => clean) (Or.inl rfl)
  | none =>
    have never : ¬ (none : Option PyExc).isSome = true := nofun
    rw [or_iff_right never]
    have start : Recorded (ifaces w.env) (init config, w) := fun d clean installed => absurd clean installed
    have run : ((TestRunner.run config dcMap none runPhases).exec w).2 = (Proc.exec (do
        apply dcMap
        Proc.tryFinally (Proc.focus Prod.snd (fun s w => (s.1, w)) runPhases) (remove false)) (init config, w)).2.2 := rfl
    have loop := exec_apply config dcMap w
    rcases applied : (apply dcMap).exec (init config, w) with ⟨e | _, t⟩
    · rw [run, Proc.exec_bind_error applied]
      by_cases idle : config.crossDcDelays.items.isEmpty ∧ config.dbZkDelayMs ≤ 0
      · rw [if_pos idle, applied] at loop
        cases loop
      · rw [if_neg idle, applied] at loop
        -- the loop raises at one place only, and leaves the interfaces as they were before that turn
        have left : ∀ done node rest s t' e', config.allNodes = done ++ node :: rest →
            (configureNodes config dcMap done).exec (init config, w) = (.ok (), s) →
            (configureNode config dcMap node).exec s = (.error e', t') → ifaces t.2.env = ifaces s.2.env := by
          intro done node rest s t' e' split ran raised
          have whole := Proc.exec_forEach_error_iff.mpr ⟨done, node, rest, s, split, ran, raised⟩
          obtain ⟨-, rfl⟩ := Prod.mk.inj (loop.trans whole)
          have same := (configureNode_recorded (configureNodes_recorded done start ran) raised).2 e' rfl
          funext d
          rw [ifaces, same]
          rfl
        obtain ⟨done, node, rest, s, split, ran, raised⟩ := Proc.exec_forEach_error_iff.mp loop.symm
        constructor
        · intro clean done' node' rest' s' t' e' split' ran' raised' d hd
          rw [← left done' node' rest' s' t' e' split' ran' raised']
          exact clean d hd
        · intro early d hd
          have same := left done node rest s t e split ran raised
          show ifaces t.2.env d = none
          rw [same]
          exact early done node rest s t e split ran raised d hd
    · have recorded : Recorded (ifaces w.env) t := by
        rw [applied] at loop
        by_cases idle : config.crossDcDelays.items.isEmpty ∧ config.dbZkDelayMs ≤ 0
        · rw [if_pos idle] at loop
          cases loop
          exact start
        · rw [if_neg idle] at loop
          exact configureNodes_recorded config.allNodes start loop.symm
      obtain ⟨m', env, removed, cleaned⟩ := exec_remove (m := t.1) (works t applied)
      refine iff_of_true (fun d clean => ?_) ?_
      · have ended := Proc.exec_tryFinally (m := Proc.focus Prod.snd (fun s w => (s.1, w)) runPhases) (s := t) removed
        rw [run, Proc.exec_bind_ok applied, ended]
        show ifaces env d = none
        rw [cleaned]
        split
        · rfl
        · rename_i other
          rw [frame]
          by_contra installed
          exact other (recorded d clean installed)
      · intro done node rest s' t' e split ran raised
        exfalso
        by_cases idle : config.crossDcDelays.items.isEmpty ∧ config.dbZkDelayMs ≤ 0
        · rw [configureNode_idle idle] at raised
          cases raised
        · rw [applied, if_neg idle] at loop
          have whole := Proc.exec_forEach_error_iff.mpr ⟨done, node, rest, s', split, ran, raised⟩
          cases loop.trans whole

end Run

/-! ## A lookup that fails -/

section Examples

/-- Two nodes in two data centres. -/
def twoDcs : TestConfig where
  dbNodes := ["pg0", "pg1"]
  crossDcDelays := Dict.ofPairs [(("dc0", "dc1"), 10)]

def twoDcMap : DcMap := Dict.ofPairs [("dc0", ["pg0"]), ("dc1", ["pg1"])]

/-- Clean nodes of which some have an address. -/
def known (names : List String) : World Cluster where
  draws _ := 0
  env :=
    { node _ := { tables := ⟨fun _ => [], Dict.empty⟩, iface := none, files := fun _ => none }
      ip name := if name ∈ names then some ("10.0.0." ++ name) else none
      outage _ := none }

/-- The phases time out, and docker works from then on. -/
def timedOut : Proc (World Cluster) PyExc Unit := do
  modify fun w => { w with env := { w.env with outage := fun _ => none } }
  throw .timeoutError

/-- Where every address is known, the latency is taken away after phases that raise. -/
theorem timedOut_leaves_no_root : ifaces (known ["pg0", "pg1"]).env "pg0" = none ∧
    ∀ d, ifaces (known ["pg0", "pg1"]).env d = none →
      ifaces ((TestRunner.run twoDcs twoDcMap none timedOut).exec (known ["pg0", "pg1"])).2.env d = none := by
  refine ⟨rfl, (run_leaves_no_root_iff (fun _ _ => rfl) fun _ _ _ => rfl).mpr (Or.inr ?_)⟩
  intro done node rest s t e split ran raised
  have returns : ((configureNodes twoDcs twoDcMap twoDcs.allNodes).exec
      (init twoDcs, known ["pg0", "pg1"])).1.toOption = some () := by decide
  have whole := Proc.exec_forEach_error_iff.mpr ⟨done, node, rest, s, split, ran, raised⟩
  rw [configureNodes, whole] at returns
  cases returns

/-- Where the second node does not find the address of the first, the first keeps its root qdisc. -/
theorem unknown_leaves_root : ifaces (known ["pg1"]).env "pg0" = none ∧
    ifaces ((TestRunner.run twoDcs twoDcMap none timedOut).exec (known ["pg1"])).2.env "pg0" ≠ none := by
  refine ⟨rfl, fun removed => ?_⟩
  have left : (ifaces ((TestRunner.run twoDcs twoDcMap none timedOut).exec (known ["pg1"])).2.env "pg0").isSome = true := by
    decide
  rw [removed] at left
  cases left

end Examples

end NetworkLatencyManager

end FaultStorm
