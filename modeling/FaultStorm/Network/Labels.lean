import FaultStorm.Network.InForce

/-!
# Data centres from labels

`build_dc_map` groups the nodes by a label of their containers. With such a map, `apply` delays the
packets between two nodes as the configuration says for their labels.
-/

namespace FaultStorm

open Python Cluster

namespace ClusterManager

/-- `get_container_label`; `inspect` is what `docker inspect` prints for a container and a label, if it
can be inspected. -/
def getContainerLabel (inspect : String → String → Option (List Char)) (name label : String) : ClusterM String := do
  let c ← get
  set c.called
  match c.outage 0 with
  | some .calledProcessError => throw .runtimeError
  | some exc => throw exc
  | none => match inspect name label with
    | some output => return String.ofList (Text.strip output)
    | none => throw .runtimeError

/-- The body of the loop of `build_dc_map`. -/
def addNode (inspect : String → String → Option (List Char)) (label : String) (dcMap : DcMap) (node : String) :
    ClusterM DcMap := do
  let some dc ← Proc.catching (· = .runtimeError) (getContainerLabel inspect node label) | return dcMap
  if dc ≠ "" then return dcMap.append dc node
  return dcMap

/-- `build_dc_map`. -/
def buildDcMap (inspect : String → String → Option (List Char)) (nodes : List String) (label : String) :
    ClusterM DcMap :=
  nodes.foldlM (addNode inspect label) Dict.empty

end ClusterManager

/-! ## The groups -/

section Groups

variable {inspect : String → String → Option (List Char)} {label : String} {c : Cluster}

/-- What ends a docker call and is not caught as a RuntimeError. -/
def fatal : Option PyExc → Option PyExc
  | some .calledProcessError => none
  | some .runtimeError => none
  | outage => outage

/-- The label that is read of a node, if there is one. -/
def labelOf (inspect : String → String → Option (List Char)) (label node : String) : Option String :=
  match inspect node label with
  | some output => if String.ofList (Text.strip output) ≠ "" then some (String.ofList (Text.strip output)) else none
  | none => none

/-- The nodes whose labels are read, with their labels. -/
def labelled (inspect : String → String → Option (List Char)) (label : String) :
    (Nat → Option PyExc) → List String → List (String × String)
  | _, [] => []
  | outage, node :: nodes =>
    (if outage 0 = none then (labelOf inspect label node).toList.map (node, ·) else []) ++
      labelled inspect label (fun k => outage (k + 1)) nodes

theorem exec_addNode (inspect : String → String → Option (List Char)) (label : String) (dcMap : DcMap) (node : String)
    (c : Cluster) : (ClusterManager.addNode inspect label dcMap node).exec c = match fatal (c.outage 0) with
      | some e => (.error e, c.after 1)
      | none => (.ok ((if c.outage 0 = none then (labelOf inspect label node).toList else []).foldl
          (fun dcMap dc => dcMap.append dc node) dcMap), c.after 1) := by
  have read : (ClusterManager.getContainerLabel inspect node label).exec c = match c.outage 0 with
      | some .calledProcessError => (.error .runtimeError, c.after 1)
      | some exc => (.error exc, c.after 1)
      | none => match inspect node label with
        | some output => (.ok (String.ofList (Text.strip output)), c.after 1)
        | none => (.error .runtimeError, c.after 1) := by
    unfold ClusterManager.getContainerLabel
    rw [Proc.exec_bind_ok (Proc.exec_get c), Proc.exec_bind_ok (Proc.exec_set c _)]
    cases c.outage 0 with
    | some exc => cases exc <;> rfl
    | none => cases inspect node label <;> rfl
  unfold ClusterManager.addNode
  cases outage : c.outage 0 with
  | some exc =>
    rw [outage] at read
    rw [if_neg (by simp)]
    cases exc with
    | calledProcessError | runtimeError => rw [Proc.exec_bind_ok (Proc.exec_catching_error read)]; rfl
    | _ => rw [Proc.exec_bind_error (Proc.exec_catching_error read)]; rfl
  | none =>
    rw [outage] at read
    rw [if_pos rfl, labelOf]
    cases inspected : inspect node label with
    | none =>
      rw [inspected] at read
      rw [Proc.exec_bind_ok (Proc.exec_catching_error read)]
      rfl
    | some output =>
      rw [inspected] at read
      rw [Proc.exec_bind_ok (Proc.exec_catching_ok read)]
      dsimp only
      split <;> rfl

/-- Unless a docker call ends in something that is not caught, the map is the groups of the labels
read. -/
theorem exec_addNodes (nodes : List String) (dcMap : DcMap) (caught : ∀ k < nodes.length, fatal (c.outage k) = none) :
    (nodes.foldlM (ClusterManager.addNode inspect label) dcMap).exec c =
      (.ok ((labelled inspect label c.outage nodes).foldl (fun d p => d.append p.2 p.1) dcMap), c.after nodes.length) := by
  induction nodes generalizing c dcMap with
  | nil => rfl
  | cons node nodes ih =>
    have first := exec_addNode inspect label dcMap node c
    rw [caught 0 (by simp)] at first
    rw [List.foldlM_cons, Proc.exec_bind_ok first, ih _ fun k below => caught (k + 1) (by simpa using below),
      Cluster.after_after, Nat.add_comm, labelled, List.foldl_append]
    split
    · rw [List.foldl_map]
      rfl
    · rfl

/-- The first docker call that ends in something that is not caught ends it all. -/
theorem exec_addNodes_fatal (nodes : List String) (dcMap : DcMap) {k : Nat} (inside : k < nodes.length) {e : PyExc}
    (raised : fatal (c.outage k) = some e) (caught : ∀ j < k, fatal (c.outage j) = none) :
    (nodes.foldlM (ClusterManager.addNode inspect label) dcMap).exec c = (.error e, c.after (k + 1)) := by
  induction nodes generalizing c dcMap k with
  | nil => cases inside
  | cons node nodes ih =>
    have first := exec_addNode inspect label dcMap node c
    cases k with
    | zero =>
      rw [raised] at first
      rw [List.foldlM_cons, Proc.exec_bind_error first]
    | succ k =>
      rw [caught 0 (by omega)] at first
      rw [List.foldlM_cons, Proc.exec_bind_ok first]
      refine (ih (c := c.after 1) _ (by simpa using inside) raised fun j below => caught (j + 1) (by omega)).trans ?_
      rw [Cluster.after_after, Nat.add_comm 1]

/-- Whatever docker does: `build_dc_map` raises what the first call raises that it does not catch, and
otherwise returns for each label the nodes that have it, in the order of the list, the labels in the
order in which they are first read. -/
theorem buildDcMap_groups (inspect : String → String → Option (List Char)) (nodes : List String) (label : String)
    (c : Cluster) :
    (∀ e, ((ClusterManager.buildDcMap inspect nodes label).exec c).1 = .error e ↔
      ∃ k < nodes.length, fatal (c.outage k) = some e ∧ ∀ j < k, fatal (c.outage j) = none) ∧
    ∀ dcMap, ((ClusterManager.buildDcMap inspect nodes label).exec c).1 = .ok dcMap →
      (∀ dc, dcMap.getD dc [] = ((labelled inspect label c.outage nodes).filter (·.2 = dc)).map Prod.fst) ∧
        dcMap.keys = ((labelled inspect label c.outage nodes).map Prod.snd).eraseDups := by
  unfold ClusterManager.buildDcMap
  by_cases caught : ∀ k < nodes.length, fatal (c.outage k) = none
  · rw [exec_addNodes nodes Dict.empty caught]
    constructor
    · intro e
      constructor
      · intro raised
        cases raised
      · rintro ⟨k, inside, raised, -⟩
        rw [caught k inside] at raised
        cases raised
    · rintro dcMap ⟨⟩
      exact ⟨Dict.getD_group _, Dict.keys_group _⟩
  · -- the first call that is not caught
    have some_fatal : ∃ k, k < nodes.length ∧ fatal (c.outage k) ≠ none := by
      by_contra none
      exact caught fun k inside => by_contra fun raised => none ⟨k, inside, raised⟩
    let first := Nat.find some_fatal
    obtain ⟨inside, raised⟩ := Nat.find_spec some_fatal
    obtain ⟨e, raised⟩ := Option.ne_none_iff_exists'.mp raised
    have before : ∀ j < first, fatal (c.outage j) = none := by
      intro j below
      by_contra here
      exact Nat.find_min some_fatal below ⟨lt_trans below inside, here⟩
    rw [exec_addNodes_fatal nodes Dict.empty inside raised before]
    constructor
    · intro e'
      constructor
      · rintro ⟨⟩
        exact ⟨first, inside, raised, before⟩
      · rintro ⟨k, -, raised', before'⟩
        have same : k = first := by
          apply le_antisymm
          · by_contra above
            rw [before' first (by omega)] at raised
            cases raised
          · by_contra below
            rw [before k (by omega)] at raised'
            cases raised'
        rw [same, raised] at raised'
        rw [Option.some.inj raised']
    · intro dcMap returned
      cases returned

end Groups

/-! ## The latency between labels -/

namespace NetworkLatencyManager

section Labelled

variable {config : TestConfig} {inspect : String → String → Option (List Char)} {label : String} {w : World Cluster}

/-- The delay asked for the packets from one node to another, by their labels. -/
def labelledDelay (config : TestConfig) (labels : String → Option String) (a b : String) : Int :=
  ((labels a).bind fun dc => (labels b).map fun otherDc => crossDcDelay config dc otherDc).getD 0 +
    if DbAndExtra config a b then config.dbZkDelayMs else 0

/-- The distinct delays asked for the packets from a node, by the labels. -/
def labelledDelays (config : TestConfig) (labels : String → Option String) (a : String) : Finset Int :=
  ((config.allNodes.filter (· ≠ a)).map (labelledDelay config labels a)).toFinset.filter (0 < ·)

theorem mem_labelled (works : ∀ k, w.env.outage k = none) {nodes : List String} {p : String × String} :
    p ∈ labelled inspect label w.env.outage nodes ↔ p.1 ∈ nodes ∧ labelOf inspect label p.1 = some p.2 := by
  have same : (fun k => w.env.outage (k + 1)) = w.env.outage := by
    funext k
    rw [works, works]
  induction nodes with
  | nil => simp [labelled]
  | cons node nodes ih =>
    rw [labelled, if_pos (works 0), same, List.mem_append, List.mem_map, List.mem_cons, or_and_right]
    refine or_congr ?_ ih
    constructor
    · rintro ⟨dc, read, rfl⟩
      exact ⟨rfl, Option.mem_toList.mp read⟩
    · rintro ⟨here, read⟩
      exact ⟨p.2, by rw [← here]; exact Option.mem_toList.mpr read, by rw [← here]⟩

theorem labelOf_ne_empty {node dc : String} (read : labelOf inspect label node = some dc) : dc ≠ "" := by
  unfold labelOf at read
  split at read
  · split at read
    · rename_i named
      exact Option.some.inj read ▸ named
    · cases read
  · cases read

/-- The nodes of an entry of the map have its label. -/
theorem mem_group_labelled (works : ∀ k, w.env.outage k = none) {nodes : List String} {x : String × List String}
    (item : x ∈ (Dict.group (labelled inspect label w.env.outage nodes)).items) {node : String} :
    node ∈ x.2 ↔ node ∈ nodes ∧ labelOf inspect label node = some x.1 := by
  rw [Dict.mem_items_group item, List.mem_map]
  constructor
  · rintro ⟨p, member, rfl⟩
    obtain ⟨among, here⟩ := List.mem_filter.mp member
    rw [← of_decide_eq_true here]
    exact (mem_labelled works).mp among
  · intro found
    exact ⟨(node, x.1), List.mem_filter.mpr ⟨(mem_labelled works).mpr found, decide_eq_true rfl⟩, rfl⟩

theorem exists_group_labelled (works : ∀ k, w.env.outage k = none) {nodes : List String} {node dc : String}
    (inside : node ∈ nodes) (read : labelOf inspect label node = some dc) :
    ∃ x ∈ (Dict.group (labelled inspect label w.env.outage nodes)).items, node ∈ x.2 ∧ x.1 = dc := by
  have pair := (mem_labelled (p := (node, dc)) works).mpr ⟨inside, read⟩
  have key : dc ∈ (Dict.group (labelled inspect label w.env.outage nodes)).keys := by
    rw [Dict.keys_group, List.mem_eraseDups]
    exact List.mem_map_of_mem pair
  obtain ⟨x, item, rfl⟩ := List.mem_map.mp key
  exact ⟨x, item, (mem_group_labelled works item).mpr ⟨inside, read⟩, rfl⟩

/-- No node is in two entries. -/
theorem oneDc_labelled (works : ∀ k, w.env.outage k = none) (nodes : List String) :
    ∀ x ∈ (Dict.group (labelled inspect label w.env.outage nodes)).items,
      ∀ y ∈ (Dict.group (labelled inspect label w.env.outage nodes)).items, ∀ n ∈ x.2, n ∈ y.2 → x = y := by
  intro x hx y hy n here there
  have same := ((mem_group_labelled works hx).mp here).2
  rw [((mem_group_labelled works hy).mp there).2] at same
  have key : x.1 = y.1 := (Option.some.inj same).symm
  exact Prod.ext key (by rw [Dict.mem_items_group hx, Dict.mem_items_group hy, key])

/-- A node is in the DC of its label. -/
theorem dcOf_labelled (works : ∀ k, w.env.outage k = none) {nodes : List String} {node : String} (inside : node ∈ nodes) :
    dcOf (Dict.group (labelled inspect label w.env.outage nodes)) node = labelOf inspect label node := by
  rw [← nodeDc_eq (oneDc_labelled works nodes)]
  apply Option.ext
  intro dc
  rw [get?_nodeDc_eq_some (oneDc_labelled works nodes)]
  constructor
  · rintro ⟨x, item, member, rfl⟩
    exact ((mem_group_labelled works item).mp member).2
  · exact exists_group_labelled works inside

/-- With the map that `build_dc_map` returns for all nodes, `apply` puts the configured latency between
the labels in force, whichever labels there are. -/
theorem labelled_inForce (fresh : Fresh config Dict.empty w.env) (inspect : String → String → Option (List Char))
    (label : String) (few : ∀ a ∈ config.allNodes, (labelledDelays config (labelOf inspect label) a).card ≤ 8) :
    ∃ dcMap, (ClusterManager.buildDcMap inspect config.allNodes label).exec w.env = (.ok dcMap, w.env) ∧
      ∀ a ∈ config.allNodes, ∀ b ∈ config.allNodes, a ≠ b → ∀ addr, w.env.ip b = some addr →
        Tc.delayTo (((apply dcMap).exec (init config, w)).2.2.env.node a).iface addr =
          labelledDelay config (labelOf inspect label) a b := by
  let dcMap : DcMap := Dict.group (labelled inspect label w.env.outage config.allNodes)
  have built : (ClusterManager.buildDcMap inspect config.allNodes label).exec w.env = (.ok dcMap, w.env) := by
    have caught : ∀ k < config.allNodes.length, fatal (w.env.outage k) = none := by
      intro k _
      rw [fresh.works k]
      rfl
    refine (exec_addNodes config.allNodes Dict.empty caught).trans ?_
    rw [fresh.works.after]
    rfl
  have fresh' : Fresh config dcMap w.env := { fresh with oneDc := oneDc_labelled fresh.works config.allNodes }
  have dcs : ∀ n ∈ config.allNodes, dcOf dcMap n = labelOf inspect label n := fun n => dcOf_labelled fresh.works
  have expected : ∀ a ∈ config.allNodes, ∀ b ∈ config.allNodes,
      expectedDelay config dcMap a b = labelledDelay config (labelOf inspect label) a b := by
    intro a ha b hb
    rw [expectedDelay, crossDelay, dcs a ha, dcs b hb, labelledDelay]
    cases labelOf inspect label a <;> cases labelOf inspect label b <;> rfl
  have asked : ∀ a ∈ config.allNodes, ∀ b ∈ config.allNodes, a ≠ b →
      delayBetween config dcMap a b = expectedDelay config dcMap a b := by
    intro a ha b hb _
    have named : ¬ Unnamed dcMap a b := by
      rintro (unnamed | unnamed)
      · rw [dcs a ha] at unnamed
        exact labelOf_ne_empty unnamed rfl
      · rw [dcs b hb] at unnamed
        exact labelOf_ne_empty unnamed rfl
    rw [delayBetween_eq fresh', if_neg named, expectedDelay]
  refine ⟨dcMap, built, fun a ha b hb ne addr known => ?_⟩
  have distinct : distinctDelays config dcMap a = labelledDelays config (labelOf inspect label) a := by
    rw [distinctDelays, labelledDelays]
    congr 2
    exact List.map_congr_left fun b member => expected a ha b (List.mem_of_mem_filter member)
  obtain ⟨dest, asks, delivers⟩ := served_of_apply (m := init config) rfl fresh' ha
  have size : (delayToIps dest).items.length ≤ 8 := by
    rw [asks.length_groups fresh' (asked a ha), distinct]
    exact few a ha
  rw [delivers.few size, asks.getD fresh' hb ne known, asked a ha b hb ne, expected a ha b hb]

/-- The containers of `pg0` and `pg1` have labels; that of `pg2` cannot be inspected. -/
def twoLabels (name _label : String) : Option (List Char) :=
  if name = "pg0" then some "dc0\n".toList else if name = "pg1" then some "dc1\n".toList else none

/-- A node without a label gets no cross-DC delay. -/
theorem twoLabels_inForce : ∃ dcMap,
    (ClusterManager.buildDcMap twoLabels (starConfig 3).allNodes "faultstorm.dc").exec tenNodes = (.ok dcMap, tenNodes) ∧
      ∀ a ∈ (starConfig 3).allNodes, ∀ b ∈ (starConfig 3).allNodes, a ≠ b → ∀ addr, tenNodes.ip b = some addr →
        Tc.delayTo (((apply dcMap).exec (init (starConfig 3), ⟨fun _ => 0, tenNodes⟩)).2.2.env.node a).iface addr =
          labelledDelay (starConfig 3) (labelOf twoLabels "faultstorm.dc") a b := by
  have fresh : Fresh (starConfig 3) Dict.empty tenNodes :=
    ⟨fun _ => rfl, by decide, by decide, fun _ _ => rfl, by decide, by decide, by decide, by decide⟩
  exact labelled_inForce (w := ⟨fun _ => 0, tenNodes⟩) fresh twoLabels "faultstorm.dc" (by decide)

end Labelled

end NetworkLatencyManager

end FaultStorm
