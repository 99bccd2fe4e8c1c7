import FaultStorm.Faults.Partitioners
import FaultStorm.Methods

/-!
# The built-in fault actions

One structure for each class, with its constructor, `execute`, `heal`, `serialize` and
`deserialize`; parameters that are still `none` are the ones `execute` picks. The sum of the
structures is `Builtin`, and `createDefaultRegistry` registers the classes.
-/

namespace FaultStorm

open Python Iptables

/-- `[ClusterManager.get_node_ip(n) for n in nodes]`. -/
def getNodeIps (nodes : List String) : ClusterM (List String) := nodes.mapM ClusterManager.getNodeIp

/-! ## Texts -/

/-- `f"{v}"` of an optional string. -/
def strOrNone (v : Option String) : String := v.getD "None"

/-- `v or ''`. -/
def strOrEmpty (v : Option String) : String := v.getD ""

/-- `",".join(names)`. -/
def csv (names : List String) : String := String.ofList (Text.join ',' (names.map String.toList))

/-- `token.split(",")`. -/
def parseCsv (token : List Char) : List String := (token.splitOn ',').map String.ofList

/-- The parts of a parameter string, separated by spaces. -/
def spaced (parts : List String) : String := String.ofList (Text.join ' ' (parts.map String.toList))

/-- `token.split(",") if len(parts) > i and parts[i] else default`. -/
def csvPart (parts : List (List Char)) (i : Nat) (default : List String) : List String :=
  match parts[i]? with
  | some token => if token = [] then default else parseCsv token
  | none => default

/-- `parts[i] if len(parts) > i else None`. -/
def optionalPart (parts : List (List Char)) (i : Nat) : Option String := parts[i]?.map String.ofList

/-- `parts[i]`, as a string. -/
def stringPart (parts : List (List Char)) (i : Nat) : Except PyExc String := String.ofList <$> part parts i

/-! ## KillProcessAction -/

structure KillProcessAction extends ActionBase where
  process : Option String
  node : Option String
  processes : List String
  deriving DecidableEq

namespace KillProcessAction

/-- `processes or ["postgres", "pgconsul"]`. -/
def poolOf : Option (List String) → List String
  | some (p :: ps) => p :: ps
  | _ => ["postgres", "pgconsul"]

def init (base : ActionBase) (kwargs : Kwargs) : Except PyExc KillProcessAction :=
  kwargs.foldlM (fun a kwarg => match kwarg with
    | .process v => .ok { a with process := v }
    | .node v => .ok { a with node := v }
    | .processes v => .ok { a with processes := poolOf v }
    | _ => .error .typeError) { base with process := none, node := none, processes := poolOf none }

def execute : ActionM KillProcessAction Unit := do
  choose (·.process) (fun a v => { a with process := some v }) (·.processes)
  choose (·.node) (fun a v => { a with node := some v }) (·.dbNodes)
  let a ← this
  onCluster (Proc.swallow (ClusterManager.execOnNode (strOrEmpty a.node) (.pkill (strOrEmpty a.process))))

def serialize (a : KillProcessAction) : String :=
  spaced [toString a.ordinal, strOrNone a.process, strOrNone a.node]

def deserialize (params : String) (dbNodes extraNodes : List String) (dcMap : DcMap) :
    Except PyExc KillProcessAction := do
  let parts := paramParts params
  let ordinal ← pyInt (← part parts 0)
  let process ← stringPart parts 1
  let node ← stringPart parts 2
  return { dbNodes, extraNodes, ordinal, dcMap, process := some process, node := some node,
           processes := poolOf none }

end KillProcessAction

/-! ## PartitionRandomHalvesAction -/

structure PartitionRandomHalvesAction extends ActionBase where
  group1 : Option (List String)
  group2 : Option (List String)
  deriving DecidableEq

namespace PartitionRandomHalvesAction

def init (base : ActionBase) (kwargs : Kwargs) : Except PyExc PartitionRandomHalvesAction :=
  kwargs.foldlM (fun a kwarg => match kwarg with
    | .group1 v => .ok { a with group1 := v }
    | .group2 v => .ok { a with group2 := v }
    | _ => .error .typeError) { base with group1 := none, group2 := none }

/-- The drop rules between the groups. -/
def partition (ordinal : Int) (group1 group2 : List String) : ClusterM Unit := do
  let chainName := Partitioners.getChainName ordinal
  let group2Ips ← getNodeIps group2
  Proc.forEach group1 fun node => do
    Partitioners.createChain node chainName
    Partitioners.addDropRulesBySrc node chainName group2Ips
  let group1Ips ← getNodeIps group1
  Proc.forEach group2 fun node => do
    Partitioners.createChain node chainName
    Partitioners.addDropRulesBySrc node chainName group1Ips

def execute : ActionM PartitionRandomHalvesAction Unit := do
  let a ← this
  if a.group1.isNone || a.group2.isNone then
    let nodes ← pick (Random.shuffle a.allNodes)
    let mid := nodes.length / 2
    assign fun a => { a with group1 := some (nodes.take mid), group2 := some (nodes.drop mid) }
  let a ← this
  onCluster (partition a.ordinal (a.group1.getD []) (a.group2.getD []))

def heal : ActionM PartitionRandomHalvesAction Unit := do
  let a ← this
  onCluster (Partitioners.healPartition a.ordinal a.allNodes)

def serialize (a : PartitionRandomHalvesAction) : String :=
  spaced [toString a.ordinal, csv (a.group1.getD []), csv (a.group2.getD [])]

def deserialize (params : String) (dbNodes extraNodes : List String) (dcMap : DcMap) :
    Except PyExc PartitionRandomHalvesAction := do
  let parts := paramParts params
  let ordinal ← pyInt (← part parts 0)
  let group1 ← parseCsv <$> part parts 1
  let group2 ← parseCsv <$> part parts 2
  return { dbNodes, extraNodes, ordinal, dcMap, group1 := some group1, group2 := some group2 }

end PartitionRandomHalvesAction

/-! ## PartitionMajoritiesRingAction -/

structure PartitionMajoritiesRingAction extends ActionBase where
  ordered : Option (List String)
  deriving DecidableEq

namespace PartitionMajoritiesRingAction

def init (base : ActionBase) (kwargs : Kwargs) : Except PyExc PartitionMajoritiesRingAction :=
  kwargs.foldlM (fun a kwarg => match kwarg with
    | .ordered v => .ok { a with ordered := v }
    | _ => .error .typeError) { base with ordered := none }

/-- The nodes that the `i`-th node of the ring sees. -/
def visible (ordered : List String) (i : Nat) : List String :=
  (List.range (ordered.length / 2 + 1)).map fun j => ordered.getD ((i + j) % ordered.length) ""

/-- The nodes that the `i`-th node of the ring does not see. -/
def blocked (ordered : List String) (i : Nat) : List String :=
  ordered.filter fun node => ! (visible ordered i).contains node

def partition (ordinal : Int) (ordered : List String) : ClusterM Unit :=
  let chainName := Partitioners.getChainName ordinal
  Proc.forEach ordered.zipIdx fun (node, i) => do
    let blockedIps ← getNodeIps (blocked ordered i)
    Partitioners.createChain node chainName
    Partitioners.addDropRulesBySrc node chainName blockedIps

def execute : ActionM PartitionMajoritiesRingAction Unit := do
  let a ← this
  if a.ordered.isNone then
    let ordered ← pick (Random.shuffle a.allNodes)
    assign fun a => { a with ordered := some ordered }
  let a ← this
  onCluster (partition a.ordinal (a.ordered.getD []))

def heal : ActionM PartitionMajoritiesRingAction Unit := do
  let a ← this
  onCluster (Partitioners.healPartition a.ordinal a.allNodes)

def serialize (a : PartitionMajoritiesRingAction) : String :=
  spaced [toString a.ordinal, csv (a.ordered.getD [])]

def deserialize (params : String) (dbNodes extraNodes : List String) (dcMap : DcMap) :
    Except PyExc PartitionMajoritiesRingAction := do
  let parts := paramParts params
  let ordinal ← pyInt (← part parts 0)
  let ordered ← parseCsv <$> part parts 1
  return { dbNodes, extraNodes, ordinal, dcMap, ordered := some ordered }

end PartitionMajoritiesRingAction

/-! ## PartitionRandomNodeAction -/

structure PartitionRandomNodeAction extends ActionBase where
  node : Option String
  deriving DecidableEq

namespace PartitionRandomNodeAction

def init (base : ActionBase) (kwargs : Kwargs) : Except PyExc PartitionRandomNodeAction :=
  kwargs.foldlM (fun a kwarg => match kwarg with
    | .node v => .ok { a with node := v }
    | _ => .error .typeError) { base with node := none }

def partition (ordinal : Int) (allNodes : List String) (node : String) : ClusterM Unit := do
  let others := allNodes.filter (· ≠ node)
  let chainName := Partitioners.getChainName ordinal
  let blockedIps ← getNodeIps others
  Partitioners.createChain node chainName
  Partitioners.addDropRulesBySrc node chainName blockedIps
  let nodeIp ← ClusterManager.getNodeIp node
  Proc.forEach others fun other => do
    Partitioners.createChain other chainName
    Partitioners.addDropRulesBySrc other chainName [nodeIp]

def execute : ActionM PartitionRandomNodeAction Unit := do
  choose (·.node) (fun a v => { a with node := some v }) (·.allNodes)
  let a ← this
  onCluster (partition a.ordinal a.allNodes (strOrEmpty a.node))

def heal : ActionM PartitionRandomNodeAction Unit := do
  let a ← this
  onCluster (Partitioners.healPartition a.ordinal a.allNodes)

def serialize (a : PartitionRandomNodeAction) : String :=
  spaced [toString a.ordinal, strOrEmpty a.node]

def deserialize (params : String) (dbNodes extraNodes : List String) (dcMap : DcMap) :
    Except PyExc PartitionRandomNodeAction := do
  let parts := paramParts params
  let ordinal ← pyInt (← part parts 0)
  return { dbNodes, extraNodes, ordinal, dcMap, node := optionalPart parts 1 }

end PartitionRandomNodeAction

/-! ## PartitionRandomSubnetAction -/

structure PartitionRandomSubnetAction extends ActionBase where
  node : Option String
  direction : Option String
  subnetType : Option String
  blockedNodes : Option (List String)
  deriving DecidableEq

namespace PartitionRandomSubnetAction

/-- `DIRECTIONS`. -/
def directions : List String := ["input", "output", "both"]

/-- `SUBNET_TYPES`. -/
def subnetTypes : List String := ["zk", "db", "all"]

def init (base : ActionBase) (kwargs : Kwargs) : Except PyExc PartitionRandomSubnetAction :=
  kwargs.foldlM (fun a kwarg => match kwarg with
    | .node v => .ok { a with node := v }
    | .direction v => .ok { a with direction := v }
    | .subnetType v => .ok { a with subnetType := v }
    | .blockedNodes v => .ok { a with blockedNodes := v }
    | _ => .error .typeError)
    { base with node := none, direction := none, subnetType := none, blockedNodes := none }

/-- `_resolve_blocked_nodes`. -/
def resolveBlockedNodes (a : PartitionRandomSubnetAction) : List String :=
  let otherNodes := a.dbNodes.filter fun n => some n ≠ a.node
  if a.subnetType = some "zk" then a.extraNodes
  else if a.subnetType = some "db" then otherNodes
  else a.extraNodes ++ otherNodes

/-- `_get_iptables_directions`. -/
def getIptablesDirections (a : PartitionRandomSubnetAction) : List Hook :=
  if a.direction = some "input" then [.input]
  else if a.direction = some "output" then [.output]
  else [.input, .output]

def partition (ordinal : Int) (node : String) (directions : List Hook) (blockedNodes : List String) :
    ClusterM Unit := do
  let blockedIps ← getNodeIps blockedNodes
  Proc.forEach directions fun direction => do
    let chainName := Partitioners.getDirectionalChainName ordinal direction
    Partitioners.createChainForDirection node chainName direction
    match direction with
    | .input => Partitioners.addDropRulesBySrc node chainName blockedIps
    | .output => Partitioners.addDropRulesByDest node chainName blockedIps

def execute : ActionM PartitionRandomSubnetAction Unit := do
  choose (·.node) (fun a v => { a with node := some v }) (·.dbNodes)
  choose (·.direction) (fun a v => { a with direction := some v }) fun _ => directions
  choose (·.subnetType) (fun a v => { a with subnetType := some v }) fun _ => subnetTypes
  if (← this).blockedNodes.isNone then
    assign fun a => { a with blockedNodes := some a.resolveBlockedNodes }
  let a ← this
  onCluster (partition a.ordinal (strOrEmpty a.node) a.getIptablesDirections (a.blockedNodes.getD []))

def heal : ActionM PartitionRandomSubnetAction Unit := do
  let a ← this
  match a.node with
  | none => throw .assertionError
  | some node => onCluster (Partitioners.healDirectionalPartition a.ordinal node a.getIptablesDirections)

def serialize (a : PartitionRandomSubnetAction) : String :=
  spaced [toString a.ordinal, strOrNone a.node, strOrNone a.direction, strOrNone a.subnetType,
    csv (a.blockedNodes.getD [])]

def deserialize (params : String) (dbNodes extraNodes : List String) (dcMap : DcMap) :
    Except PyExc PartitionRandomSubnetAction := do
  let parts := paramParts params
  let ordinal ← pyInt (← part parts 0)
  let node ← stringPart parts 1
  let direction ← stringPart parts 2
  let subnetType ← stringPart parts 3
  return { dbNodes, extraNodes, ordinal, dcMap, node := some node, direction := some direction,
           subnetType := some subnetType, blockedNodes := some (csvPart parts 4 []) }

end PartitionRandomSubnetAction

/-! ## PartitionRandomDcAction -/

structure PartitionRandomDcAction extends ActionBase where
  dcName : Option String
  deriving DecidableEq

namespace PartitionRandomDcAction

def init (base : ActionBase) (kwargs : Kwargs) : Except PyExc PartitionRandomDcAction :=
  kwargs.foldlM (fun a kwarg => match kwarg with
    | .dcName v => .ok { a with dcName := v }
    | _ => .error .typeError) { base with dcName := none }

def partition (ordinal : Int) (allNodes dcNodes : List String) : ClusterM Unit := do
  let others := allNodes.filter fun n => ! dcNodes.contains n
  let chainName := Partitioners.getChainName ordinal
  let othersIps ← getNodeIps others
  Proc.forEach dcNodes fun node => do
    Partitioners.createChain node chainName
    Partitioners.addDropRulesBySrc node chainName othersIps
  let dcIps ← getNodeIps dcNodes
  Proc.forEach others fun node => do
    Partitioners.createChain node chainName
    Partitioners.addDropRulesBySrc node chainName dcIps

def execute : ActionM PartitionRandomDcAction Unit := do
  let a ← this
  if a.dcMap.items.isEmpty then return
  choose (·.dcName) (fun a v => { a with dcName := some v }) (·.dcMap.keys)
  let a ← this
  let dcNodes := a.dcMap.getD (strOrEmpty a.dcName) []
  if dcNodes.isEmpty then return
  onCluster (partition a.ordinal a.allNodes dcNodes)

def heal : ActionM PartitionRandomDcAction Unit := do
  let a ← this
  onCluster (Partitioners.healPartition a.ordinal a.allNodes)

def serialize (a : PartitionRandomDcAction) : String :=
  spaced [toString a.ordinal, strOrNone a.dcName]

def deserialize (params : String) (dbNodes extraNodes : List String) (dcMap : DcMap) :
    Except PyExc PartitionRandomDcAction := do
  let parts := paramParts params
  let ordinal ← pyInt (← part parts 0)
  return { dbNodes, extraNodes, ordinal, dcMap, dcName := optionalPart parts 1 }

end PartitionRandomDcAction

/-! ## BaseFreezeAction -/

structure BaseFreezeAction extends ActionBase where
  processes : List String
  freezeDurationRange : Int × Int
  freezePauseRange : Int × Int
  deriving DecidableEq

namespace BaseFreezeAction

/-- `FLAG_FILE`. -/
def flagFile : String := "/tmp/.process_freezer.flag"

/-- `DEFAULT_FREEZE_RANGE`. -/
def defaultFreezeRange : Int × Int := (100, 3000)

/-- `DEFAULT_PAUSE_RANGE`. -/
def defaultPauseRange : Int × Int := (100, 3000)

/-- `processes or ["postgres"]`. -/
def processesOr : Option (List String) → List String
  | some (p :: ps) => p :: ps
  | _ => ["postgres"]

def init (base : ActionBase) : BaseFreezeAction :=
  { base with processes := processesOr none, freezeDurationRange := defaultFreezeRange,
              freezePauseRange := defaultPauseRange }

/-- The keyword arguments that every freeze action takes. -/
def setKwarg (a : BaseFreezeAction) : Kwarg → Except PyExc BaseFreezeAction
  | .processes v => .ok { a with processes := processesOr v }
  | .freezeDurationRange v => .ok { a with freezeDurationRange := v.getD defaultFreezeRange }
  | .freezePauseRange v => .ok { a with freezePauseRange := v.getD defaultPauseRange }
  | _ => .error .typeError

/-- `_build_flag_content`. -/
def buildFlagContent (a : BaseFreezeAction) : List Char :=
  Text.join '\n' <|
    ["[config]".toList,
     "freeze_min_ms=".toList ++ (toString a.freezeDurationRange.1).toList,
     "freeze_max_ms=".toList ++ (toString a.freezeDurationRange.2).toList,
     "pause_min_ms=".toList ++ (toString a.freezePauseRange.1).toList,
     "pause_max_ms=".toList ++ (toString a.freezePauseRange.2).toList,
     "[patterns]".toList] ++ a.processes.map String.toList

/-- `_write_flag_to_nodes`. -/
def writeFlagToNodes (a : BaseFreezeAction) (targets : List String) : ClusterM Unit :=
  Proc.forEach targets fun node => Proc.swallow <|
    ClusterManager.execOnNode node
      (.heredoc flagFile "FREEZER_EOF".toList (a.buildFlagContent.splitOn '\n'))

/-- `_remove_flag_from_nodes`. -/
def removeFlagFromNodes (targets : List String) : ClusterM Unit :=
  Proc.forEach targets fun node => Proc.swallow <| ClusterManager.execOnNode node (.rm flagFile)

/-- `_serialize_range`. -/
def serializeRange (range : Int × Int) : String := toString range.1 ++ "-" ++ toString range.2

/-- `_deserialize_range`. -/
def deserializeRange (token : List Char) : Except PyExc (Int × Int) :=
  match token.splitOn '-' with
  | [lo, hi] => do return (← pyInt lo, ← pyInt hi)
  | _ => .error .valueError

/-- A range that may be missing from the parts. -/
def rangePart (parts : List (List Char)) (i : Nat) : Except PyExc (Option (Int × Int)) :=
  match parts[i]? with
  | some token => some <$> deserializeRange token
  | none => .ok none

/-- The parts of the parameter string that every freeze action has. -/
def deserialize (parts : List (List Char)) (dbNodes extraNodes : List String) (dcMap : DcMap) :
    Except PyExc BaseFreezeAction := do
  let ordinal ← pyInt (← part parts 0)
  let processes := csvPart parts 2 ["postgres"]
  let freezeDurationRange ← rangePart parts 3
  let freezePauseRange ← rangePart parts 4
  return { dbNodes, extraNodes, ordinal, dcMap, processes := processesOr (some processes),
           freezeDurationRange := freezeDurationRange.getD defaultFreezeRange,
           freezePauseRange := freezePauseRange.getD defaultPauseRange }

/-- The parameter string, with what the action targets as its second part. -/
def serialize (a : BaseFreezeAction) (target : Option String) : String :=
  spaced [toString a.ordinal, strOrEmpty target, csv a.processes, serializeRange a.freezeDurationRange,
    serializeRange a.freezePauseRange]

end BaseFreezeAction

/-! ## FreezeProcessesAction -/

structure FreezeProcessesAction extends BaseFreezeAction where
  node : Option String
  deriving DecidableEq

namespace FreezeProcessesAction

def init (base : ActionBase) (kwargs : Kwargs) : Except PyExc FreezeProcessesAction :=
  kwargs.foldlM (fun a kwarg => match kwarg with
    | .node v => .ok { a with node := v }
    | kwarg => (fun b => { a with toBaseFreezeAction := b }) <$> a.toBaseFreezeAction.setKwarg kwarg)
    { BaseFreezeAction.init base with node := none }

/-- `_resolve_targets`. -/
def resolveTargets : ActionM FreezeProcessesAction (List String) := do
  choose (·.node) (fun a v => { a with node := some v }) (·.dbNodes)
  return [strOrEmpty (← this).node]

def execute : ActionM FreezeProcessesAction Unit := do
  let targets ← resolveTargets
  let a ← this
  onCluster (a.writeFlagToNodes targets)

def heal : ActionM FreezeProcessesAction Unit := do
  match (← this).node with
  | none => throw .assertionError
  | some node => onCluster (BaseFreezeAction.removeFlagFromNodes [node])

def serialize (a : FreezeProcessesAction) : String := a.toBaseFreezeAction.serialize a.node

def deserialize (params : String) (dbNodes extraNodes : List String) (dcMap : DcMap) :
    Except PyExc FreezeProcessesAction := do
  let parts := paramParts params
  let base ← BaseFreezeAction.deserialize parts dbNodes extraNodes dcMap
  return { base with node := optionalPart parts 1 }

end FreezeProcessesAction

/-! ## FreezeProcessesGroupAction -/

structure FreezeProcessesGroupAction extends BaseFreezeAction where
  group : Option String
  deriving DecidableEq

namespace FreezeProcessesGroupAction

def init (base : ActionBase) (kwargs : Kwargs) : Except PyExc FreezeProcessesGroupAction :=
  kwargs.foldlM (fun a kwarg => match kwarg with
    | .group v => .ok { a with group := v }
    | kwarg => (fun b => { a with toBaseFreezeAction := b }) <$> a.toBaseFreezeAction.setKwarg kwarg)
    { BaseFreezeAction.init base with group := none }

/-- `_target_nodes`. -/
def targetNodes (a : FreezeProcessesGroupAction) : List String :=
  if a.group = some "extra" then a.extraNodes else a.dbNodes

/-- The groups that have nodes. -/
def candidates (a : FreezeProcessesGroupAction) : List String :=
  ["db", "extra"].filter fun g =>
    (g == "db" && ! a.dbNodes.isEmpty) || (g == "extra" && ! a.extraNodes.isEmpty)

/-- `_resolve_targets`. -/
def resolveTargets : ActionM FreezeProcessesGroupAction (List String) := do
  let a ← this
  if a.group.isNone then
    if a.candidates.isEmpty then return []
    let group ← pick (Random.choice a.candidates)
    assign fun a => { a with group := some group }
  return (← this).targetNodes

def execute : ActionM FreezeProcessesGroupAction Unit := do
  let targets ← resolveTargets
  if targets.isEmpty then return
  let a ← this
  onCluster (a.writeFlagToNodes targets)

def heal : ActionM FreezeProcessesGroupAction Unit := do
  let a ← this
  onCluster (BaseFreezeAction.removeFlagFromNodes a.targetNodes)

def serialize (a : FreezeProcessesGroupAction) : String := a.toBaseFreezeAction.serialize a.group

def deserialize (params : String) (dbNodes extraNodes : List String) (dcMap : DcMap) :
    Except PyExc FreezeProcessesGroupAction := do
  let parts := paramParts params
  let base ← BaseFreezeAction.deserialize parts dbNodes extraNodes dcMap
  return { base with group := optionalPart parts 1 }

end FreezeProcessesGroupAction

/-! ## The registry -/

/-- An instance of a built-in class other than `WaitAction`. -/
inductive Builtin
  | kill (a : KillProcessAction)
  | halves (a : PartitionRandomHalvesAction)
  | ring (a : PartitionMajoritiesRingAction)
  | node (a : PartitionRandomNodeAction)
  | subnet (a : PartitionRandomSubnetAction)
  | dc (a : PartitionRandomDcAction)
  | freeze (a : FreezeProcessesAction)
  | freezeGroup (a : FreezeProcessesGroupAction)
  deriving DecidableEq

/-- A method of a built-in class; `view` reads its instances out of the sum. -/
def builtinMethod {α : Type} (wrap : α → Builtin) (view : Builtin → Option α) (m : ActionM α Unit) :
    Method Builtin Cluster := fun s =>
  match s.1 with
  | .wait _ => (.ok (), s)
  | .custom b => match view b with
    | none => (.ok (), s)
    | some a =>
      let (result, a, world) := m.exec (a, s.2)
      (result, .custom (wrap a), world)

/-- A built-in class from its members. -/
def builtinClass {α : Type} (wrap : α → Builtin) (view : Builtin → Option α) (name : String)
    (healable hostTargetable : Bool) (init : ActionBase → Kwargs → Except PyExc α)
    (execute heal : ActionM α Unit) (ordinal : α → Int) (serialize : α → String)
    (deserialize : String → List String → List String → DcMap → Except PyExc α) :
    ActionClass Builtin Cluster where
  name
  healable
  hostTargetable
  init dbNodes extraNodes ordinal dcMap kwargs :=
    (fun a => .custom (wrap a)) <$> init { dbNodes, extraNodes, ordinal, dcMap } kwargs
  execute := builtinMethod wrap view execute
  heal := builtinMethod wrap view heal
  ordinal
    | .wait _ => 0
    | .custom b => ((view b).map ordinal).getD 0
  serialize
    | .wait _ => ""
    | .custom b => ((view b).map serialize).getD ""
  deserialize params dbNodes extraNodes dcMap :=
    (fun a => .custom (wrap a)) <$> deserialize params dbNodes extraNodes dcMap

namespace KillProcessAction

def cls : ActionClass Builtin Cluster :=
  builtinClass .kill (fun | .kill a => some a | _ => none) "kill" false true init execute (pure ())
    (·.ordinal) serialize deserialize

end KillProcessAction

namespace PartitionRandomHalvesAction

def cls : ActionClass Builtin Cluster :=
  builtinClass .halves (fun | .halves a => some a | _ => none) "partition_random_halves" true false
    init execute heal (·.ordinal) serialize deserialize

end PartitionRandomHalvesAction

namespace PartitionMajoritiesRingAction

def cls : ActionClass Builtin Cluster :=
  builtinClass .ring (fun | .ring a => some a | _ => none) "partition_majorities_ring" true false
    init execute heal (·.ordinal) serialize deserialize

end PartitionMajoritiesRingAction

namespace PartitionRandomNodeAction

def cls : ActionClass Builtin Cluster :=
  builtinClass .node (fun | .node a => some a | _ => none) "partition_random_node" true true
    init execute heal (·.ordinal) serialize deserialize

end PartitionRandomNodeAction

namespace PartitionRandomSubnetAction

def cls : ActionClass Builtin Cluster :=
  builtinClass .subnet (fun | .subnet a => some a | _ => none) "partition_random_subnet" true true
    init execute heal (·.ordinal) serialize deserialize

end PartitionRandomSubnetAction

namespace PartitionRandomDcAction

def cls : ActionClass Builtin Cluster :=
  builtinClass .dc (fun | .dc a => some a | _ => none) "partition_random_dc" true false
    init execute heal (·.ordinal) serialize deserialize

end PartitionRandomDcAction

namespace FreezeProcessesAction

def cls : ActionClass Builtin Cluster :=
  builtinClass .freeze (fun | .freeze a => some a | _ => none) "freeze_processes" true true
    init execute heal (·.ordinal) serialize deserialize

end FreezeProcessesAction

namespace FreezeProcessesGroupAction

def cls : ActionClass Builtin Cluster :=
  builtinClass .freezeGroup (fun | .freezeGroup a => some a | _ => none) "freeze_processes_group" true
    false init execute heal (·.ordinal) serialize deserialize

end FreezeProcessesGroupAction

/-- The classes `create_default_registry` registers, in its order. -/
def builtinClasses : List (ActionClass Builtin Cluster) :=
  [WaitAction.cls, KillProcessAction.cls, PartitionRandomHalvesAction.cls,
   PartitionMajoritiesRingAction.cls, PartitionRandomNodeAction.cls, PartitionRandomSubnetAction.cls,
   PartitionRandomDcAction.cls, FreezeProcessesAction.cls, FreezeProcessesGroupAction.cls]

/-- `create_default_registry`. -/
def createDefaultRegistry : Except PyExc (FaultRegistry Builtin Cluster) :=
  builtinClasses.foldlM FaultRegistry.register Dict.empty

/-- The registry `create_default_registry` returns. -/
def defaultRegistry : FaultRegistry Builtin Cluster := Dict.ofPairs (builtinClasses.map fun c => (c.name, c))

theorem createDefaultRegistry_ok : createDefaultRegistry = .ok defaultRegistry := rfl

/-- Two database nodes on which nothing has been run. -/
def idleCluster : Cluster where
  node _ := { tables := ⟨fun _ => [], Dict.empty⟩, iface := none, files := fun _ => none }
  ip name := if name = "pg1" then some "10.0.0.1" else if name = "pg2" then some "10.0.0.2" else none
  outage _ := none

end FaultStorm
