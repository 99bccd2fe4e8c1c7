import FaultStorm.Cluster

/-!
# The iptables helpers of the partition actions

Each helper tries its commands in one `try`, so a failing command skips the ones after it
and nothing is raised. `exec_tryCommands` gives their effect while docker works.
-/

namespace FaultStorm

open Python Iptables

/-- Run commands on a node in one `try`, whose handler only logs. -/
def tryCommands (node : String) (commands : List Command) : ClusterM Unit :=
  Proc.swallow (Proc.forEach commands fun command => ClusterManager.execOnNode node (.iptables command))

namespace Partitioners

def getChainName (partitionId : Int) : String := "FSTORM_PART_" ++ toString partitionId

def createChain (node chainName : String) : ClusterM Unit :=
  tryCommands node [.newChain chainName, .append (.builtin .input) (link chainName)]

def addDropRulesBySrc (node chainName : String) (blockedIps : List String) : ClusterM Unit :=
  Proc.forEach blockedIps fun ip =>
    tryCommands node [.append (.user chainName) { src := some ip, target := .drop }]

def removeChain (node chainName : String) : ClusterM Unit :=
  tryCommands node
    [.flush (.user chainName), .delete (.builtin .input) (link chainName), .deleteChain chainName]

def healPartition (partitionId : Int) (nodes : List String) : ClusterM Unit :=
  Proc.forEach nodes fun node => removeChain node (getChainName partitionId)

/-! ## Directional partitions -/

def getDirectionalChainName (partitionId : Int) (direction : Hook) : String :=
  "FSTORM_PART_" ++ toString partitionId ++ "_" ++
    (match direction with | .input => "IN" | .output => "OUT")

def createChainForDirection (node chainName : String) (direction : Hook) : ClusterM Unit :=
  tryCommands node [.newChain chainName, .append (.builtin direction) (link chainName)]

def addDropRulesByDest (node chainName : String) (destIps : List String) : ClusterM Unit :=
  Proc.forEach destIps fun ip =>
    tryCommands node [.append (.user chainName) { dst := some ip, target := .drop }]

def removeChainForDirection (node chainName : String) (direction : Hook) : ClusterM Unit :=
  tryCommands node
    [.flush (.user chainName), .delete (.builtin direction) (link chainName), .deleteChain chainName]

def healDirectionalPartition (partitionId : Int) (node : String) (directions : List Hook) : ClusterM Unit :=
  Proc.forEach directions fun direction =>
    removeChainForDirection node (getDirectionalChainName partitionId direction) direction

end Partitioners

/-! ## While docker works -/

namespace Cluster

/-- Change the filter table of a node. -/
def onTables (c : Cluster) (name : String) (f : Tables → Tables) : Cluster :=
  c.setNode name { c.node name with tables := f (c.node name).tables }

variable {c : Cluster}

theorem Works.onTables (works : c.Works) (name : String) (f : Tables → Tables) :
    (c.onTables name f).Works := works

theorem node_onTables (c : Cluster) (name other : String) (f : Tables → Tables) :
    ((c.onTables name f).node other).tables =
      if other = name then f (c.node other).tables else (c.node other).tables := by
  unfold onTables setNode
  by_cases eq : other = name
  · simp [eq]
  · simp [eq]

theorem onTables_id (c : Cluster) (name : String) : c.onTables name id = c := setNode_self c name

/-- Only the tables of the node matter. -/
theorem onTables_congr {name : String} {f g : Tables → Tables} (same : f (c.node name).tables = g (c.node name).tables) :
    c.onTables name f = c.onTables name g := by
  unfold onTables
  rw [same]

theorem after_onTables (c : Cluster) (name : String) (f : Tables → Tables) (n : Nat) :
    (c.onTables name f).after n = (c.after n).onTables name f := rfl

theorem onTables_onTables (c : Cluster) (name : String) (f g : Tables → Tables) :
    (c.onTables name f).onTables name g = c.onTables name (g ∘ f) := by
  unfold onTables setNode
  congr 1
  funext other
  by_cases eq : other = name
  · simp [eq]
  · simp [eq]

end Cluster

open Cluster

variable {c : Cluster}

/-- Commands that are tried in order have the effect of those before the first that fails. -/
theorem exec_tryCommands (works : c.Works) (name : String) (commands : List Command) :
    (tryCommands name commands).exec c = (.ok (), c.onTables name (runAll commands)) := by
  have loop : ∀ {c : Cluster}, c.Works →
      ((Proc.forEach commands fun command => ClusterManager.execOnNode name (.iptables command)).exec c).2 =
        c.onTables name (runAll commands) := by
    induction commands with
    | nil => exact fun _ => (onTables_id _ name).symm
    | cons command rest ih =>
      intro c works
      have step := exec_execOnNode works name (.iptables command)
      rw [Proc.forEach_cons]
      cases ran : run command (c.node name).tables with
      | none =>
        simp only [Node.run, ran, Option.map_none] at step
        rw [Proc.exec_bind_error step]
        have same : runAll (command :: rest) (c.node name).tables = (c.node name).tables :=
          runAll_cons_none ran
        rw [onTables, same]
        exact (onTables_id c name).symm
      | some T =>
        simp only [Node.run, ran, Option.map_some] at step
        have after : c.setNode name { c.node name with tables := T } =
            c.onTables name fun _ => T := rfl
        rw [Proc.exec_bind_ok step, after, ih (works.onTables name _), onTables_onTables]
        have same : runAll (command :: rest) (c.node name).tables = runAll rest T := runAll_cons_some ran
        unfold onTables
        rw [same]
        rfl
  rw [tryCommands, Proc.exec_swallow, loop works]

/-- A loop of tried commands, each for its node. -/
theorem exec_forEach_tryCommands {α : Type} (works : c.Works) (l : List α) (name : α → String)
    (commands : α → List Command) :
    (Proc.forEach l fun a => tryCommands (name a) (commands a)).exec c =
      (.ok (), l.foldl (fun c a => c.onTables (name a) (runAll (commands a))) c) := by
  induction l generalizing c with
  | nil => rfl
  | cons a l ih =>
    rw [Proc.forEach_cons, Proc.exec_bind_ok (exec_tryCommands works ..)]
    exact ih (works.onTables _ _)

end FaultStorm
