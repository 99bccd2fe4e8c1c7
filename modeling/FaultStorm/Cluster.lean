import FaultStorm.Net.Iptables
import FaultStorm.Net.Tc
import FaultStorm.Faults.Action

/-!
# The cluster behind `ClusterManager`

A node is what the commands that FaultStorm runs on it read and change: its filter table,
its traffic control and its files. A docker call may also end in an exception before it
reaches the node; `outage` says which of the coming calls do.
-/

namespace FaultStorm

open Python

/-- What the commands see of a node. A here-document may go on behind its delimiter: its shell then
takes the lines left as commands, which may do anything. `stray` says that one has; the other fields
are what the commands of FaultStorm alone make of the node. -/
structure Node where
  tables : Iptables.Tables
  iface : Tc.Iface
  files : String → Option (List Char)
  stray : Bool := false

/-- A command line given to `exec_on_node`. -/
inductive NodeCommand
  /-- `iptables ...` -/
  | iptables (command : Iptables.Command)
  /-- `tc ...` -/
  | tc (command : Tc.Command)
  /-- `bash -c "cat > path << 'delimiter'..."` with the lines between the first and the last -/
  | heredoc (path : String) (delimiter : List Char) (lines : List (List Char))
  /-- `rm -f path` -/
  | rm (path : String)
  /-- `pkill -9 process` -/
  | pkill (process : String)

/-- Run a command on a node: the node after it, or nothing if it fails. The processes of a
node are not part of it. -/
def Node.run (n : Node) : NodeCommand → Option Node
  | .iptables command => (Iptables.run command n.tables).map fun tables => { n with tables }
  | .tc command => (Tc.run command n.iface).map fun iface => { n with iface }
  | .heredoc path delimiter lines =>
      some { n with
        files := fun p => if p = path then
          some ((lines.takeWhile (· ≠ delimiter)).flatMap (· ++ ['\n'])) else n.files p
        stray := n.stray || lines.contains delimiter }
  | .rm path => some { n with files := fun p => if p = path then none else n.files p }
  | .pkill _ => some n

/-- The cluster and what docker will do. -/
structure Cluster where
  node : String → Node
  ip : String → Option String
  outage : Nat → Option PyExc

/-- A method that runs docker commands. -/
abbrev ClusterM (α : Type) := Proc Cluster PyExc α

namespace Cluster

def setNode (c : Cluster) (name : String) (n : Node) : Cluster :=
  { c with node := fun other => if other = name then n else c.node other }

theorem setNode_self (c : Cluster) (name : String) : c.setNode name (c.node name) = c := by
  have node : (fun other => if other = name then c.node name else c.node other) = c.node := by
    funext other
    split
    · rename_i eq
      rw [eq]
    · rfl
  rw [setNode, node]

/-- The cluster after a docker call was made. -/
def called (c : Cluster) : Cluster := { c with outage := fun k => c.outage (k + 1) }

end Cluster

namespace ClusterManager

/-- `exec_on_node`. -/
def execOnNode (name : String) (command : NodeCommand) : ClusterM Unit := do
  let c ← get
  set c.called
  match c.outage 0 with
  | some exc => throw exc
  | none => match (c.node name).run command with
    | some n => set (c.called.setNode name n)
    | none => throw .calledProcessError

/-- `exec_on_node` of a command that only prints: its standard output. -/
def readOnNode (name : String) (output : Node → List Char) : ClusterM (List Char) := do
  let c ← get
  set c.called
  match c.outage 0 with
  | some exc => throw exc
  | none => return output (c.node name)

/-- `get_node_ip`. -/
def getNodeIp (name : String) : ClusterM String := do
  let c ← get
  set c.called
  match c.outage 0 with
  | some exc => throw exc
  | none => match c.ip name with
    | some ip => return ip
    | none => throw .runtimeError

end ClusterManager

/-! ## Docker calls -/

namespace Cluster

/-- The cluster after `n` docker calls. -/
def after (c : Cluster) (n : Nat) : Cluster := { c with outage := fun k => c.outage (k + n) }

@[simp] theorem after_zero (c : Cluster) : c.after 0 = c := rfl

@[simp] theorem after_node (c : Cluster) (n : Nat) : (c.after n).node = c.node := rfl

theorem after_after (c : Cluster) (m n : Nat) : (c.after m).after n = c.after (m + n) := by
  have outage : (fun k => c.outage (k + n + m)) = fun k => c.outage (k + (m + n)) := by
    funext k
    rw [Nat.add_assoc, Nat.add_comm n m]
  show { c with outage := _ } = { c with outage := _ }
  rw [← outage]
  rfl

end Cluster

/-- A command changes its node if its call reaches it and it does not fail there. -/
theorem exec_execOnNode_eq (c : Cluster) (name : String) (command : NodeCommand) :
    (ClusterManager.execOnNode name command).exec c = match c.outage 0 with
      | some exc => (.error exc, c.after 1)
      | none => match (c.node name).run command with
        | some n => (.ok (), (c.after 1).setNode name n)
        | none => (.error .calledProcessError, c.after 1) := by
  unfold ClusterManager.execOnNode
  rw [Proc.exec_bind_ok (Proc.exec_get c), Proc.exec_bind_ok (Proc.exec_set c _)]
  cases c.outage 0 with
  | some exc => rfl
  | none => cases (c.node name).run command <;> rfl

theorem exec_readOnNode_eq (c : Cluster) (name : String) (output : Node → List Char) :
    (ClusterManager.readOnNode name output).exec c = match c.outage 0 with
      | some exc => (.error exc, c.after 1)
      | none => (.ok (output (c.node name)), c.after 1) := by
  unfold ClusterManager.readOnNode
  rw [Proc.exec_bind_ok (Proc.exec_get c), Proc.exec_bind_ok (Proc.exec_set c _)]
  cases c.outage 0 <;> rfl

theorem exec_getNodeIp_eq (c : Cluster) (name : String) :
    (ClusterManager.getNodeIp name).exec c = match c.outage 0 with
      | some exc => (.error exc, c.after 1)
      | none => match c.ip name with
        | some ip => (.ok ip, c.after 1)
        | none => (.error .runtimeError, c.after 1) := by
  unfold ClusterManager.getNodeIp
  rw [Proc.exec_bind_ok (Proc.exec_get c), Proc.exec_bind_ok (Proc.exec_set c _)]
  cases c.outage 0 with
  | some exc => rfl
  | none => cases c.ip name <;> rfl

/-! ## While docker works -/

namespace Cluster

/-- Every docker call reaches its node. -/
def Works (c : Cluster) : Prop := ∀ k, c.outage k = none

variable {c : Cluster}

theorem Works.after (works : c.Works) (n : Nat) : c.after n = c := by
  have outage : (fun k => c.outage (k + n)) = c.outage := by
    funext k
    rw [works, works]
  rw [Cluster.after, outage]

end Cluster

open Cluster

variable {c : Cluster}

theorem exec_execOnNode (works : c.Works) (name : String) (command : NodeCommand) :
    (ClusterManager.execOnNode name command).exec c = match (c.node name).run command with
      | some n => (.ok (), c.setNode name n)
      | none => (.error .calledProcessError, c) := by
  rw [exec_execOnNode_eq, works 0, works.after]

theorem exec_readOnNode (works : c.Works) (name : String) (output : Node → List Char) :
    (ClusterManager.readOnNode name output).exec c = (.ok (output (c.node name)), c) := by
  rw [exec_readOnNode_eq, works 0, works.after]

theorem exec_getNodeIp (works : c.Works) {name ip : String} (known : c.ip name = some ip) :
    (ClusterManager.getNodeIp name).exec c = (.ok ip, c) := by
  rw [exec_getNodeIp_eq, works 0, known, works.after]

end FaultStorm
