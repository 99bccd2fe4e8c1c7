import FaultStorm.Python.Dict

/-!
# Configuration

The fields of `TestConfig` that the modelled code reads, with their defaults. Per-action
constructor overrides are lists of keyword arguments, each carrying a value of the type the
constructors annotate it with.
-/

namespace FaultStorm

open Python

/-- DC name to the names of its nodes. -/
abbrev DcMap := Dict String (List String)

/-- A keyword argument of an action constructor; `other` is one no built-in class knows. -/
inductive Kwarg
  | seconds (v : Int)
  | process (v : Option String)
  | node (v : Option String)
  | processes (v : Option (List String))
  | group1 (v : Option (List String))
  | group2 (v : Option (List String))
  | ordered (v : Option (List String))
  | direction (v : Option String)
  | subnetType (v : Option String)
  | blockedNodes (v : Option (List String))
  | dcName (v : Option String)
  | freezeDurationRange (v : Option (Int × Int))
  | freezePauseRange (v : Option (Int × Int))
  | group (v : Option String)
  | other (name : String)
  deriving DecidableEq, Repr

abbrev Kwargs := List Kwarg

/-- `kwargs["node"] = node`. -/
def Kwargs.setNode (kwargs : Kwargs) (node : String) : Kwargs :=
  (kwargs.filter fun | .node _ => false | _ => true) ++ [.node (some node)]

/-- `TestConfig`. -/
structure TestConfig where
  dbNodes : List String := []
  extraNodes : List String := []
  writersPerNode : Int := 2
  faultActiveDuration : Int := 60
  faultPauseDuration : Int := 60
  faultTypes : List String :=
    ["partition_random_halves", "partition_majorities_ring", "partition_random_node",
     "partition_random_subnet", "partition_random_dc", "kill"]
  complexFaultsEnabled : Bool := true
  complexFaultMinWait : Int := 0
  complexFaultMaxWait : Int := 20
  parallelFaultsCount : Int := 2
  maxDestructiveActions : Option Int := some 1
  actionParams : Dict String Kwargs := Dict.empty
  crossDcDelays : Dict (String × String) Int := Dict.empty
  dbZkDelayMs : Int := 0

/-- `TestConfig.all_nodes`. -/
def TestConfig.allNodes (config : TestConfig) : List String := config.dbNodes ++ config.extraNodes

end FaultStorm
