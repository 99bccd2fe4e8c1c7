import FaultStorm.Faults.Engine.Footprint
import FaultStorm.Network.InForce
import FaultStorm.Network.Teardown

/-!
# A whole test

`TestRunner.run` in random mode as the nodes see it: the latency is applied, the fault thread runs
until it is stopped, `heal_all` heals what is left, and the latency is removed. The load generator
and the checker change no node.
-/

namespace FaultStorm

open Python Cluster NetworkLatency

/-! ## Interfaces -/

namespace Cluster

variable {c : Cluster} {ifaces : String → Tc.Iface}

end Cluster

namespace NetworkLatencyManager

section Latency

variable {config : TestConfig} {dcMap : DcMap} {m : NetworkLatencyManager} {w : World Cluster} {node : String}

end Latency

end NetworkLatencyManager

/-! ## The test -/

open FaultEngine NetworkLatencyManager

section Test

variable {e : Setup Builtin Cluster} {w : World Cluster}

end Test

end FaultStorm
