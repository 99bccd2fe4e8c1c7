import FaultStorm.Faults.Engine.Cleanup
import FaultStorm.Faults.Engine.Steps
import FaultStorm.Net.Iptables
import FaultStorm.Cluster
import FaultStorm.Faults.Builtin
import FaultStorm.Faults.Engine.Replay
import FaultStorm.Runner
import FaultStorm.Faults.Placement
import FaultStorm.Faults.Partition
import FaultStorm.Faults.Overlap
import FaultStorm.Faults.ScenarioLog.Roundtrip
import FaultStorm.Faults.Presets
import FaultStorm.Faults.Engine.Record
import FaultStorm.Faults.ProcessFreezer
import FaultStorm.Faults.FreezeOverlap
import FaultStorm.Python.Float
import FaultStorm.Network.NetworkLatency
import FaultStorm.Network.Bands
import FaultStorm.Network.InForce
import FaultStorm.Network.Discovery
import FaultStorm.Python.Json
import FaultStorm.Python.Json.Roundtrip
import FaultStorm.Faults.Engine.Accounting
import FaultStorm.Faults.Engine.Journal
import FaultStorm.Faults.Contract
import FaultStorm.Faults.Engine.Lines
import FaultStorm.Faults.Engine.Stop
import FaultStorm.Network.StoredBands
import FaultStorm.Network.FreezeDropRestore
import FaultStorm.Network.Neutral
import FaultStorm.Network.Teardown
import FaultStorm.Faults.ChainCalls
import FaultStorm.Faults.FailedPartition
import FaultStorm.Faults.FreezerDaemon
import FaultStorm.Checker
import FaultStorm.Checker.Verdict
import FaultStorm.Python.Json.Printable
import FaultStorm.LoadGenerator
import FaultStorm.LoadGenerator.OpsLog
import FaultStorm.LoadGenerator.Logged
import FaultStorm.LoadGenerator.Served
import FaultStorm.LoadGenerator.EndToEnd
import FaultStorm.LoadGenerator.Classification
import FaultStorm.LoadGenerator.Protocol
import FaultStorm.Faults.Engine.Codec
import FaultStorm.Faults.Decoding
import FaultStorm.Faults.FreezePatterns
import FaultStorm.Faults.Engine.Rerecord
import FaultStorm.Faults.FlagFile
import FaultStorm.Circle.Windows
import FaultStorm.Faults.HealCoverage
import FaultStorm.Faults.MajoritiesRing
import FaultStorm.Network.Recovery
import FaultStorm.Network.DelayMatrix
import FaultStorm.Checker.Availability
import FaultStorm.Spans.Runs
import FaultStorm.Checker.Reports
import FaultStorm.Checker.LogOrder
import FaultStorm.Python.Json.Extension
import FaultStorm.LoadGenerator.CutLog
import FaultStorm.Faults.RandomDelay
import FaultStorm.Faults.Effects
import FaultStorm.Faults.Engine.Environment
import FaultStorm.Faults.Engine.Footprint
import FaultStorm.LoadGenerator.Drained
import FaultStorm.LoadGenerator.Stopping
import FaultStorm.Faults.Engine.Reproduction
import FaultStorm.Runner.WholeTest
import FaultStorm.Network.HeldBack
import FaultStorm.Network.Labels
import FaultStorm.Faults.FreezerRuns
import FaultStorm.Faults.Aimed
import FaultStorm.Faults.Engine.Groups
import FaultStorm.LoadGenerator.Turns
import FaultStorm.Faults.FreezerBeside
