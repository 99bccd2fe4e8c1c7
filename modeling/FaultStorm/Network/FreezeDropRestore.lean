import FaultStorm.Network.Bands

/-!
# Freeze, drop and restore

`freeze_drop_restore_for_ips` holds the packets for some addresses back while a process is
killed, and drops them afterwards. The function of the module and the method of the manager
share everything but how they find the bands. The `tc` commands that are run are recorded with
the interface each leaves.
-/

namespace FaultStorm

open Python Cluster

/-- `_FREEZE_DELAY_MS`. -/
def freezeDelayMs : Int := 99999

/-- The cluster, with the `tc` commands run on a node so far and its interface after each. -/
structure Watched where
  env : Cluster
  log : List (Tc.Command × Tc.Iface)

abbrev WatchedM (α : Type) := Proc Watched PyExc α

namespace WatchedM

/-- A call that does not run `tc` commands. -/
def unlogged {α : Type} (m : ClusterM α) : WatchedM α := Proc.focus (·.env) (fun s env => { s with env }) m

/-- `exec_on_node` of a `tc` command. -/
def tcOnNode (node : String) (command : Tc.Command) : WatchedM Unit := fun s =>
  let (result, env) := (ClusterManager.execOnNode node (.tc command)).exec s.env
  (result, ⟨env, s.log ++ [(command, (env.node node).iface)]⟩)

/-- `time.sleep`. -/
def sleep (seconds : ℚ) : WatchedM Unit := if seconds < 0 then throw .valueError else pure ()

end WatchedM

open WatchedM

/-- `_change_netem_delay`. -/
def changeNetemDelay (node : String) (band : BandInfo) (newDelayMs : Int) : WatchedM Unit :=
  Proc.swallow (tcOnNode node (.changeNetem band.parent band.handle newDelayMs))

/-- `_reset_netem_band`. -/
def resetNetemBand (node : String) (band : BandInfo) (restoreDelayMs : Int) : WatchedM Unit := do
  Proc.swallow (tcOnNode node (.delNetem band.parent band.handle))
  Proc.swallow (tcOnNode node (.addNetem band.parent band.handle restoreDelayMs))

/-- `_remove_temp_netem_freeze`. -/
def removeTempNetemFreeze (node : String) : WatchedM Unit := Proc.swallow (tcOnNode node .delRoot)

/-- `_create_temp_netem_freeze`. -/
def createTempNetemFreeze (node : String) (targetIps : List String) : WatchedM Bool := do
  let failed ← Proc.attempt (tcOnNode node (.addPrio 2))
  if failed.isSome then return false
  let failed ← Proc.attempt (tcOnNode node (.addNetem "1:2".toList "20:".toList freezeDelayMs))
  if failed.isSome then
    removeTempNetemFreeze node
    return false
  Proc.forEach targetIps fun ip => Proc.swallow (tcOnNode node (.addFilter 2 ip "1:2".toList))
  return true

/-- The loop over the matched bands, with `frozen_bands` so far. -/
def freezeBands (node : String) : List (String × BandInfo) → Dict (List Char) BandInfo →
    WatchedM (Dict (List Char) BandInfo)
  | [], frozen => return frozen
  | (_, band) :: rest, frozen => do
    if band.parent ∈ frozen.keys then freezeBands node rest frozen
    else
      changeNetemDelay node band freezeDelayMs
      freezeBands node rest (frozen.set band.parent band)

/-- `if kill_callback: kill_callback()`. -/
def callKill (killCallback : Option (ClusterM Unit)) : ClusterM Unit := killCallback.getD (pure ())

/-- The four steps for the bands that were matched. -/
def freezeKillRestore (node : String) (matched : List (String × BandInfo)) (preKillSleep : ℚ)
    (killCallback : Option (ClusterM Unit)) : WatchedM Unit := do
  let frozen ← freezeBands node matched Dict.empty
  sleep preKillSleep
  unlogged (callKill killCallback)
  Proc.forEach frozen.items fun (_, band) => resetNetemBand node band band.delayMs

/-- `freeze_drop_restore_for_ips`; `discover` is `_discover_bands_for_ips`. -/
def freezeDropRestoreForIps (discover : String → List String → ClusterM (Dict String BandInfo)) (node : String)
    (targetIps : List String) (preKillSleep : ℚ) (killCallback : Option (ClusterM Unit)) : WatchedM Unit := do
  let matched ← unlogged (discover node targetIps)
  if ! matched.items.isEmpty then freezeKillRestore node matched.items preKillSleep killCallback
  else
    let tempCreated ← createTempNetemFreeze node targetIps
    sleep preKillSleep
    unlogged (callKill killCallback)
    if tempCreated then removeTempNetemFreeze node

/-- `NetworkLatencyManager.freeze_drop_restore_for_ips`. -/
def NetworkLatencyManager.freezeDropRestoreForIps (m : NetworkLatencyManager) (node : String)
    (targetIps : List String) (preKillSleep : ℚ) (killCallback : Option (ClusterM Unit)) : WatchedM Unit :=
  let matched := (m.nodeBands.getD node Dict.empty).items.filter fun x => decide (x.1 ∈ targetIps)
  if matched.isEmpty then unlogged (callKill killCallback)
  else freezeKillRestore node matched preKillSleep killCallback

end FaultStorm
