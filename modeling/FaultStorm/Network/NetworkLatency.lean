import FaultStorm.Methods
import FaultStorm.Python.Float
import FaultStorm.Python.Regex

/-!
# Network latency emulation

`NetworkLatencyManager.apply` computes the delay of every pair of nodes and installs on each
node a `prio` root qdisc with one band for each distinct delay. The bands can also be found
again by parsing what `tc` prints.
-/

namespace FaultStorm

open Python

/-- `_normalise_dc_pair`. -/
def normaliseDcPair (a b : String) : String × String := if b < a then (b, a) else (a, b)

/-- `BandInfo`. -/
structure BandInfo where
  parent : List Char
  handle : List Char
  delayMs : Int
  deriving DecidableEq, Repr

/-! ## Live tc output parsing -/

namespace NetworkLatency

open Regex

/-- `\s+` -/
def spaces1 : Regex := some1 Text.isSpace

/-- `\S+` -/
def word1 : Regex := some1 (! Text.isSpace ·)

/-- `.*?` -/
def anything : Regex := .many false (· ≠ '\n')

/-- `\w` of the text `tc` prints. -/
def isWord (c : Char) : Bool := c.isAlphanum || c == '_'

/-- A sequence of patterns. -/
def chain (rs : List Regex) : Regex := rs.foldr .seq .empty

/-- `_NETEM_RE`. -/
def netemRe : Regex := chain
  [lit "qdisc".toList, spaces1, lit "netem".toList, spaces1, .group "handle" word1, spaces1,
   lit "parent".toList, spaces1, .group "parent" word1, spaces1,
   anything, lit "delay".toList, spaces1,
   .group "delay" (some1 fun c => (Text.decimalValue c).isSome || c == '.'),
   .group "unit" (.alt (lit "us".toList) (.alt (lit "ms".toList) (lit "s".toList))), .boundary isWord]

/-- `[0-9a-f]`. -/
def isHexDigit (c : Char) : Bool := c.isDigit || ('a' ≤ c && c ≤ 'f')

/-- `_FILTER_IP_RE`. -/
def filterIpRe : Regex := chain
  [lit "match".toList, spaces1, .group "hex" (times isHexDigit 8), lit "/ffffffff".toList, spaces1,
   lit "at".toList, spaces1, lit "16".toList, anything, lit "flowid".toList, spaces1,
   .group "flowid" word1]

/-- The delay of a match of `_NETEM_RE` in milliseconds. -/
def delayOf (m : Groups) : Except PyExc Int :=
  match PyFloat.parse (m.text "delay") with
  | none => .error .valueError
  | some delay =>
    let ms := if m.text "unit" = "us".toList then PyFloat.div delay 1000
      else if m.text "unit" = "s".toList then PyFloat.mul delay 1000
      else delay
    match PyFloat.toInt ms with
    | none => .error (.other 0)
    | some ms => .ok ms

/-- `_parse_netem_bands`. -/
def parseNetemBands (text : List Char) : Except PyExc (Dict (List Char) BandInfo) :=
  (netemRe.finditer text).foldlM (fun bands m => do
    let delayMs ← delayOf m
    return bands.set (m.text "parent") ⟨m.text "parent", m.text "handle", delayMs⟩) Dict.empty

/-- `_hex_to_ip`. -/
def hexToIp (hex : List Char) : String :=
  let n := (Text.parseHex hex).getD 0
  toString (n / 2 ^ 24 % 256) ++ "." ++ toString (n / 2 ^ 16 % 256) ++ "." ++ toString (n / 2 ^ 8 % 256) ++ "." ++
    toString (n % 256)

/-- `_parse_filter_ip_to_band`. -/
def parseFilterIpToBand (text : List Char) : Dict String (List Char) :=
  (filterIpRe.finditer text).foldl (fun mapping m => mapping.set (hexToIp (m.text "hex")) (m.text "flowid"))
    Dict.empty

/-- The last part of `_discover_bands_for_ips`: the bands of the target IPs. -/
def matchBands (bands : Dict (List Char) BandInfo) (ipToFlowid : Dict String (List Char)) (targetIps : List String) :
    Dict String BandInfo :=
  targetIps.foldl (fun result ip => match (ipToFlowid.get? ip).bind bands.get? with
    | some band => result.set ip band
    | none => result) Dict.empty

/-- `_discover_bands_for_ips`. -/
def discoverBandsForIps (node : String) (targetIps : List String) : ClusterM (Dict String BandInfo) := do
  let some qdiscOut ← Proc.orNone (ClusterManager.readOnNode node fun n => Tc.showQdisc n.iface)
    | return Dict.empty
  let bands ← match parseNetemBands qdiscOut with
    | .ok bands => pure bands
    | .error exc => throw exc
  if bands.items.isEmpty then return Dict.empty
  let some filterOut ← Proc.orNone (ClusterManager.readOnNode node fun n => Tc.showFilter n.iface)
    | return Dict.empty
  return matchBands bands (parseFilterIpToBand filterOut) targetIps

end NetworkLatency

/-! ## NetworkLatencyManager -/

/-- The attributes of a `NetworkLatencyManager`; `configuredNodes` is a set. -/
structure NetworkLatencyManager where
  config : TestConfig
  configuredNodes : List String
  nodeBands : Dict String (Dict String BandInfo)

namespace NetworkLatencyManager

open NetworkLatency

/-- `__init__`. -/
def init (config : TestConfig) : NetworkLatencyManager := ⟨config, [], Dict.empty⟩

/-- `node_dc`: node name to the name of its DC. -/
def nodeDc (dcMap : DcMap) : Dict String String :=
  Dict.ofPairs (dcMap.items.flatMap fun (dc, nodes) => nodes.map (·, dc))

/-- `delays`: the cross-DC delays under normalised keys. -/
def delays (config : TestConfig) : Dict (String × String) Int :=
  Dict.ofPairs (config.crossDcDelays.items.map fun ((a, b), ms) => (normaliseDcPair a b, ms))

/-- The delay `apply` computes for the packets from one node to another. -/
def delayBetween (config : TestConfig) (dcMap : DcMap) (node other : String) : Int :=
  let crossDc := match (nodeDc dcMap).get? node, (nodeDc dcMap).get? other with
    | some dc, some otherDc =>
      if dc ≠ "" ∧ otherDc ≠ "" ∧ dc ≠ otherDc then (delays config).getD (normaliseDcPair dc otherDc) 0 else 0
    | _, _ => 0
  let dbZk :=
    if config.dbZkDelayMs > 0 then
      let isDbToZk := node ∈ config.dbNodes ∧ other ∈ config.extraNodes
      let isZkToDb := node ∈ config.extraNodes ∧ other ∈ config.dbNodes
      if isDbToZk ∨ isZkToDb then config.dbZkDelayMs else 0
    else 0
  crossDc + dbZk

/-- `dest_delays` of a node: the addresses of the nodes it must delay its packets for. -/
def destDelays (config : TestConfig) (dcMap : DcMap) (node : String) : ClusterM (Dict String Int) :=
  config.allNodes.foldlM (fun dest other => do
    if other = node then return dest
    let delay := delayBetween config dcMap node other
    if delay > 0 then
      let ip ← ClusterManager.getNodeIp other
      return dest.set ip delay
    else return dest) Dict.empty

/-- `delay_to_ips`: the addresses of each distinct delay. -/
def delayToIps (destDelays : Dict String Int) : Dict Int (List String) :=
  destDelays.items.foldl (fun groups (ip, ms) => groups.set ms (groups.getD ms [] ++ [ip])) Dict.empty

/-- The class of a band. -/
def bandParent (bandIdx : Nat) : List Char := "1:".toList ++ (toString bandIdx).toList

/-- The handle of the qdisc of a band. -/
def bandHandle (bandIdx : Nat) : List Char := (toString (bandIdx * 10)).toList ++ ":".toList

/-- The loop of `_apply_node` over the numbered bands, with `ip_to_band` so far. -/
def attachBands (node : String) : List ((Int × List String) × Nat) → Dict String BandInfo →
    ClusterM (Dict String BandInfo)
  | [], ipToBand => return ipToBand
  | ((delayMs, ips), bandIdx) :: rest, ipToBand => do
    let parent := bandParent bandIdx
    let failed ← Proc.attempt <|
      ClusterManager.execOnNode node (.tc (.addNetem parent (bandHandle bandIdx) delayMs))
    if failed.isSome then attachBands node rest ipToBand
    else
      Proc.forEach ips fun ip => Proc.swallow <|
        ClusterManager.execOnNode node (.tc (.addFilter bandIdx ip parent))
      attachBands node rest
        (ips.foldl (fun bands ip => bands.set ip ⟨parent, bandHandle bandIdx, delayMs⟩) ipToBand)

/-- `_apply_node`. -/
def applyNode (node : String) (destDelays : Dict String Int) : ActionM NetworkLatencyManager Unit := do
  let groups := (delayToIps destDelays).items
  let failed ← onCluster <| Proc.attempt <|
    ClusterManager.execOnNode node (.tc (.addPrio (groups.length + 1)))
  if failed.isSome then
    let existing ← onCluster (discoverBandsForIps node destDelays.keys)
    if ! existing.items.isEmpty then
      assign fun m => { m with nodeBands := m.nodeBands.set node existing }
  else
    let ipToBand ← onCluster (attachBands node (groups.zipIdx 2) Dict.empty)
    assign fun m => { m with nodeBands := m.nodeBands.set node ipToBand }

/-- `apply`. -/
def apply (dcMap : DcMap) : ActionM NetworkLatencyManager Unit := do
  let config := (← this).config
  if config.crossDcDelays.items.isEmpty ∧ config.dbZkDelayMs ≤ 0 then return
  Proc.forEach config.allNodes fun node => do
    let dest ← onCluster (destDelays config dcMap node)
    if dest.items.isEmpty then return
    applyNode node dest
    assign fun m => { m with configuredNodes := m.configuredNodes.insert node }

/-- `get_bands_for_node`. -/
def getBandsForNode (m : NetworkLatencyManager) (node : String) : Dict String BandInfo :=
  m.nodeBands.getD node Dict.empty

end NetworkLatencyManager

end FaultStorm
