import FaultStorm.Network.Discovery
import FaultStorm.Network.StoredBands

/-!
# Recovering an interrupted apply

An `_apply_node` whose process died has issued a prefix of its `tc` commands. What another one
makes of the node depends on how `tc` lists what is there: `Listing` stands for its output, read
back by the patterns of the manager.
-/

namespace FaultStorm

open Python Cluster NetworkLatency

/-! ## Reading what tc prints -/

/-- The output of `tc qdisc show` and of `tc filter show`. -/
structure Listing where
  qdisc : Tc.Iface → List Char
  filter : Tc.Iface → List Char

namespace NetworkLatency

/-- The listings of the interfaces of this model. -/
def tcListing : Listing := ⟨Tc.showQdisc, Tc.showFilter⟩

/-- `_discover_bands_for_ips`, for these listings. -/
def discoverBandsIn (listing : Listing) (node : String) (targetIps : List String) : ClusterM (Dict String BandInfo) := do
  let some qdiscOut ← Proc.orNone (ClusterManager.readOnNode node fun n => listing.qdisc n.iface)
    | return Dict.empty
  let bands ← match parseNetemBands qdiscOut with
    | .ok bands => pure bands
    | .error exc => throw exc
  if bands.items.isEmpty then return Dict.empty
  let some filterOut ← Proc.orNone (ClusterManager.readOnNode node fun n => listing.filter n.iface)
    | return Dict.empty
  return matchBands bands (parseFilterIpToBand filterOut) targetIps

theorem discoverBandsIn_tcListing : discoverBandsIn tcListing = discoverBandsForIps := rfl

end NetworkLatency

/-- The listings of an interface are parsed correctly: the `netem` qdiscs with their parents, and the
class of every address that has a filter. -/
structure Listing.Parsed (listing : Listing) (root : Tc.Prio) : Prop where
  bands : ∃ bands, parseNetemBands (listing.qdisc (some root)) = .ok bands ∧ ∀ n,
    bands.get? (Tc.showClass n) =
      (root.netem.get? n).map fun netem => ⟨Tc.showClass n, netem.handle, netem.delayMs⟩
  filters : ∀ ip, (parseFilterIpToBand (listing.filter (some root))).get? ip =
    (root.filters.find? (·.dst = ip)).map fun f => Tc.showClass f.flowid

section Discover

variable {listing : Listing} {root : Tc.Prio}

theorem get?_foldl_matchBands (bands : Dict (List Char) BandInfo) (ipToFlowid : Dict String (List Char))
    (targetIps : List String) (ip : String) (found : Dict String BandInfo) :
    (targetIps.foldl (fun result ip => match (ipToFlowid.get? ip).bind bands.get? with
      | some band => result.set ip band
      | none => result) found).get? ip =
      if ip ∈ targetIps then ((ipToFlowid.get? ip).bind bands.get?).or (found.get? ip) else found.get? ip := by
  induction targetIps generalizing found with
  | nil => rfl
  | cons first rest ih =>
    rw [List.foldl_cons, ih]
    by_cases here : ip = first
    · subst here
      cases matched : (ipToFlowid.get? ip).bind bands.get? with
      | none => simp
      | some band => simp [Dict.get?_set_self]
    · cases matched : (ipToFlowid.get? first).bind bands.get? with
      | none => simp [here]
      | some band => simp [here, Dict.get?_set]

theorem get?_matchBands (bands : Dict (List Char) BandInfo) (ipToFlowid : Dict String (List Char))
    (targetIps : List String) (ip : String) :
    (matchBands bands ipToFlowid targetIps).get? ip =
      if ip ∈ targetIps then (ipToFlowid.get? ip).bind bands.get? else none := by
  have all := get?_foldl_matchBands bands ipToFlowid targetIps ip Dict.empty
  rw [Dict.get?_empty, Option.or_none] at all
  exact all

/-- The band of the packets for an address: that of its first filter. -/
def listedBand (root : Tc.Prio) (ip : String) : Option BandInfo :=
  (root.filters.find? (·.dst = ip)).bind fun f =>
    (root.netem.get? f.flowid).map fun netem => ⟨Tc.showClass f.flowid, netem.handle, netem.delayMs⟩

/-- Discovery finds the bands of the target IPs where the listings are parsed correctly. -/
theorem exec_discoverBandsIn {c : Cluster} (works : c.Works) {node : String} (iface : (c.node node).iface = some root)
    (parsed : listing.Parsed root) (targetIps : List String) :
    ∃ found, (discoverBandsIn listing node targetIps).exec c = (.ok found, c) ∧
      ∀ ip ∈ targetIps, found.get? ip = listedBand root ip := by
  obtain ⟨bands, read, netem⟩ := parsed.bands
  have matched : ∀ ip, ((parseFilterIpToBand (listing.filter (some root))).get? ip).bind bands.get? = listedBand root ip := by
    intro ip
    rw [parsed.filters, listedBand]
    cases root.filters.find? (·.dst = ip) with
    | none => rfl
    | some f => exact netem f.flowid
  rw [discoverBandsIn, Proc.exec_bind_ok (Proc.exec_orNone_ok (exec_readOnNode works node _)), iface]
  dsimp only
  rw [read]
  dsimp only
  rw [pure_bind]
  split
  · rename_i empty
    refine ⟨Dict.empty, rfl, fun ip _ => ?_⟩
    have nothing : ∀ parent, bands.get? parent = none := by
      intro parent
      rw [Dict.get?, List.isEmpty_iff.mp empty]
      rfl
    rw [← matched, Dict.get?_empty]
    cases (parseFilterIpToBand (listing.filter (some root))).get? ip with
    | none => rfl
    | some flowid => exact (nothing flowid).symm
  · rw [Proc.exec_bind_ok (Proc.exec_orNone_ok (exec_readOnNode works node _)), iface]
    refine ⟨_, rfl, fun ip member => ?_⟩
    rw [get?_matchBands, if_pos member, matched]

end Discover

namespace Cluster

/-- The cluster of a manager whose process gets to make `k` more docker calls. -/
def cutAfter (c : Cluster) (k : Nat) : Cluster :=
  { c with outage := fun call => if call < k then none else some .calledProcessError }

theorem after_cutAfter (c : Cluster) (k n : Nat) : (c.cutAfter k).after n = c.cutAfter (k - n) := by
  have outage : (fun call => if call + n < k then none else some PyExc.calledProcessError) =
      fun call => if call < k - n then none else some .calledProcessError := by
    funext call
    simp only [Nat.lt_sub_iff_add_lt]
  unfold cutAfter after
  rw [← outage]

end Cluster

namespace NetworkLatencyManager

/-- `_apply_node`, for these listings. -/
def applyNodeIn (listing : Listing) (node : String) (destDelays : Dict String Int) :
    ActionM NetworkLatencyManager Unit := do
  let groups := (delayToIps destDelays).items
  let failed ← onCluster <| Proc.attempt <|
    ClusterManager.execOnNode node (.tc (.addPrio (groups.length + 1)))
  if failed.isSome then
    let existing ← onCluster (discoverBandsIn listing node destDelays.keys)
    if ! existing.items.isEmpty then
      assign fun m => { m with nodeBands := m.nodeBands.set node existing }
  else
    let ipToBand ← onCluster (attachBands node (groups.zipIdx 2) Dict.empty)
    assign fun m => { m with nodeBands := m.nodeBands.set node ipToBand }

theorem applyNodeIn_tcListing : applyNodeIn tcListing = applyNode := rfl

/-! ## The commands of an apply -/

/-- The commands for a band and its addresses. -/
def bandCommands (b : Band) : List Tc.Command :=
  .addNetem (bandParent b.2) (bandHandle b.2) b.1.1 :: b.1.2.map fun ip => .addFilter b.2 ip (bandParent b.2)

/-- The `tc` commands of `_apply_node`, where each of them succeeds. -/
def commandsOf (dest : Dict String Int) : List Tc.Command :=
  .addPrio ((delayToIps dest).items.length + 1) :: (bandsOf dest).flatMap bandCommands

/-- An interface after commands, of which a failing one changes nothing. -/
def afterCommands (commands : List Tc.Command) (iface : Tc.Iface) : Tc.Iface :=
  commands.foldl (fun iface command => (Tc.run command iface).getD iface) iface

section Commands

variable {bands : Nat} {done : List Band} {root : Tc.Prio} {ipToBand : Dict String BandInfo}

theorem afterCommands_append (l k : List Tc.Command) (iface : Tc.Iface) :
    afterCommands (l ++ k) iface = afterCommands k (afterCommands l iface) := by
  simp [afterCommands]

theorem afterCommands_cons_some {command : Tc.Command} {iface after : Tc.Iface} (ran : Tc.run command iface = some after)
    (rest : List Tc.Command) : afterCommands (command :: rest) iface = afterCommands rest after := by
  simp [afterCommands, ran]

theorem afterCommands_addFilters {bandIdx : Nat} (small : bandIdx < 20) (ips : List String) (root : Tc.Prio) :
    afterCommands (ips.map fun ip => .addFilter bandIdx ip (bandParent bandIdx)) (some root) = some { root with
      filters := ips.foldl (fun fs ip => Tc.insertFilter ⟨bandIdx, ip, hexMinor bandIdx⟩ fs) root.filters } := by
  induction ips generalizing root with
  | nil => rfl
  | cons ip ips ih =>
    have ran : Tc.run (.addFilter bandIdx ip (bandParent bandIdx)) (some root) = some (some { root with
        filters := Tc.insertFilter ⟨bandIdx, ip, hexMinor bandIdx⟩ root.filters }) := by
      rw [Tc.run, minor_bandParent bandIdx small]
    rw [List.map_cons, afterCommands_cons_some ran, ih]
    rfl

/-- The commands for the bands of a list attach them. -/
theorem afterCommands_bands (h : Attached bands done root ipToBand) (rest : List Band) (numbered : Numbered (done ++ rest))
    (fits : ∀ b ∈ rest, b.Fits bands) :
    ∃ root' ipToBand', afterCommands (rest.flatMap bandCommands) (some root) = some root' ∧
      Attached bands (done ++ rest) root' ipToBand' := by
  induction rest generalizing done root ipToBand with
  | nil =>
    rw [List.append_nil]
    exact ⟨root, ipToBand, rfl, h⟩
  | cons b rest ih =>
    rw [List.append_cons] at numbered ⊢
    have here : Numbered (done ++ [b]) := numbered.of_append
    obtain ⟨pos, small⟩ := here.small b (by simp)
    have ran := run_addNetem pos small b.1.1 root (h.free here)
    have fit : b.Fits bands := fits b List.mem_cons_self
    rw [if_pos (by rw [h.size]; exact fit)] at ran
    obtain ⟨root', ipToBand', later, attached⟩ := ih (h.attach here fit) numbered fun x member =>
      fits x (List.mem_cons_of_mem b member)
    refine ⟨root', ipToBand', ?_, attached⟩
    rw [List.flatMap_cons, afterCommands_append, bandCommands, afterCommands_cons_some ran,
      afterCommands_addFilters small]
    exact later

/-- The whole sequence attaches every band. -/
theorem afterCommands_commandsOf {dest : Dict String Int} (some_delay : dest.items ≠ [])
    (few : (delayToIps dest).items.length ≤ 8) :
    ∃ root ipToBand, afterCommands (commandsOf dest) none = some root ∧
      Attached ((delayToIps dest).items.length + 1) (bandsOf dest) root ipToBand := by
  have pos := delayToIps_ne_nil some_delay
  have added : Tc.run (.addPrio ((delayToIps dest).items.length + 1)) none =
      some (some ⟨(delayToIps dest).items.length + 1, Dict.empty, []⟩) := if_pos ⟨by omega, by omega⟩
  rw [commandsOf, afterCommands_cons_some added]
  exact afterCommands_bands (attached_nil _) (bandsOf dest) (numbered_bandsOf (by omega)) fun b member =>
    fits_of_mem member few

end Commands

/-! ## An apply that gets no further -/

section Cut

variable {c : Cluster} {node : String}

/-- A command of a cut manager. -/
theorem exec_tc_cut (c : Cluster) (node : String) (command : Tc.Command) (k : Nat) :
    ∃ exc, (ClusterManager.execOnNode node (.tc command)).exec (c.cutAfter (k + 1)) =
      match Tc.run command (c.node node).iface with
      | some iface => (.ok (), (c.setIface node iface).cutAfter k)
      | none => (.error exc, c.cutAfter k) := by
  cases ran : Tc.run command (c.node node).iface with
  | some iface =>
    have reached : (c.cutAfter (k + 1)).outage 0 = none := by simp [cutAfter]
    have done : Tc.run command ((c.cutAfter (k + 1)).node node).iface = some iface := ran
    refine ⟨.calledProcessError, ?_⟩
    rw [exec_tc_at reached done, after_cutAfter]
    rfl
  | none =>
    obtain ⟨exc, failed⟩ := @exec_tc_error (c.cutAfter (k + 1)) node command (Or.inr ran)
    rw [after_cutAfter] at failed
    exact ⟨exc, failed⟩

theorem exec_tc_dead (c : Cluster) (node : String) (command : Tc.Command) :
    ∃ exc, (ClusterManager.execOnNode node (.tc command)).exec (c.cutAfter 0) = (.error exc, c.cutAfter 0) := by
  obtain ⟨exc, failed⟩ := @exec_tc_error (c.cutAfter 0) node command (Or.inl nofun)
  rw [after_cutAfter] at failed
  exact ⟨exc, failed⟩

theorem filtered_cutAfter (c : Cluster) (k : Nat) (ips : List String) : filtered (c.cutAfter k).outage ips = ips.take k := by
  induction ips generalizing k with
  | nil => rw [filtered, List.take_nil]
  | cons ip ips ih =>
    have next : later (c.cutAfter k).outage 1 = (c.cutAfter (k - 1)).outage := congrArg outage (after_cutAfter c k 1)
    rw [filtered, next, ih]
    cases k with
    | zero => rfl
    | succ k => rfl

/-- The filters of a band, up to the cut. -/
theorem exec_addFilters_cut {root : Tc.Prio} (iface : (c.node node).iface = some root) {bandIdx : Nat} (small : bandIdx < 20)
    (ips : List String) (k : Nat) :
    (Proc.forEach ips fun ip => Proc.swallow <|
        ClusterManager.execOnNode node (.tc (.addFilter bandIdx ip (bandParent bandIdx)))).exec (c.cutAfter k) =
      (.ok (), (c.setIface node (afterCommands ((ips.map fun ip => .addFilter bandIdx ip (bandParent bandIdx)).take k)
        (some root))).cutAfter (k - ips.length)) := by
  have ran := @exec_addFilters_at (c.cutAfter k) node root iface bandIdx small ips
  rw [filtered_cutAfter, ← afterCommands_addFilters small, List.map_take, after_cutAfter] at ran
  exact ran

theorem exec_attachBands_dead (rest : List Band) (ipToBand : Dict String BandInfo) :
    (attachBands node rest ipToBand).exec (c.cutAfter 0) = (.ok ipToBand, c.cutAfter 0) := by
  induction rest with
  | nil => rfl
  | cons b rest ih =>
    obtain ⟨exc, failed⟩ := exec_tc_dead c node (.addNetem (bandParent b.2) (bandHandle b.2) b.1.1)
    rw [attachBands, Proc.exec_bind_ok (Proc.exec_attempt_error failed)]
    exact ih

/-- The bands, up to the cut. -/
theorem exec_attachBands_cut {bands : Nat} {done : List Band} {root : Tc.Prio} {ipToBand stored : Dict String BandInfo}
    (iface : (c.node node).iface = some root) (h : Attached bands done root ipToBand) (rest : List Band)
    (numbered : Numbered (done ++ rest)) (fits : ∀ b ∈ rest, b.Fits bands) (k : Nat) :
    ∃ stored', (attachBands node rest stored).exec (c.cutAfter k) = (.ok stored',
      (c.setIface node (afterCommands ((rest.flatMap bandCommands).take k) (some root))).cutAfter
        (k - (rest.flatMap bandCommands).length)) := by
  induction rest generalizing c done root ipToBand stored k with
  | nil =>
    refine ⟨stored, ?_⟩
    rw [List.flatMap_nil, List.take_nil, List.length_nil, Nat.sub_zero]
    show _ = (_, (c.setIface node (some root)).cutAfter k)
    rw [setIface_self iface]
    rfl
  | cons b rest ih =>
    cases k with
    | zero =>
      refine ⟨stored, ?_⟩
      rw [exec_attachBands_dead, List.take_zero, Nat.zero_sub]
      show _ = (_, (c.setIface node (some root)).cutAfter 0)
      rw [setIface_self iface]
    | succ k =>
      rw [List.append_cons] at numbered
      have here : Numbered (done ++ [b]) := numbered.of_append
      obtain ⟨pos, small⟩ := here.small b (by simp)
      have ran := run_addNetem pos small b.1.1 root (h.free here)
      have fit : b.Fits bands := fits b List.mem_cons_self
      rw [if_pos (by rw [h.size]; exact fit)] at ran
      obtain ⟨exc, first⟩ := exec_tc_cut c node (.addNetem (bandParent b.2) (bandHandle b.2) b.1.1) k
      rw [iface, ran] at first
      have attempted := Proc.exec_attempt_ok first
      let root₁ : Tc.Prio := { root with netem := root.netem.set (hexMinor b.2) ⟨bandHandle b.2, b.1.1⟩ }
      have there : ((c.setIface node (some root₁)).node node).iface = some root₁ := by
        rw [iface_setIface, if_pos rfl]
      have filtered := exec_addFilters_cut there small b.1.2 k
      rw [setIface_setIface] at filtered
      have length : ((b :: rest).flatMap bandCommands).length = 1 + b.1.2.length + (rest.flatMap bandCommands).length := by
        rw [List.flatMap_cons, List.length_append, bandCommands, List.length_cons, List.length_map]
        omega
      have commands : ((b :: rest).flatMap bandCommands).take (k + 1) =
          .addNetem (bandParent b.2) (bandHandle b.2) b.1.1 ::
            ((b.1.2.map fun ip => .addFilter b.2 ip (bandParent b.2)).take k ++
              (rest.flatMap bandCommands).take (k - b.1.2.length)) := by
        rw [List.flatMap_cons, bandCommands, List.cons_append, List.take_succ_cons, List.take_append, List.length_map]
      have next : k + 1 - ((b :: rest).flatMap bandCommands).length = k - b.1.2.length - (rest.flatMap bandCommands).length := by
        omega
      rw [commands, next, afterCommands_cons_some ran, afterCommands_append, attachBands, Proc.exec_bind_ok attempted,
        if_neg (by decide), Proc.exec_bind_ok filtered]
      rcases Nat.lt_or_ge k b.1.2.length with short | enough
      · have spent : k - b.1.2.length = 0 := by omega
        rw [spent, exec_attachBands_dead, List.take_zero, Nat.zero_sub]
        exact ⟨_, rfl⟩
      · have all : (b.1.2.map fun ip => Tc.Command.addFilter b.2 ip (bandParent b.2)).take k =
            b.1.2.map fun ip => .addFilter b.2 ip (bandParent b.2) := List.take_of_length_le (by simpa using enough)
        rw [all, afterCommands_addFilters small]
        let root₂ : Tc.Prio := { root₁ with
          filters := b.1.2.foldl (fun fs ip => Tc.insertFilter ⟨b.2, ip, hexMinor b.2⟩ fs) root₁.filters }
        have reached : ((c.setIface node (some root₂)).node node).iface = some root₂ := by
          rw [iface_setIface, if_pos rfl]
        obtain ⟨stored', later⟩ := @ih (c.setIface node (some root₂)) _ _ _
          (b.1.2.foldl (fun bands ip => bands.set ip b.info) stored) reached (h.attach here fit) numbered
          (fun x member => fits x (List.mem_cons_of_mem b member)) (k - b.1.2.length)
        rw [setIface_setIface] at later
        exact ⟨stored', later⟩

/-- An `_apply_node` that is cut has run its first commands: the sequence is the one it issues. -/
theorem exec_applyNode_cut {dest : Dict String Int} {m : NetworkLatencyManager} {w : World Cluster}
    (clean : (w.env.node node).iface = none) (some_delay : dest.items ≠ []) (few : (delayToIps dest).items.length ≤ 8)
    (k : Nat) :
    ∃ m' w', (applyNode node dest).exec (m, { w with env := w.env.cutAfter k }) = (.ok (), m', w') ∧
      (w'.env.node node).iface = afterCommands ((commandsOf dest).take k) none := by
  have pos := delayToIps_ne_nil some_delay
  let size := (delayToIps dest).items.length + 1
  cases k with
  | zero =>
    obtain ⟨exc, failed⟩ := exec_tc_dead w.env node (.addPrio size)
    refine ⟨m, { w with env := (w.env.cutAfter 0).after 1 }, ?_, clean⟩
    rw [applyNode, Proc.exec_bind, exec_onCluster, Proc.exec_attempt_error failed]
    dsimp only
    rw [if_pos (by rfl), Proc.exec_bind, exec_onCluster, exec_discover_clean (c := w.env.cutAfter 0) clean]
    rfl
  | succ k =>
    have added : Tc.run (.addPrio size) none = some (some ⟨size, Dict.empty, []⟩) := if_pos ⟨by omega, by omega⟩
    obtain ⟨exc, first⟩ := exec_tc_cut w.env node (.addPrio size) k
    rw [clean, added] at first
    have rooted : ((w.env.setIface node (some ⟨size, Dict.empty, []⟩)).node node).iface = some ⟨size, Dict.empty, []⟩ := by
      rw [iface_setIface, if_pos rfl]
    obtain ⟨stored, loop⟩ := @exec_attachBands_cut _ node size [] _ Dict.empty Dict.empty rooted (attached_nil size)
      (bandsOf dest) (numbered_bandsOf (by omega)) (fun b member => fits_of_mem member few) k
    rw [setIface_setIface] at loop
    refine ⟨{ m with nodeBands := m.nodeBands.set node stored }, { w with
      env := (w.env.setIface node (afterCommands (((bandsOf dest).flatMap bandCommands).take k)
        (some ⟨size, Dict.empty, []⟩))).cutAfter (k - ((bandsOf dest).flatMap bandCommands).length) }, ?_, ?_⟩
    · rw [applyNode, Proc.exec_bind, exec_onCluster, Proc.exec_attempt_ok first]
      dsimp only
      rw [if_neg (by decide), Proc.exec_bind, exec_onCluster]
      dsimp only
      rw [show (delayToIps dest).items.zipIdx 2 = bandsOf dest from rfl, loop]
      rfl
    · show ((w.env.setIface node _).node node).iface = _
      rw [iface_setIface, if_pos rfl, commandsOf, List.take_succ_cons, afterCommands_cons_some added]

end Cut

/-! ## Part of the sequence -/

section Part

variable {dest : Dict String Int} {root : Tc.Prio}

/-- A command that adds a band or a filter. -/
def Adds : Tc.Command → Prop
  | .addNetem .. | .addFilter .. => True
  | _ => False

/-- A root qdisc after such commands: its filters and bands are old ones or theirs. -/
structure Grown (root : Tc.Prio) (commands : List Tc.Command) (root' : Tc.Prio) : Prop where
  filters : ∀ f ∈ root'.filters, f ∈ root.filters ∨ ∃ prio flowid, .addFilter prio f.dst flowid ∈ commands
  netem : ∀ m, (root'.netem.get? m).isSome → (root.netem.get? m).isSome ∨
    ∃ parent handle delayMs, .addNetem parent handle delayMs ∈ commands ∧ Tc.minor parent = some m

theorem run_adds {command : Tc.Command} (adds : Adds command) (root : Tc.Prio) :
    ∃ root', (Tc.run command (some root)).getD (some root) = some root' ∧ Grown root [command] root' := by
  have same : Grown root [command] root := ⟨fun f member => Or.inl member, fun m there => Or.inl there⟩
  cases command with
  | addNetem parent handle delayMs =>
    rw [Tc.run]
    cases named : Tc.minor parent with
    | none => exact ⟨root, rfl, same⟩
    | some n =>
      dsimp only
      split
      · refine ⟨_, rfl, fun f member => Or.inl member, fun m there => ?_⟩
        rw [Dict.get?_set] at there
        split at there
        · rename_i here
          exact Or.inr ⟨parent, handle, delayMs, List.mem_singleton_self _, here ▸ named⟩
        · exact Or.inl there
      · exact ⟨root, rfl, same⟩
  | addFilter prio dst flowid =>
    rw [Tc.run]
    cases named : Tc.minor flowid with
    | none => exact ⟨root, rfl, same⟩
    | some n =>
      refine ⟨_, rfl, fun f member => ?_, fun m there => Or.inl there⟩
      rcases mem_insertFilter.mp member with old | rfl
      · exact Or.inl old
      · exact Or.inr ⟨prio, flowid, List.mem_singleton_self _⟩
  | addPrio | changeNetem | delNetem | delRoot => exact adds.elim

theorem afterCommands_adds {commands : List Tc.Command} (adds : ∀ c ∈ commands, Adds c) (root : Tc.Prio) :
    ∃ root', afterCommands commands (some root) = some root' ∧ Grown root commands root' := by
  induction commands generalizing root with
  | nil => exact ⟨root, rfl, fun f member => Or.inl member, fun m there => Or.inl there⟩
  | cons command rest ih =>
    obtain ⟨mid, ran, first⟩ := run_adds (adds command List.mem_cons_self) root
    obtain ⟨root', later, second⟩ := ih (fun c member => adds c (List.mem_cons_of_mem command member)) mid
    refine ⟨root', ?_, fun f member => ?_, fun m there => ?_⟩
    · rw [← later, ← ran]
      rfl
    · rcases second.filters f member with old | ⟨prio, flowid, among⟩
      · rcases first.filters f old with older | ⟨prio, flowid, here⟩
        · exact Or.inl older
        · rw [List.mem_singleton] at here
          exact Or.inr ⟨prio, flowid, List.mem_cons.mpr (Or.inl here)⟩
      · exact Or.inr ⟨prio, flowid, List.mem_cons_of_mem command among⟩
    · rcases second.netem m there with old | ⟨parent, handle, delayMs, among, named⟩
      · rcases first.netem m old with older | ⟨parent, handle, delayMs, here, named⟩
        · exact Or.inl older
        · rw [List.mem_singleton] at here
          exact Or.inr ⟨parent, handle, delayMs, List.mem_cons.mpr (Or.inl here), named⟩
      · exact Or.inr ⟨parent, handle, delayMs, List.mem_cons_of_mem command among, named⟩

theorem bandCommands_adds {l : List Band} : ∀ c ∈ l.flatMap bandCommands, Adds c := by
  intro c member
  obtain ⟨b, -, here⟩ := List.mem_flatMap.mp member
  rcases List.mem_cons.mp here with rfl | filter
  · trivial
  · obtain ⟨ip, -, rfl⟩ := List.mem_map.mp filter
    trivial

/-- The filters of the sequence are for the addresses of the bands. -/
theorem addFilter_mem_bandCommands {l : List Band} {prio : Nat} {ip : String} {flowid : List Char}
    (member : .addFilter prio ip flowid ∈ l.flatMap bandCommands) : ∃ b ∈ l, ip ∈ b.1.2 := by
  obtain ⟨b, among, here⟩ := List.mem_flatMap.mp member
  have named : ip ∈ b.1.2 ∧ b.2 = prio ∧ bandParent b.2 = flowid := by simpa [bandCommands] using here
  exact ⟨b, among, named.1⟩

theorem addNetem_mem_bandCommands {l : List Band} {parent handle : List Char} {delayMs : Int}
    (member : .addNetem parent handle delayMs ∈ l.flatMap bandCommands) : ∃ b ∈ l, parent = bandParent b.2 := by
  obtain ⟨b, among, here⟩ := List.mem_flatMap.mp member
  have named : parent = bandParent b.2 ∧ handle = bandHandle b.2 ∧ delayMs = b.1.1 := by
    simpa [bandCommands] using here
  exact ⟨b, among, named.1⟩

/-- The addresses of a group are distinct. -/
theorem nodup_group {ms : Int} {ips : List String} (group : (ms, ips) ∈ (delayToIps dest).items) : ips.Nodup := by
  have addresses := getD_delayToIps dest ms
  rw [Dict.getD, (Dict.get?_eq_some _).mpr group, Option.getD_some] at addresses
  rw [addresses]
  exact dest.nodup.sublist (List.filter_sublist.map Prod.fst)

/-- The sequence ends with the filter of a destination that no command before it is for. -/
theorem commandsOf_last (some_delay : dest.items ≠ []) (few : (delayToIps dest).items.length ≤ 8) :
    ∃ first ip ms last, commandsOf dest = .addPrio ((delayToIps dest).items.length + 1) :: (first ++ [last]) ∧
      dest.get? ip = some ms ∧ (∀ c ∈ first, Adds c) ∧ (∀ prio flowid, .addFilter prio ip flowid ∉ first) ∧
      ∀ parent handle delayMs, .addNetem parent handle delayMs ∈ first → Tc.minor parent ≠ some 1 := by
  have pos := delayToIps_ne_nil some_delay
  have numbered : Numbered (bandsOf dest) := numbered_bandsOf (by omega)
  have bands : bandsOf dest ≠ [] := by
    rw [bandsOf, ne_eq, List.zipIdx_eq_nil_iff]
    exact List.ne_nil_of_length_pos pos
  obtain ⟨before, b, split⟩ := (List.eq_nil_or_concat' (bandsOf dest)).resolve_left bands
  have member : b ∈ bandsOf dest := split ▸ List.mem_append_right before (List.mem_singleton_self b)
  obtain ⟨ips, ip, group⟩ := (List.eq_nil_or_concat' b.1.2).resolve_left (group_ne_nil (mem_bandsOf member).1)
  have inside : ip ∈ b.1.2 := group ▸ List.mem_append_right ips (List.mem_singleton_self ip)
  have distinct : (ips ++ [ip]).Nodup := group ▸ nodup_group (mem_bandsOf member).1
  -- the commands up to the filter of `ip`: those for the bands before, and for its own band without it
  let mine : Band := ((b.1.1, ips), b.2)
  have commands : commandsOf dest = .addPrio ((delayToIps dest).items.length + 1) ::
      ((before ++ [mine]).flatMap bandCommands ++ [.addFilter b.2 ip (bandParent b.2)]) := by
    rw [commandsOf, split, List.flatMap_append, List.flatMap_append, List.flatMap_singleton, List.flatMap_singleton,
      bandCommands, group, List.map_append, List.append_assoc]
    rfl
  refine ⟨_, ip, b.1.1, _, commands, (mem_bandsOf_ips member).mp inside, bandCommands_adds, ?_, ?_⟩
  · intro prio flowid among
    obtain ⟨x, there, also⟩ := addFilter_mem_bandCommands among
    rcases List.mem_append.mp there with earlier | here
    · have same := numbered.apart x (split ▸ List.mem_append_left [b] earlier) b member ip also inside
      have fresh : Numbered (before ++ [b]) := split ▸ numbered
      exact fresh.fresh x earlier (congrArg Prod.snd same)
    · rw [List.mem_singleton.mp here] at also
      exact (List.nodup_append.mp distinct).2.2 ip also ip (List.mem_singleton_self ip) rfl
  · intro parent handle delayMs among
    obtain ⟨x, there, rfl⟩ := addNetem_mem_bandCommands among
    have number : ∃ y ∈ bandsOf dest, y.2 = x.2 := by
      rcases List.mem_append.mp there with earlier | here
      · exact ⟨x, split ▸ List.mem_append_left [b] earlier, rfl⟩
      · exact ⟨b, member, by rw [List.mem_singleton.mp here]⟩
    obtain ⟨y, among', same⟩ := number
    obtain ⟨low, small⟩ := numbered.small y among'
    rw [← same, minor_bandParent y.2 small]
    have two := two_le_hexMinor low
    intro one
    have := Option.some.inj one
    omega

end Part

/-! ## The second apply -/

/-- The packets for an address go to a `netem` band with the delay, and it is stored with that band. -/
def Recovered (iface : Tc.Iface) (stored : Dict String BandInfo) (ip : String) (ms : Int) : Prop :=
  ∃ root netem info, iface = some root ∧ root.netem.get? (root.classOf ip) = some netem ∧ netem.delayMs = ms ∧
    stored.get? ip = some info ∧ Tc.minor info.parent = some (root.classOf ip) ∧ info.handle = netem.handle ∧
    info.delayMs = ms

section Second

variable {listing : Listing} {node : String} {dest : Dict String Int} {m : NetworkLatencyManager} {w : World Cluster}
  {root : Tc.Prio} {ipToBand : Dict String BandInfo} {ip : String} {ms : Int}

/-- Where the root qdisc is added, nothing is listed. -/
theorem exec_applyNodeIn_added (works : w.env.Works) {iface : Tc.Iface}
    (added : Tc.run (.addPrio ((delayToIps dest).items.length + 1)) (w.env.node node).iface = some iface) :
    (applyNodeIn listing node dest).exec (m, w) = (applyNode node dest).exec (m, w) := by
  rw [applyNodeIn, applyNode, Proc.exec_bind, Proc.exec_bind, exec_onCluster, Proc.exec_attempt_ok (exec_tc works added)]
  rfl

/-- Where there is a root qdisc, the node stays as it is. -/
theorem exec_applyNodeIn_root (works : w.env.Works) (iface : (w.env.node node).iface = some root)
    (parsed : listing.Parsed root) :
    ∃ found, (applyNodeIn listing node dest).exec (m, w) =
        (.ok (), (if found.items.isEmpty then m else { m with nodeBands := m.nodeBands.set node found }), w) ∧
      ∀ ip ∈ dest.keys, found.get? ip = listedBand root ip := by
  obtain ⟨found, ran, bands⟩ := exec_discoverBandsIn works iface parsed dest.keys
  refine ⟨found, ?_, bands⟩
  have refused : Tc.run (.addPrio ((delayToIps dest).items.length + 1)) (w.env.node node).iface = none := by
    rw [iface]
    rfl
  rw [applyNodeIn, Proc.exec_bind, exec_onCluster, Proc.exec_attempt_error (exec_tc_fails works refused)]
  dsimp only
  rw [if_pos (by rfl), Proc.exec_bind, exec_onCluster, ran]
  dsimp only
  by_cases empty : found.items.isEmpty
  · rw [if_pos empty, empty]
    rfl
  · rw [if_neg empty, Bool.not_eq_true _ |>.mp empty]
    rfl

/-- With every band attached, the packets for a destination go to its band. -/
theorem Attached.recovered (h : Attached ((delayToIps dest).items.length + 1) (bandsOf dest) root ipToBand)
    (few : (delayToIps dest).items.length ≤ 8) (delayed : dest.get? ip = some ms) {stored : Dict String BandInfo}
    (found : stored.get? ip = ipToBand.get? ip ∨ stored.get? ip = listedBand root ip) : Recovered (some root) stored ip ms := by
  have numbered : Numbered (bandsOf dest) := numbered_bandsOf (by omega)
  obtain ⟨b, member, inside, rfl⟩ := exists_bandsOf delayed
  have fits := fits_of_mem member few
  have small := (numbered.small b member).2
  have filter := h.find_filter numbered member fits inside
  have netem : root.netem.get? (hexMinor b.2) = some ⟨bandHandle b.2, b.1.1⟩ :=
    (h.netem _ _).mpr ⟨b, member, fits, rfl, rfl⟩
  have class_of : root.classOf ip = hexMinor b.2 := by rw [Tc.Prio.classOf, filter]
  have info : ∃ info, stored.get? ip = some info ∧ Tc.minor info.parent = some (hexMinor b.2) ∧
      info.handle = bandHandle b.2 ∧ info.delayMs = b.1.1 := by
    rcases found with kept | listed
    · have recorded := (h.stored ip b.info).mpr ⟨b, member, fits, inside, rfl⟩
      exact ⟨b.info, kept.trans recorded, minor_bandParent b.2 small, rfl, rfl⟩
    · rw [listedBand, filter, Option.bind_some, netem] at listed
      exact ⟨_, listed, Tc.minor_showClass _, rfl, rfl⟩
  obtain ⟨info, recorded, parent, handle, delay⟩ := info
  rw [← class_of] at netem parent
  exact ⟨root, _, info, rfl, netem, rfl, recorded, parent, handle, delay⟩

/-- An address without a filter is in no band. -/
theorem not_recovered (unfiltered : ∀ f ∈ root.filters, f.dst ≠ ip) (default : root.netem.get? 1 = none)
    {stored : Dict String BandInfo} : ¬ Recovered (some root) stored ip ms := by
  rintro ⟨_, netem, info, ⟨⟩, band, -⟩
  have none_found : root.filters.find? (·.dst = ip) = none := by
    rw [List.find?_eq_none]
    intro f member
    simpa using unfiltered f member
  rw [Tc.Prio.classOf, none_found] at band
  rw [default] at band
  cases band

/-- Of a part of the sequence that is neither empty nor all of it, a destination stays without its band. -/
theorem part_not_recovered (some_delay : dest.items ≠ []) (few : (delayToIps dest).items.length ≤ 8)
    {part : List Tc.Command} (issued : part <+: commandsOf dest) (begun : part ≠ []) (unfinished : part ≠ commandsOf dest) :
    ∃ root ip ms, afterCommands part none = some root ∧ dest.get? ip = some ms ∧
      ∀ stored, ¬ Recovered (some root) stored ip ms := by
  have pos := delayToIps_ne_nil some_delay
  obtain ⟨first, ip, ms, last, commands, delayed, adds, no_filter, no_default⟩ := commandsOf_last some_delay few
  obtain ⟨command, rest, rfl⟩ := List.exists_cons_of_ne_nil begun
  rw [commands] at issued unfinished
  obtain ⟨rfl, inside⟩ := List.cons_prefix_cons.mp issued
  have before : rest <+: first := by
    rcases List.prefix_concat_iff.mp inside with whole | before
    · exact absurd (congrArg (List.cons _) whole) unfinished
    · exact before
  have added : Tc.run (.addPrio ((delayToIps dest).items.length + 1)) none =
      some (some ⟨(delayToIps dest).items.length + 1, Dict.empty, []⟩) := if_pos ⟨by omega, by omega⟩
  obtain ⟨root, ran, grown⟩ := afterCommands_adds (fun c member => adds c (before.subset member))
    ⟨(delayToIps dest).items.length + 1, Dict.empty, []⟩
  refine ⟨root, ip, ms, (afterCommands_cons_some added rest).trans ran, delayed, fun stored => not_recovered ?_ ?_⟩
  · rintro f member rfl
    rcases grown.filters f member with none | ⟨prio, flowid, among⟩
    · cases none
    · exact no_filter prio flowid (before.subset among)
  · rw [← Option.not_isSome_iff_eq_none]
    intro there
    rcases grown.netem 1 there with none | ⟨parent, handle, delayMs, among, named⟩
    · rw [Dict.get?_empty] at none
      cases none
    · exact no_default parent handle delayMs (before.subset among) named

/-- On a node without a root qdisc, every destination gets its band. -/
theorem recovered_unstarted (works : w.env.Works) (clean : (w.env.node node).iface = none) (few : (delayToIps dest).items.length ≤ 8)
    (delayed : dest.get? ip = some ms) :
    Recovered (((applyNodeIn listing node dest).exec (m, w)).2.2.env.node node).iface
      (((applyNodeIn listing node dest).exec (m, w)).2.1.getBandsForNode node) ip ms := by
  have some_delay : dest.items ≠ [] := List.ne_nil_of_mem ((Dict.get?_eq_some _).mp delayed)
  have pos := delayToIps_ne_nil some_delay
  have added : Tc.run (.addPrio ((delayToIps dest).items.length + 1)) (w.env.node node).iface =
      some (some ⟨(delayToIps dest).items.length + 1, Dict.empty, []⟩) := by
    rw [clean]
    exact if_pos ⟨by omega, by omega⟩
  obtain ⟨root, ipToBand, ran, attached⟩ := exec_applyNode (m := m) works clean some_delay (by omega)
  rw [exec_applyNodeIn_added works added, ran]
  dsimp only
  rw [iface_setIface, if_pos rfl, getBandsForNode_set]
  exact attached.recovered few delayed (Or.inl rfl)

/-- Where every band is attached, every destination is found with its band. -/
theorem recovered_finished (works : w.env.Works) (iface : (w.env.node node).iface = some root) (parsed : listing.Parsed root)
    (attached : Attached ((delayToIps dest).items.length + 1) (bandsOf dest) root ipToBand)
    (few : (delayToIps dest).items.length ≤ 8) (delayed : dest.get? ip = some ms) :
    Recovered (((applyNodeIn listing node dest).exec (m, w)).2.2.env.node node).iface
      (((applyNodeIn listing node dest).exec (m, w)).2.1.getBandsForNode node) ip ms := by
  obtain ⟨found, exec, listed⟩ := @exec_applyNodeIn_root listing node dest m w root works iface parsed
  have recovered : Recovered (some root) found ip ms :=
    attached.recovered few delayed (Or.inr (listed ip (Dict.mem_keys_of_get? delayed)))
  have there : ¬ found.items.isEmpty := by
    obtain ⟨-, -, info, -, -, -, stored, -⟩ := recovered
    intro empty
    rw [Dict.get?, List.isEmpty_iff.mp empty] at stored
    cases stored
  rw [exec, if_neg there]
  dsimp only
  rw [iface, getBandsForNode_set]
  exact recovered

/-- After any part of the commands of an `_apply_node`, another one of a fresh manager puts every
destination on a band with its delay, and stores it, if and only if there is no destination, no command
was issued, or all of them were. -/
theorem applyNode_recovers_iff (listing : Listing) (node : String) (dest : Dict String Int)
    (few : (delayToIps dest).items.length ≤ 8) {part : List Tc.Command} (issued : part <+: commandsOf dest)
    (config : TestConfig) (w : World Cluster) (works : w.env.Works)
    (left : (w.env.node node).iface = afterCommands part none)
    (parsed : ∀ root, (w.env.node node).iface = some root → listing.Parsed root) :
    (∀ ip ms, dest.get? ip = some ms →
        Recovered (((applyNodeIn listing node dest).exec (init config, w)).2.2.env.node node).iface
          (((applyNodeIn listing node dest).exec (init config, w)).2.1.getBandsForNode node) ip ms) ↔
      dest.items = [] ∨ part = [] ∨ part = commandsOf dest := by
  by_cases nobody : dest.items = []
  · refine iff_of_true (fun ip ms delayed => ?_) (Or.inl nobody)
    rw [Dict.get?, nobody] at delayed
    cases delayed
  rw [or_iff_right nobody]
  by_cases begun : part = []
  · have clean : (w.env.node node).iface = none := by
      rw [left, begun]
      rfl
    exact iff_of_true (fun ip ms delayed => recovered_unstarted works clean few delayed) (Or.inl begun)
  rw [or_iff_right begun]
  by_cases whole : part = commandsOf dest
  · obtain ⟨root, ipToBand, ran, attached⟩ := afterCommands_commandsOf nobody few
    have iface : (w.env.node node).iface = some root := left.trans (whole ▸ ran)
    exact iff_of_true (fun ip ms delayed => recovered_finished works iface (parsed root iface) attached few delayed) whole
  · refine iff_of_false (fun recovered => ?_) whole
    obtain ⟨root, ip, ms, ran, delayed, missed⟩ := part_not_recovered nobody few issued begun whole
    have iface := left.trans ran
    obtain ⟨found, exec, -⟩ := @exec_applyNodeIn_root listing node dest (init config) w root works iface
      (parsed root iface)
    have claimed := recovered ip ms delayed
    rw [exec] at claimed
    rw [iface] at claimed
    exact missed _ claimed

end Second

/-! ## The root qdisc alone -/

section Examples

/-- The listings of a root qdisc without bands and filters are parsed correctly. -/
theorem parsed_rootOnly (bands : Nat) : tcListing.Parsed ⟨bands, Dict.empty, []⟩ := by
  have netem : ∀ item ∈ (Dict.empty : Dict Nat Tc.Netem).items, Printable item := by
    intro item member
    cases member
  have filters : parseFilterIpToBand (tcListing.filter (some ⟨bands, Dict.empty, []⟩)) = Dict.empty := by
    unfold tcListing parseFilterIpToBand
    rw [finditer_showFilter]
    rfl
  constructor
  · refine ⟨Dict.empty, parseNetemBands_showQdisc netem, fun n => ?_⟩
    rw [Dict.get?_empty, Dict.get?_empty]
    rfl
  · intro ip
    rw [filters, Dict.get?_empty]
    rfl

/-- A manager has died behind its first command. -/
def rootOnly : World Cluster where
  draws _ := 0
  env :=
    { node _ := { tables := ⟨fun _ => [], Dict.empty⟩, iface := afterCommands [.addPrio 2] none, files := fun _ => none }
      ip _ := none
      outage _ := none }

theorem rootOnly_issued : [.addPrio 2] <+: commandsOf oneDelayed := by
  have all : commandsOf oneDelayed = .addPrio 2 :: (bandsOf oneDelayed).flatMap bandCommands := by
    have length : (delayToIps oneDelayed).items.length = 1 := by decide
    rw [commandsOf, length]
  rw [all]
  exact ⟨_, rfl⟩

theorem rootOnly_parsed (root : Tc.Prio) (iface : (rootOnly.env.node "pg1").iface = some root) : tcListing.Parsed root := by
  obtain rfl : (⟨2, Dict.empty, []⟩ : Tc.Prio) = root := Option.some.inj iface
  exact parsed_rootOnly 2

/-- Behind the root qdisc there are commands that nobody issues. -/
theorem rootOnly_recovers_iff :
    (∀ ip ms, oneDelayed.get? ip = some ms →
        Recovered (((applyNodeIn tcListing "pg1" oneDelayed).exec (init {}, rootOnly)).2.2.env.node "pg1").iface
          (((applyNodeIn tcListing "pg1" oneDelayed).exec (init {}, rootOnly)).2.1.getBandsForNode "pg1") ip ms) ↔
      oneDelayed.items = [] ∨ [Tc.Command.addPrio 2] = [] ∨ [.addPrio 2] = commandsOf oneDelayed :=
  applyNode_recovers_iff tcListing "pg1" oneDelayed (by decide) rootOnly_issued {} rootOnly (fun _ => rfl) rfl
    rootOnly_parsed

/-- The manager after it stores no band for the address, which stays undelayed. -/
theorem rootOnly_not_recovered : [.addPrio 2] <+: commandsOf oneDelayed ∧
    (rootOnly.env.node "pg1").iface = afterCommands [.addPrio 2] none ∧
    (∀ root, (rootOnly.env.node "pg1").iface = some root → tcListing.Parsed root) ∧
    oneDelayed.get? "10.0.0.2" = some 50 ∧
    ¬ Recovered (((applyNode "pg1" oneDelayed).exec (init {}, rootOnly)).2.2.env.node "pg1").iface
      (((applyNode "pg1" oneDelayed).exec (init {}, rootOnly)).2.1.getBandsForNode "pg1") "10.0.0.2" 50 := by
  refine ⟨rootOnly_issued, rfl, rootOnly_parsed, rfl, ?_⟩
  obtain ⟨found, ran, -⟩ := @exec_applyNodeIn_root tcListing "pg1" oneDelayed (init {}) rootOnly ⟨2, Dict.empty, []⟩
    (fun _ => rfl) rfl (parsed_rootOnly 2)
  rw [applyNodeIn_tcListing] at ran
  rw [ran]
  apply not_recovered
  · intro f member
    cases member
  · rfl

end Examples

end NetworkLatencyManager

end FaultStorm
