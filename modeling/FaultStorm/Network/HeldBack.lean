import FaultStorm.Network.Discovery
import FaultStorm.Network.InForce
import FaultStorm.Network.Neutral
import FaultStorm.Network.Teardown

/-!
# What is held back

The kill callback of freeze, drop and restore is to be called while the packets for some addresses
are held back. Packets are held in the `netem` qdisc of their class, so those for the other
addresses of a class are held with them; `apply` puts the nodes with the same delay into one class.
-/

namespace FaultStorm

open Python Cluster WatchedM NetworkLatency

/-- Whatever the callback is, it is called once, on the cluster with this interface of the node. -/
def CalledWith (c : Cluster) (node : String) (call : Option (ClusterM Unit) → WatchedM Unit) (iface : Tc.Iface) : Prop :=
  ∃ log rest, ∀ kill, (call kill).exec ⟨c, []⟩ =
    (do unlogged (callKill kill); rest : WatchedM Unit).exec ⟨c.setIface node iface, log⟩

/-! ## The bands that are frozen -/

section Held

variable {c : Cluster} {node : String} {targetIps : List String} {root : Tc.Prio}

/-- The classes of the addresses are frozen and the others are as they were. -/
structure HeldFor (root : Tc.Prio) (targetIps : List String) (held : Tc.Prio) : Prop where
  filters : held.filters = root.filters
  inside : ∀ n netem, Queues root targetIps n → root.netem.get? n = some netem →
    held.netem.get? n = some ⟨netem.handle, freezeDelayMs⟩
  outside : ∀ n, ¬ Queues root targetIps n → held.netem.get? n = root.netem.get? n

/-- The packets of a class that queues packets for the addresses are held back. -/
theorem HeldFor.delayTo_queued {held : Tc.Prio} (h : HeldFor root targetIps held) {addr : String}
    (queued : Queues root targetIps (root.classOf addr)) : Tc.delayTo (some held) addr = freezeDelayMs := by
  have same : held.classOf addr = root.classOf addr := by
    rw [Tc.Prio.classOf, Tc.Prio.classOf, h.filters]
  obtain ⟨ip, target, f, found, here, there⟩ := queued
  obtain ⟨netem, there⟩ := Option.isSome_iff_exists.mp there
  rw [Tc.delayTo, same, h.inside _ netem ⟨ip, target, f, found, here, by rw [there]; rfl⟩ there]

theorem HeldFor.delayTo_free {held : Tc.Prio} (h : HeldFor root targetIps held) {addr : String}
    (free : ¬ Queues root targetIps (root.classOf addr)) :
    Tc.delayTo (some held) addr = Tc.delayTo (some root) addr := by
  have same : held.classOf addr = root.classOf addr := by
    rw [Tc.Prio.classOf, Tc.Prio.classOf, h.filters]
  rw [Tc.delayTo, same, h.outside _ free, Tc.delayTo]

/-- What comes after the callback depends on the frozen bands only. -/
theorem freezeKillRestore_parts (node : String) (matched : List (String × BandInfo)) (preKillSleep : ℚ) :
    ∃ rest : Dict (List Char) BandInfo → WatchedM Unit, ∀ kill, freezeKillRestore node matched preKillSleep kill = (do
      let frozen ← freezeBands node matched Dict.empty
      sleep preKillSleep
      unlogged (callKill kill)
      rest frozen) :=
  ⟨_, fun _ => rfl⟩

/-- The callback is called when the matched bands are frozen. -/
theorem freezeKillRestore_calls {matched : List (String × BandInfo)} {preKillSleep : ℚ} (works : c.Works)
    (iface : (c.node node).iface = some root) (h : Matches (some root) targetIps matched) (waits : 0 ≤ preKillSleep) :
    ∃ held, CalledWith c node (freezeKillRestore node matched preKillSleep) (some held) ∧
      HeldFor root targetIps held := by
  have start : Stands c node root (Queues root targetIps) (heldView root []) ([].map freezeCommand) ⟨c, []⟩ :=
    ⟨works, ⟨root.netem, (setIface_self iface).symm, fun _ => rfl⟩, fun _ _ => rfl, rfl, by simp⟩
  have matches_live : ∀ x ∈ matched, ∃ item, x.2 = bandOf item ∧ root.netem.get? item.1 = some item.2 ∧
      Queues root targetIps item.1 := by
    intro x member
    obtain ⟨target, live⟩ := h.sound x member
    obtain ⟨f, netem, found, there, same⟩ := liveBand_eq_some.mp live
    exact ⟨(f.flowid, netem), same, there, x.1, target, f, found, rfl, by rw [there]; rfl⟩
  have nothing : (Dict.empty : Dict (List Char) BandInfo).items = frozenItems [] := rfl
  obtain ⟨l, frozen, t, ran, items, stands, -, live, found⟩ :=
    exec_freezeBands matched nothing matches_live (by simp) start
  obtain ⟨netem, env, reads⟩ := stands.reached
  have nodup : (l.map Prod.fst).Nodup := by
    have keys := frozen.nodup
    rw [items, frozenItems, List.map_map] at keys
    exact List.Nodup.of_map Tc.showClass (by rw [List.map_map]; exact keys)
  obtain ⟨rest, parts⟩ := freezeKillRestore_parts node matched preKillSleep
  refine ⟨{ root with netem }, ⟨t.log, rest frozen, fun kill => ?_⟩, rfl, fun n band queued there => ?_,
    fun n free => ?_⟩
  · rw [parts, Proc.exec_bind_ok ran, Proc.exec_bind_ok (exec_sleep waits t), ← env]
  · -- the band of the class is that of a target, so it was matched
    obtain ⟨ip, target, live_band⟩ := (queues_iff there).mp queued
    obtain ⟨item, among, same⟩ := found _ (h.complete ip target _ live_band)
    have class_eq : n = item.1 := showClass_injective (congrArg BandInfo.parent same)
    have netem_eq := (live item among).1
    rw [← class_eq, there] at netem_eq
    obtain rfl : item = (n, band) := Prod.ext class_eq.symm (Option.some.inj netem_eq).symm
    have there : l.lookup n = some band := (Dict.lookup_eq_some nodup).mpr among
    rw [reads, heldView, there]
  · exact (reads n).trans (stands.outside n free)

end Held

namespace NetworkLatencyManager

/-! ## The bands of an applied node -/

section Bands

variable {bands : Nat} {l : List Band} {root : Tc.Prio} {ipToBand : Dict String BandInfo} {dest : Dict String Int}

theorem showClass_hexMinor : ∀ bandIdx < 20, Tc.showClass (hexMinor bandIdx) = bandParent bandIdx := by decide

theorem Numbered.eq_of_hexMinor (h : Numbered l) {b b' : Band} (hb : b ∈ l) (hb' : b' ∈ l)
    (same : hexMinor b.2 = hexMinor b'.2) : b = b' :=
  List.inj_on_of_nodup_map h.nodup hb hb' (hexMinor_injective same)

/-- The band of a filter is the one that serves its address. -/
theorem Attached.band_of_filter (h : Attached bands l root ipToBand) {ip : String} {f : Tc.Filter}
    (found : root.filters.find? (·.dst = ip) = some f) : ∃ b ∈ l, b.Fits bands ∧ ip ∈ b.1.2 ∧ f.flowid = hexMinor b.2 := by
  obtain ⟨b, member, fits, dst, inside, eq⟩ := (h.filters f).mp (List.mem_of_find?_eq_some found)
  have same := List.find?_some found
  rw [eq] at same
  exact ⟨b, member, fits, of_decide_eq_true same ▸ inside, by rw [eq]⟩

/-- The stored bands are those that the filters queue in. -/
theorem Attached.get?_eq_liveBand (h : Attached bands l root ipToBand) (numbered : Numbered l) (ip : String) :
    ipToBand.get? ip = liveBand (some root) ip := by
  have info : ∀ b ∈ l, b.info = bandOf (hexMinor b.2, ⟨bandHandle b.2, b.1.1⟩) := by
    intro b member
    rw [bandOf, showClass_hexMinor _ (numbered.small b member).2]
    rfl
  apply Option.ext
  intro band
  rw [h.stored, liveBand_eq_some]
  constructor
  · rintro ⟨b, member, fits, inside, rfl⟩
    exact ⟨_, _, h.find_filter numbered member fits inside, (h.netem _ _).mpr ⟨b, member, fits, rfl, rfl⟩, info b member⟩
  · rintro ⟨f, netem, found, there, rfl⟩
    obtain ⟨b, member, fits, inside, flowid⟩ := h.band_of_filter found
    obtain ⟨b', member', -, number, rfl⟩ := (h.netem _ _).mp there
    obtain rfl := numbered.eq_of_hexMinor member member' (flowid.symm.trans number)
    exact ⟨b, member, fits, inside, by rw [flowid, info b member]⟩

/-- The packets for an address are queued with those for the targets if their delay is that of a target. -/
theorem Attached.queues_iff (h : Attached ((delayToIps dest).items.length + 1) (bandsOf dest) root ipToBand)
    (few : (delayToIps dest).items.length ≤ 8) {targetIps : List String} {addr : String} :
    Queues root targetIps (root.classOf addr) ↔
      ∃ ms, dest.get? addr = some ms ∧ ∃ ip ∈ targetIps, dest.get? ip = some ms := by
  have numbered : Numbered (bandsOf dest) := numbered_bandsOf (by omega)
  constructor
  · rintro ⟨ip, target, f, found, class_eq, -⟩
    obtain ⟨b, member, -, inside, flowid⟩ := h.band_of_filter found
    refine ⟨b.1.1, ?_, ip, target, (mem_bandsOf_ips member).mp inside⟩
    unfold Tc.Prio.classOf at class_eq
    cases matched : root.filters.find? (·.dst = addr) with
    | none =>
      -- the class of the priomap has no band
      have two := two_le_hexMinor (mem_bandsOf member).2.1
      rw [matched, flowid] at class_eq
      dsimp only at class_eq
      omega
    | some g =>
      obtain ⟨b', member', -, inside', flowid'⟩ := h.band_of_filter matched
      rw [matched, flowid] at class_eq
      obtain rfl := numbered.eq_of_hexMinor member member' (class_eq.trans flowid')
      exact (mem_bandsOf_ips member).mp inside'
  · rintro ⟨ms, delayed, ip, target, same⟩
    obtain ⟨b, member, inside, rfl⟩ := exists_bandsOf delayed
    have fits := fits_of_mem member few
    have other : ip ∈ b.1.2 := (mem_bandsOf_ips member).mpr same
    have netem := (h.netem (hexMinor b.2) _).mpr ⟨b, member, fits, rfl, rfl⟩
    rw [Tc.Prio.classOf, h.find_filter numbered member fits inside]
    exact ⟨ip, target, _, h.find_filter numbered member fits other, rfl, by rw [netem]; rfl⟩

end Bands

/-! ## After `apply` -/

section Applied

variable {config : TestConfig} {dcMap : DcMap} {start : Cluster} {m : NetworkLatencyManager} {w : World Cluster}

/-- The interface of a node and the bands stored for it serve what the node asks for. -/
def Installed (config : TestConfig) (dcMap : DcMap) (ip : String → Option String) (a : String) (iface : Tc.Iface)
    (stored : Dict String BandInfo) : Prop :=
  ∃ dest, Asks config dcMap ip a config.allNodes dest ∧
    (dest.items = [] ∧ iface = none ∧ stored = Dict.empty ∨
      ∃ root, iface = some root ∧ Attached ((delayToIps dest).items.length + 1) (bandsOf dest) root stored)

/-- The state in the loop of `apply` when the nodes of `rest` are still to be done. -/
structure Applied (config : TestConfig) (dcMap : DcMap) (start : Cluster) (rest : List String)
    (m : NetworkLatencyManager) (c : Cluster) : Prop where
  works : c.Works
  ip : c.ip = start.ip
  clean : ∀ n ∈ rest, ifaces c n = none ∧ m.getBandsForNode n = Dict.empty
  installed : ∀ n ∈ config.allNodes, n ∉ rest → Installed config dcMap start.ip n (ifaces c n) (m.getBandsForNode n)

theorem getBandsForNode_set_of_ne (m : NetworkLatencyManager) {node other : String} (ne : other ≠ node)
    (bands : Dict String BandInfo) :
    getBandsForNode { m with nodeBands := m.nodeBands.set node bands } other = m.getBandsForNode other := by
  rw [getBandsForNode, Dict.getD, Dict.get?_set, if_neg ne, getBandsForNode, Dict.getD]

/-- A node's turn. -/
theorem Applied.turn (fresh : Fresh config dcMap start)
    (few : ∀ a ∈ config.allNodes, (distinctDelays config dcMap a).card ≤ 8)
    (asked : ∀ a ∈ config.allNodes, ∀ b ∈ config.allNodes, a ≠ b →
      delayBetween config dcMap a b = expectedDelay config dcMap a b)
    {node : String} {rest : List String} (inside : node ∈ config.allNodes) (outside : node ∉ rest)
    (h : Applied config dcMap start (node :: rest) m w.env) :
    ∃ m' w', (configureNode config dcMap node).exec (m, w) = (.ok (), m', w') ∧
      Applied config dcMap start rest m' w'.env := by
  obtain ⟨dest, computed, asks⟩ := exec_destDelays h.works (h.ip ▸ fresh.distinct) (h.ip ▸ fresh.lookups) dcMap node
  rw [h.ip] at asks
  obtain ⟨⟨clean, bare⟩, later⟩ := List.forall_mem_cons.mp h.clean
  have before : ∀ n ∈ config.allNodes, n ∉ rest → n ≠ node →
      Installed config dcMap start.ip n (ifaces w.env n) (m.getBandsForNode n) := fun n known done ne =>
    h.installed n known fun member => (List.mem_cons.mp member).elim ne done
  rw [configureNode, Proc.exec_bind, exec_onCluster, computed]
  dsimp only
  by_cases nothing : dest.items.isEmpty = true
  · rw [if_pos nothing]
    refine ⟨m, w, rfl, h.works, h.ip, later, fun n known done => ?_⟩
    by_cases here : n = node
    · rw [here, clean, bare]
      exact ⟨dest, asks, Or.inl ⟨List.isEmpty_iff.mp nothing, rfl, rfl⟩⟩
    · exact before n known done here
  · have some_delay : dest.items ≠ [] := fun eq => nothing (List.isEmpty_iff.mpr eq)
    have size := asks.length_groups fresh (asked node inside)
    have bound := few node inside
    obtain ⟨root, ipToBand, ran, attached⟩ := exec_applyNode (m := m) h.works clean some_delay (by omega)
    rw [if_neg nothing, Proc.exec_bind_ok ran, exec_assign]
    refine ⟨_, _, rfl, h.works, h.ip, fun n member => ?_, fun n known done => ?_⟩
    · have ne : n ≠ node := fun eq => outside (eq ▸ member)
      obtain ⟨iface, bands⟩ := later n member
      exact ⟨(iface_setIface ..).trans ((if_neg ne).trans iface), (getBandsForNode_set_of_ne m ne ipToBand).trans bands⟩
    · by_cases here : n = node
      · refine ⟨dest, here ▸ asks, Or.inr ⟨root, (iface_setIface ..).trans (if_pos here), ?_⟩⟩
        rw [here]
        exact (getBandsForNode_set m node ipToBand).symm ▸ attached
      · have other := before n known done here
        rw [← getBandsForNode_set_of_ne m here ipToBand] at other
        rw [ifaces, iface_setIface, if_neg here]
        exact other

theorem Applied.run (fresh : Fresh config dcMap start)
    (few : ∀ a ∈ config.allNodes, (distinctDelays config dcMap a).card ≤ 8)
    (asked : ∀ a ∈ config.allNodes, ∀ b ∈ config.allNodes, a ≠ b →
      delayBetween config dcMap a b = expectedDelay config dcMap a b)
    {rest : List String} (nodup : rest.Nodup) (inside : rest ⊆ config.allNodes)
    (h : Applied config dcMap start rest m w.env) :
    ∃ m' w', (configureNodes config dcMap rest).exec (m, w) = (.ok (), m', w') ∧
      Applied config dcMap start [] m' w'.env := by
  induction rest generalizing m w with
  | nil => exact ⟨m, w, rfl, h⟩
  | cons node rest ih =>
    obtain ⟨outside, nodup⟩ := List.nodup_cons.mp nodup
    obtain ⟨here, inside⟩ := List.cons_subset.mp inside
    obtain ⟨m', w', ran, after⟩ := h.turn fresh few asked here outside
    obtain ⟨m'', w'', later, done⟩ := ih nodup inside after
    exact ⟨m'', w'', by rw [configureNodes, Proc.forEach_cons, Proc.exec_bind_ok ran]; exact later, done⟩

/-- Without configured delays, `apply` does what its loop would do. -/
theorem exec_apply_configureNodes (config : TestConfig) (dcMap : DcMap) (w : World Cluster) :
    (apply dcMap).exec (init config, w) = (configureNodes config dcMap config.allNodes).exec (init config, w) := by
  rw [exec_apply]
  by_cases idle : config.crossDcDelays.items.isEmpty ∧ config.dbZkDelayMs ≤ 0
  · rw [if_pos idle]
    symm
    rw [configureNodes]
    generalize config.allNodes = nodes
    induction nodes with
    | nil => rfl
    | cons node nodes ih => rw [Proc.forEach_cons, Proc.exec_bind_ok (configureNode_idle idle node _), ih]
  · rw [if_neg idle]

/-- A call that holds nothing back. -/
theorem calledWith_unheld (c : Cluster) (node : String) :
    CalledWith c node (fun kill => unlogged (callKill kill)) (ifaces c node) := by
  refine ⟨[], pure (), fun kill => ?_⟩
  have same : c.setIface node (ifaces c node) = c := setIface_self rfl
  rw [same, bind_pure_unit]

/-- The method of the manager holds back what its node delays as it delays one of the targets. -/
theorem Installed.calls {c : Cluster} {a : String} {ip : String → Option String} (works : c.Works)
    (installed : Installed config dcMap ip a (ifaces c a) (m.getBandsForNode a))
    (few : ∀ dest, Asks config dcMap ip a config.allNodes dest → (delayToIps dest).items.length ≤ 8)
    (targetIps : List String) {preKillSleep : ℚ} (waits : 0 ≤ preKillSleep) :
    ∃ iface dest, CalledWith c a (m.freezeDropRestoreForIps a targetIps preKillSleep) iface ∧
      Asks config dcMap ip a config.allNodes dest ∧ ∀ addr,
        ((∃ ms, dest.get? addr = some ms ∧ ∃ ip ∈ targetIps, dest.get? ip = some ms) →
          Tc.delayTo iface addr = freezeDelayMs) ∧
        ((¬ ∃ ms, dest.get? addr = some ms ∧ ∃ ip ∈ targetIps, dest.get? ip = some ms) →
          Tc.delayTo iface addr = dest.getD addr 0) := by
  let matched := (m.getBandsForNode a).items.filter fun x => decide (x.1 ∈ targetIps)
  have call : m.freezeDropRestoreForIps a targetIps preKillSleep = fun kill =>
      if matched.isEmpty then unlogged (callKill kill) else freezeKillRestore a matched preKillSleep kill := rfl
  obtain ⟨dest, asks, ⟨nothing, iface, bare⟩ | ⟨root, iface, attached⟩⟩ := installed
  · have missing : ∀ addr, dest.get? addr = none := by
      intro addr
      rw [Dict.get?, nothing]
      rfl
    have unmatched : matched.isEmpty = true := by
      simp only [matched, bare]
      rfl
    rw [call]
    simp only [if_pos unmatched]
    refine ⟨_, dest, calledWith_unheld c a, asks, fun addr => ⟨?_, fun _ => ?_⟩⟩
    · rintro ⟨ms, found, -⟩
      rw [missing] at found
      cases found
    · rw [iface, Dict.getD, missing]
      rfl
  · have bound := few dest asks
    have numbered : Numbered (bandsOf dest) := numbered_bandsOf (by omega)
    have stored := attached.get?_eq_liveBand numbered
    have h : Matches (some root) targetIps matched := by
      constructor
      · intro x member
        obtain ⟨item, target⟩ := List.mem_filter.mp member
        refine ⟨of_decide_eq_true target, ?_⟩
        rw [← stored, Dict.get?_eq_some]
        exact item
      · intro ip target band live
        rw [← stored, Dict.get?_eq_some] at live
        exact List.mem_filter.mpr ⟨live, decide_eq_true target⟩
    have delays : ∀ addr, Tc.delayTo (some root) addr = dest.getD addr 0 :=
      (attached.delivers (by omega)).few bound
    rw [call]
    by_cases empty : matched.isEmpty = true
    · have free := h.isEmpty_iff.mp empty
      simp only [if_pos empty]
      refine ⟨_, dest, calledWith_unheld c a, asks, fun addr => ⟨?_, fun _ => by rw [iface, delays]⟩⟩
      rintro ⟨ms, -, ip, target, found⟩
      obtain ⟨b, member, inside, -⟩ := exists_bandsOf found
      have live := (attached.stored ip b.info).mpr ⟨b, member, fits_of_mem member bound, inside, rfl⟩
      rw [stored, free ip target] at live
      cases live
    · simp only [if_neg empty]
      obtain ⟨held, called, frozen⟩ := freezeKillRestore_calls works iface h waits
      refine ⟨some held, dest, called, asks, fun addr => ⟨fun same => ?_, fun apart => ?_⟩⟩
      · exact frozen.delayTo_queued ((attached.queues_iff bound).mpr same)
      · rw [frozen.delayTo_free fun queued => apart ((attached.queues_iff bound).mp queued), delays]

/-- A call on `a` for some addresses holds back the packets for `b`: one of the addresses is that of a
node that `a` has the same delay to. -/
def HeldBack (config : TestConfig) (dcMap : DcMap) (ip : String → Option String) (targetIps : List String)
    (a b : String) : Prop :=
  0 < expectedDelay config dcMap a b ∧ ∃ t ∈ config.allNodes, a ≠ t ∧ (∃ addr ∈ targetIps, ip t = some addr) ∧
    expectedDelay config dcMap a t = expectedDelay config dcMap a b

instance (config : TestConfig) (dcMap : DcMap) (ip : String → Option String) (targetIps : List String) (a b : String) :
    Decidable (HeldBack config dcMap ip targetIps a b) := inferInstanceAs (Decidable (_ ∧ _))

/-- Where the configured latency is in force, the callback of the manager's method is called while
exactly the packets for the nodes at the distance of a target are held back, and with the other
packets delayed as configured. -/
theorem freeze_holdsBack (fresh : Fresh config dcMap w.env)
    (few : ∀ a ∈ config.allNodes, (distinctDelays config dcMap a).card ≤ 8)
    (named : ∀ a ∈ config.allNodes, ∀ b ∈ config.allNodes, a ≠ b → Unnamed dcMap a b → crossDelay config dcMap a b = 0)
    {a : String} (inside : a ∈ config.allNodes) (targetIps : List String) {preKillSleep : ℚ} (waits : 0 ≤ preKillSleep) :
    let s := ((apply dcMap).exec (init config, w)).2
    ∃ iface, CalledWith s.2.env a (s.1.freezeDropRestoreForIps a targetIps preKillSleep) iface ∧
      ∀ b ∈ config.allNodes, a ≠ b → ∀ addr, w.env.ip b = some addr → Tc.delayTo iface addr =
        if HeldBack config dcMap w.env.ip targetIps a b then freezeDelayMs else expectedDelay config dcMap a b := by
  have asked : ∀ a ∈ config.allNodes, ∀ b ∈ config.allNodes, a ≠ b →
      delayBetween config dcMap a b = expectedDelay config dcMap a b := by
    intro a ha b hb ne
    rw [delayBetween_eq fresh, expectedDelay]
    split
    · rename_i unnamed
      rw [named a ha b hb ne unnamed]
    · rfl
  have start : Applied config dcMap w.env config.allNodes (init config) w.env :=
    ⟨fresh.works, rfl, fun n member => ⟨fresh.clean n member, rfl⟩, fun n member outside => absurd member outside⟩
  obtain ⟨m, w', ran, done⟩ := start.run fresh few asked (fresh.addresses.of_map _) (List.Subset.refl _)
  rw [exec_apply_configureNodes, ran]
  have size : ∀ dest, Asks config dcMap w.env.ip a config.allNodes dest → (delayToIps dest).items.length ≤ 8 := by
    intro dest asks
    rw [asks.length_groups fresh (asked a inside)]
    exact few a inside
  obtain ⟨iface, dest, called, asks, delays⟩ :=
    (done.installed a inside List.not_mem_nil).calls done.works size targetIps waits
  refine ⟨iface, called, fun b hb ne addr known => ?_⟩
  -- the entries of `dest` are the positive delays to the nodes
  have entry : ∀ t ∈ config.allNodes, a ≠ t → ∀ addr, w.env.ip t = some addr → ∀ ms,
      dest.get? addr = some ms ↔ expectedDelay config dcMap a t = ms ∧ 0 < ms := by
    intro t ht apart addr known ms
    rw [asks addr ms]
    constructor
    · rintro ⟨x, hx, -, also, delay, pos⟩
      obtain rfl := fresh.own_address hx ht (also.trans known.symm)
      exact ⟨asked a inside x hx apart ▸ delay, pos⟩
    · rintro ⟨delay, pos⟩
      exact ⟨t, ht, apart.symm, known, (asked a inside t ht apart).trans delay, pos⟩
  have same : (∃ ms, dest.get? addr = some ms ∧ ∃ ip ∈ targetIps, dest.get? ip = some ms) ↔
      HeldBack config dcMap w.env.ip targetIps a b := by
    constructor
    · rintro ⟨ms, delayed, ip, target, found⟩
      obtain ⟨rfl, pos⟩ := (entry b hb ne addr known ms).mp delayed
      obtain ⟨t, ht, apart, also, delay, -⟩ := (asks ip _).mp found
      exact ⟨pos, t, ht, apart.symm, ⟨ip, target, also⟩, (asked a inside t ht apart.symm).symm.trans delay⟩
    · rintro ⟨pos, t, ht, apart, ⟨ip, target, also⟩, delay⟩
      exact ⟨_, (entry b hb ne addr known _).mpr ⟨rfl, pos⟩, ip, target, (entry t ht apart ip also _).mpr ⟨delay, pos⟩⟩
  by_cases held : HeldBack config dcMap w.env.ip targetIps a b
  · rw [if_pos held, (delays addr).1 (same.mpr held)]
  · rw [if_neg held, (delays addr).2 fun h => held (same.mp h), asks.getD fresh hb ne known, asked a inside b hb ne]

/-- A node in a DC of its own, and two in another. -/
def nearPair : TestConfig where
  dbNodes := ["pg0", "pg1", "pg2"]
  crossDcDelays := Dict.ofPairs [(("dc0", "dc1"), 50)]

def nearPairMap : DcMap := Dict.ofPairs [("dc0", ["pg0"]), ("dc1", ["pg1", "pg2"])]

/-- The packets for `pg1` cannot be held back without those for `pg2`. -/
theorem nearPair_holdsBack :
    let s := ((apply nearPairMap).exec (init nearPair, ⟨fun _ => 0, tenNodes⟩)).2
    ∃ iface, CalledWith s.2.env "pg0" (s.1.freezeDropRestoreForIps "pg0" ["10.0.0.2"] 5) iface ∧
      ∀ b ∈ nearPair.allNodes, "pg0" ≠ b → ∀ addr, tenNodes.ip b = some addr → Tc.delayTo iface addr = 99999 := by
  have fresh : Fresh nearPair nearPairMap tenNodes :=
    ⟨fun _ => rfl, by decide, by decide, fun _ _ => rfl, by decide, by decide, by decide, by decide⟩
  have waits : (0 : ℚ) ≤ 5 := by norm_num
  obtain ⟨iface, called, delays⟩ := freeze_holdsBack (w := ⟨fun _ => 0, tenNodes⟩) fresh (by decide) (by decide)
    (a := "pg0") (by decide) ["10.0.0.2"] waits
  have both : ∀ b ∈ nearPair.allNodes, "pg0" ≠ b → HeldBack nearPair nearPairMap tenNodes.ip ["10.0.0.2"] "pg0" b := by
    decide
  refine ⟨iface, called, fun b hb ne addr known => ?_⟩
  rw [delays b hb ne addr known, if_pos (both b hb ne)]
  rfl

end Applied

/-! ## The callback of the function -/

section Parsing

variable {c : Cluster} {node : String} {targetIps : List String}

theorem mem_tempRoot {f : Tc.Filter} : f ∈ (tempRoot targetIps).filters ↔ ∃ ip ∈ targetIps, f = ⟨2, ip, 2⟩ := by
  rw [tempRoot, mem_foldl_insertFilter]
  simp

/-- The temporary rules hold back the packets for the targets. -/
theorem delayTo_tempRoot (targetIps : List String) (addr : String) :
    Tc.delayTo (some (tempRoot targetIps)) addr = if addr ∈ targetIps then freezeDelayMs else 0 := by
  have default : (tempRoot targetIps).netem.get? 1 = none := by
    rw [tempRoot, Dict.get?_set, if_neg (by decide), Dict.get?_empty]
  have frozen : (tempRoot targetIps).netem.get? 2 = some ⟨"20:".toList, freezeDelayMs⟩ := by
    rw [tempRoot, Dict.get?_set_self]
  cases found : (tempRoot targetIps).filters.find? (·.dst = addr) with
  | none =>
    have outside : addr ∉ targetIps := by
      intro target
      have missed := List.find?_eq_none.mp found _ (mem_tempRoot.mpr ⟨addr, target, rfl⟩)
      simp at missed
    rw [Tc.delayTo, Tc.Prio.classOf, found, if_neg outside]
    dsimp only
    rw [default]
  | some f =>
    obtain ⟨ip, target, eq⟩ := mem_tempRoot.mp (List.mem_of_find?_eq_some found)
    have same := List.find?_some found
    rw [eq] at found same
    obtain rfl : ip = addr := of_decide_eq_true same
    rw [Tc.delayTo, Tc.Prio.classOf, found, if_pos target]
    dsimp only
    rw [frozen]

/-- The callback of the function of the module is called while the packets for the targets are held
back if the node has no root qdisc. If it has one, nothing is read from its filters, no temporary
rules can be created beside it, and nothing is held back. -/
theorem parsing_holdsBack (works : c.Works)
    (readable : ∀ root, (c.node node).iface = some root → ∀ item ∈ root.netem.items, Printable item)
    (targetIps : List String) {preKillSleep : ℚ} (waits : 0 ≤ preKillSleep) :
    ∃ iface, CalledWith c node (FaultStorm.freezeDropRestoreForIps discoverBandsForIps node targetIps preKillSleep) iface ∧
      ∀ addr, Tc.delayTo iface addr =
        if (c.node node).iface.isNone ∧ addr ∈ targetIps then freezeDelayMs else Tc.delayTo (c.node node).iface addr := by
  have nothing : (discoverBandsForIps node targetIps).exec c = (.ok Dict.empty, c) := by
    cases iface : (c.node node).iface with
    | none => rw [exec_discover_clean iface, works.after]
    | some root => exact exec_discoverBandsForIps works iface (readable root iface) targetIps
  have discovered : (unlogged (discoverBandsForIps node targetIps)).exec ⟨c, []⟩ = (.ok Dict.empty, ⟨c, []⟩) := by
    have called : (unlogged (discoverBandsForIps node targetIps)).exec ⟨c, []⟩ =
        (((discoverBandsForIps node targetIps).exec c).1, ⟨((discoverBandsForIps node targetIps).exec c).2, []⟩) := rfl
    rw [called, nothing]
  have path : ∀ kill, (FaultStorm.freezeDropRestoreForIps discoverBandsForIps node targetIps preKillSleep kill).exec ⟨c, []⟩ =
      (do
        let tempCreated ← createTempNetemFreeze node targetIps
        sleep preKillSleep
        unlogged (callKill kill)
        if tempCreated then removeTempNetemFreeze node : WatchedM Unit).exec ⟨c, []⟩ := by
    intro kill
    rw [FaultStorm.freezeDropRestoreForIps, Proc.exec_bind_ok discovered]
    rfl
  cases iface : (c.node node).iface with
  | none =>
    obtain ⟨log, created⟩ := exec_createTemp targetIps works iface
    refine ⟨some (tempRoot targetIps), ⟨log, removeTempNetemFreeze node, fun kill => ?_⟩, fun addr => ?_⟩
    · rw [path, Proc.exec_bind_ok created, Proc.exec_bind_ok (exec_sleep waits _)]
      rfl
    · rw [delayTo_tempRoot]
      simp [Tc.delayTo]
  | some root =>
    refine ⟨some root, ⟨[] ++ [(.addPrio 2, some root)], pure (), fun kill => ?_⟩, fun addr => ?_⟩
    · rw [path, Proc.exec_bind_ok (exec_createTemp_root (s := ⟨c, []⟩) works iface), Proc.exec_bind_ok (exec_sleep waits _),
        setIface_self iface]
      rfl
    · simp

/-- On a clean node. -/
theorem clean_holdsBack : ∃ iface,
    CalledWith oneHeld "pg2" (FaultStorm.freezeDropRestoreForIps discoverBandsForIps "pg2" ["10.0.0.1"] 5) iface ∧
      ∀ addr, Tc.delayTo iface addr = if addr = "10.0.0.1" then 99999 else 0 := by
  have readable : ∀ root, (oneHeld.node "pg2").iface = some root → ∀ item ∈ root.netem.items, Printable item := by
    rintro root ⟨⟩
  have works : oneHeld.Works := fun _ => rfl
  have waits : (0 : ℚ) ≤ 5 := by norm_num
  obtain ⟨iface, called, delays⟩ := parsing_holdsBack works readable ["10.0.0.1"] waits
  refine ⟨iface, called, fun addr => ?_⟩
  have clean : (oneHeld.node "pg2").iface.isNone = true := by decide
  rw [delays addr]
  simp only [clean, true_and, List.mem_singleton]
  rfl

end Parsing

end NetworkLatencyManager

end FaultStorm
