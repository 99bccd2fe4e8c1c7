import FaultStorm.Network.Bands
import Mathlib.Data.Finset.Card
import Mathlib.Data.String.Basic

/-!
# The configured latency in force

What `apply` installs, compared with the delays the configuration asks for. A node delays its
packets as asked if it needs eight distinct delays at most; with more, a band is attached to
a class that does not exist, or there is no root qdisc at all.
-/

namespace FaultStorm

open Python Cluster NetworkLatency

namespace NetworkLatencyManager

/-! ## The delays of a node -/

section Node

variable {bands : Nat} {l : List Band} {root : Tc.Prio} {ipToBand : Dict String BandInfo} {ip : String}

/-- The packets for an address of a band that fits have its delay. -/
theorem Attached.delayTo_served (h : Attached bands l root ipToBand) (numbered : Numbered l) {b : Band}
    (member : b ∈ l) (fits : b.Fits bands) (inside : ip ∈ b.1.2) : Tc.delayTo (some root) ip = b.1.1 := by
  have netem : root.netem.get? (hexMinor b.2) = some ⟨bandHandle b.2, b.1.1⟩ :=
    (h.netem _ _).mpr ⟨b, member, fits, rfl, rfl⟩
  have class_of : root.classOf ip = hexMinor b.2 := by
    rw [Tc.Prio.classOf, h.find_filter numbered member fits inside]
  rw [Tc.delayTo, class_of, netem]

/-- The packets for any other address are not delayed. -/
theorem Attached.delayTo_unserved (h : Attached bands l root ipToBand) (numbered : Numbered l)
    (outside : ∀ b ∈ l, b.Fits bands → ip ∉ b.1.2) : Tc.delayTo (some root) ip = 0 := by
  have class_of : root.classOf ip = 1 := by
    unfold Tc.Prio.classOf
    cases found : root.filters.find? (·.dst = ip) with
    | none => rfl
    | some f =>
      have matched := List.find?_some found
      obtain ⟨x, among, fits, other, also, rfl⟩ := (h.filters f).mp (List.mem_of_find?_eq_some found)
      have same : other = ip := by simpa using matched
      exact absurd (same ▸ also) (outside x among fits)
  have netem : root.netem.get? 1 = none := by
    rw [Option.eq_none_iff_forall_ne_some]
    intro n there
    obtain ⟨x, among, -, minor, -⟩ := (h.netem _ _).mp there
    have two := two_le_hexMinor (numbered.small x among).1
    omega
  rw [Tc.delayTo, class_of, netem]

end Node

/-- How an interface delays the packets of a node that needs the delays `dest`: as asked with at
most eight distinct ones, with more it fails for one of them, and it never delays a packet by
anything else. -/
structure Delivers (dest : Dict String Int) (iface : Tc.Iface) : Prop where
  few : (delayToIps dest).items.length ≤ 8 → ∀ ip, Tc.delayTo iface ip = dest.getD ip 0
  many : 8 < (delayToIps dest).items.length → ∃ ip ms, dest.get? ip = some ms ∧ Tc.delayTo iface ip = 0
  any : ∀ ip, Tc.delayTo iface ip = dest.getD ip 0 ∨ Tc.delayTo iface ip = 0

section Delivers

variable {dest : Dict String Int} {root : Tc.Prio} {ipToBand : Dict String BandInfo}

/-- The first band that does not fit, where there are more than eight. -/
theorem exists_unfit (many : 8 < (delayToIps dest).items.length) (few : (delayToIps dest).items.length ≤ 15) :
    ∃ b ∈ bandsOf dest, ¬ b.Fits ((delayToIps dest).items.length + 1) := by
  have band : ∀ i, (inside : i < (delayToIps dest).items.length) →
      ((delayToIps dest).items[i], i + 2) ∈ bandsOf dest := by
    intro i inside
    rw [bandsOf, List.mem_zipIdx_iff_le_and_getElem?_sub]
    exact ⟨by omega, by simp⟩
  by_cases all : (delayToIps dest).items.length = 15
  · refine ⟨_, band 9 (by omega), ?_⟩
    show ¬ hexMinor 11 ≤ _
    have minor : hexMinor 11 = 17 := rfl
    omega
  · refine ⟨_, band 8 (by omega), ?_⟩
    show ¬ hexMinor 10 ≤ _
    have minor : hexMinor 10 = 16 := rfl
    omega

theorem Attached.delivers
    (h : Attached ((delayToIps dest).items.length + 1) (bandsOf dest) root ipToBand)
    (few : (delayToIps dest).items.length ≤ 15) : Delivers dest (some root) := by
  have numbered : Numbered (bandsOf dest) := numbered_bandsOf (by omega)
  -- Every address with a delay has one band, and its packets have the delay of that band if it fits.
  have delayed : ∀ ip ms, dest.get? ip = some ms → ∃ b ∈ bandsOf dest, ip ∈ b.1.2 ∧ b.1.1 = ms ∧
      (b.Fits ((delayToIps dest).items.length + 1) → Tc.delayTo (some root) ip = ms) ∧
      (¬ b.Fits ((delayToIps dest).items.length + 1) → Tc.delayTo (some root) ip = 0) := by
    intro ip ms found
    obtain ⟨b, member, inside, rfl⟩ := exists_bandsOf found
    refine ⟨b, member, inside, rfl, fun fits => h.delayTo_served numbered member fits inside, fun unfit => ?_⟩
    refine h.delayTo_unserved numbered fun x among fits also => unfit ?_
    rwa [← numbered.apart x among b member ip also inside]
  have other : ∀ ip, dest.get? ip = none → Tc.delayTo (some root) ip = 0 := by
    intro ip missing
    refine h.delayTo_unserved numbered fun x among _ inside => ?_
    rw [mem_bandsOf_ips among, missing] at inside
    cases inside
  constructor
  · intro le ip
    cases found : dest.get? ip with
    | none => rw [other ip found, Dict.getD, found, Option.getD_none]
    | some ms =>
      obtain ⟨b, member, -, -, served, -⟩ := delayed ip ms found
      rw [served (fits_of_mem member le), Dict.getD, found, Option.getD_some]
  · intro many
    obtain ⟨b, member, unfit⟩ := exists_unfit many few
    obtain ⟨ip, inside, found⟩ := exists_delayed member
    obtain ⟨x, among, also, -, -, unserved⟩ := delayed ip _ found
    refine ⟨ip, b.1.1, found, unserved ?_⟩
    rwa [numbered.apart x among b member ip also inside]
  · intro ip
    cases found : dest.get? ip with
    | none => exact Or.inr (other ip found)
    | some ms =>
      obtain ⟨b, -, -, -, served, unserved⟩ := delayed ip ms found
      by_cases fits : b.Fits ((delayToIps dest).items.length + 1)
      · exact Or.inl (by rw [served fits, Dict.getD, found, Option.getD_some])
      · exact Or.inr (unserved fits)

/-- Nothing is installed. -/
theorem delivers_none (size : dest.items = [] ∨ 15 < (delayToIps dest).items.length) : Delivers dest none := by
  constructor
  · intro le ip
    rcases size with empty | many
    · rw [Dict.getD, Dict.get?, empty]
      rfl
    · omega
  · intro many
    obtain ⟨b, member⟩ : ∃ b, b ∈ bandsOf dest := by
      apply List.exists_mem_of_length_pos
      rw [bandsOf, List.length_zipIdx]
      omega
    obtain ⟨ip, -, found⟩ := exists_delayed member
    exact ⟨ip, b.1.1, found, rfl⟩
  · exact fun ip => Or.inr rfl

end Delivers

/-! ## What the configuration asks for -/

/-- The DC of a node. -/
def dcOf (dcMap : DcMap) (node : String) : Option String :=
  (dcMap.items.find? (node ∈ ·.2)).map (·.1)

/-- The configured delay between two DCs, listed in either order. -/
def crossDcDelay (config : TestConfig) (dc otherDc : String) : Int :=
  if dc = otherDc then 0
  else ((config.crossDcDelays.items.find? fun item => item.1 = (dc, otherDc) ∨ item.1 = (otherDc, dc)).map
    (·.2)).getD 0

/-- The cross-DC delay of two nodes. -/
def crossDelay (config : TestConfig) (dcMap : DcMap) (a b : String) : Int :=
  match dcOf dcMap a, dcOf dcMap b with
  | some dc, some otherDc => crossDcDelay config dc otherDc
  | _, _ => 0

/-- One of the nodes is a db node and the other an extra node. -/
def DbAndExtra (config : TestConfig) (a b : String) : Prop :=
  (a ∈ config.dbNodes ∧ b ∈ config.extraNodes) ∨ (a ∈ config.extraNodes ∧ b ∈ config.dbNodes)

instance (config : TestConfig) (a b : String) : Decidable (DbAndExtra config a b) :=
  inferInstanceAs (Decidable (_ ∨ _))

/-- The delay asked for the packets from one node to another. -/
def expectedDelay (config : TestConfig) (dcMap : DcMap) (a b : String) : Int :=
  crossDelay config dcMap a b + if DbAndExtra config a b then config.dbZkDelayMs else 0

/-- The distinct delays asked for the packets from a node. -/
def distinctDelays (config : TestConfig) (dcMap : DcMap) (a : String) : Finset Int :=
  ((config.allNodes.filter (· ≠ a)).map (expectedDelay config dcMap a)).toFinset.filter (0 < ·)

/-- One of the nodes is in a DC without a name, which `apply` takes for no DC. -/
def Unnamed (dcMap : DcMap) (a b : String) : Prop := dcOf dcMap a = some "" ∨ dcOf dcMap b = some ""

instance (dcMap : DcMap) (a b : String) : Decidable (Unnamed dcMap a b) := inferInstanceAs (Decidable (_ ∨ _))

/-- A configuration, a DC map and a cluster that fit: no delay is negative, each DC pair is listed
once, each node is in at most one DC, and docker works on nodes with addresses of their own and
no root qdisc. -/
structure Fresh (config : TestConfig) (dcMap : DcMap) (c : Cluster) : Prop where
  works : c.Works
  lookups : ∀ n ∈ config.allNodes, (c.ip n).isSome
  addresses : (config.allNodes.map c.ip).Nodup
  clean : ∀ n ∈ config.allNodes, (c.node n).iface = none
  crossDc : ∀ item ∈ config.crossDcDelays.items, 0 ≤ item.2
  dbZk : 0 ≤ config.dbZkDelayMs
  listedOnce : (config.crossDcDelays.items.map fun item => normaliseDcPair item.1.1 item.1.2).Nodup
  oneDc : ∀ x ∈ dcMap.items, ∀ y ∈ dcMap.items, ∀ n ∈ x.2, n ∈ y.2 → x = y

section Expected

variable {config : TestConfig} {dcMap : DcMap}

/-- Two keys are the same after normalisation if they name the same DCs. -/
theorem normaliseDcPair_eq_iff {a b c d : String} :
    normaliseDcPair a b = normaliseDcPair c d ↔ (a, b) = (c, d) ∨ (a, b) = (d, c) := by
  unfold normaliseDcPair
  constructor
  · intro same
    split at same <;> split at same <;> cases same
    · exact Or.inl rfl
    · exact Or.inr rfl
    · exact Or.inr rfl
    · exact Or.inl rfl
  · rintro (same | same) <;> cases same
    · rfl
    · rcases lt_trichotomy a b with lt | rfl | gt
      · rw [if_neg (not_lt_of_gt lt), if_pos lt]
      · rfl
      · rw [if_pos gt, if_neg (not_lt_of_gt gt)]

/-- The pairs of a node and its DC that the DC map is inverted to. -/
theorem mem_nodeDc_pairs {p : String × String} :
    p ∈ (dcMap.items.flatMap fun (dc, nodes) => nodes.map (·, dc)) ↔ ∃ x ∈ dcMap.items, p.1 ∈ x.2 ∧ x.1 = p.2 := by
  obtain ⟨node, dc⟩ := p
  simp only [List.mem_flatMap, List.mem_map, Prod.mk.injEq]
  constructor
  · rintro ⟨x, member, n, inside, rfl, rfl⟩
    exact ⟨x, member, inside, rfl⟩
  · rintro ⟨x, member, inside, rfl⟩
    exact ⟨x, member, node, inside, rfl, rfl⟩

theorem get?_nodeDc_eq_some (oneDc : ∀ x ∈ dcMap.items, ∀ y ∈ dcMap.items, ∀ n ∈ x.2, n ∈ y.2 → x = y)
    {node dc : String} : (nodeDc dcMap).get? node = some dc ↔ ∃ x ∈ dcMap.items, node ∈ x.2 ∧ x.1 = dc := by
  rw [nodeDc, Dict.get?_ofPairs_eq_some, mem_nodeDc_pairs]
  intro p hp q hq key
  obtain ⟨x, hx, inside, first⟩ := mem_nodeDc_pairs.mp hp
  obtain ⟨y, hy, there, second⟩ := mem_nodeDc_pairs.mp hq
  rw [← first, ← second, oneDc x hx y hy p.1 inside (key ▸ there)]

theorem nodeDc_eq (oneDc : ∀ x ∈ dcMap.items, ∀ y ∈ dcMap.items, ∀ n ∈ x.2, n ∈ y.2 → x = y) (node : String) :
    (nodeDc dcMap).get? node = dcOf dcMap node := by
  unfold dcOf
  cases found : dcMap.items.find? (node ∈ ·.2) with
  | none =>
    rw [Option.map_none, Option.eq_none_iff_forall_ne_some]
    intro dc got
    obtain ⟨x, member, inside, -⟩ := (get?_nodeDc_eq_some oneDc).mp got
    have missed := List.find?_eq_none.mp found x member
    simp [inside] at missed
  | some x =>
    have member := List.mem_of_find?_eq_some found
    have inside : node ∈ x.2 := by simpa using List.find?_some found
    exact (get?_nodeDc_eq_some oneDc).mpr ⟨x, member, inside, rfl⟩

theorem get?_delays_eq_some
    (listedOnce : (config.crossDcDelays.items.map fun item => normaliseDcPair item.1.1 item.1.2).Nodup)
    {key : String × String} {ms : Int} : (delays config).get? key = some ms ↔
      ∃ item ∈ config.crossDcDelays.items, normaliseDcPair item.1.1 item.1.2 = key ∧ item.2 = ms := by
  rw [delays, Dict.get?_ofPairs_eq_some, List.mem_map]
  · simp only [Prod.mk.injEq]
  · intro p hp q hq same
    obtain ⟨x, hx, rfl⟩ := List.mem_map.mp hp
    obtain ⟨y, hy, rfl⟩ := List.mem_map.mp hq
    rw [List.inj_on_of_nodup_map listedOnce hx hy same]

theorem delays_getD (listedOnce : (config.crossDcDelays.items.map fun item => normaliseDcPair item.1.1 item.1.2).Nodup)
    {dc otherDc : String} (apart : dc ≠ otherDc) :
    (delays config).getD (normaliseDcPair dc otherDc) 0 = crossDcDelay config dc otherDc := by
  have named : ∀ item : (String × String) × Int,
      normaliseDcPair item.1.1 item.1.2 = normaliseDcPair dc otherDc ↔
        item.1 = (dc, otherDc) ∨ item.1 = (otherDc, dc) := fun item => normaliseDcPair_eq_iff
  unfold crossDcDelay Dict.getD
  rw [if_neg apart]
  cases found : config.crossDcDelays.items.find? fun item => item.1 = (dc, otherDc) ∨ item.1 = (otherDc, dc) with
  | none =>
    have missing : (delays config).get? (normaliseDcPair dc otherDc) = none := by
      rw [Option.eq_none_iff_forall_ne_some]
      intro ms got
      obtain ⟨item, member, same, -⟩ := (get?_delays_eq_some listedOnce).mp got
      have missed := List.find?_eq_none.mp found item member
      simp only [decide_eq_true_eq] at missed
      exact missed ((named item).mp same)
    rw [missing]
    rfl
  | some item =>
    have member := List.mem_of_find?_eq_some found
    have same := (named item).mpr (by simpa using List.find?_some found)
    rw [(get?_delays_eq_some listedOnce).mpr ⟨item, member, same, rfl⟩]
    rfl

theorem crossDcDelay_nonneg (nonneg : ∀ item ∈ config.crossDcDelays.items, 0 ≤ item.2) (dc otherDc : String) :
    0 ≤ crossDcDelay config dc otherDc := by
  unfold crossDcDelay
  split
  · exact le_refl 0
  · cases found : config.crossDcDelays.items.find? fun item => item.1 = (dc, otherDc) ∨ item.1 = (otherDc, dc) with
    | none => exact le_refl 0
    | some item => exact nonneg item (List.mem_of_find?_eq_some found)

theorem crossDelay_nonneg (dcMap : DcMap) (nonneg : ∀ item ∈ config.crossDcDelays.items, 0 ≤ item.2) (a b : String) :
    0 ≤ crossDelay config dcMap a b := by
  unfold crossDelay
  split
  · exact crossDcDelay_nonneg nonneg _ _
  · exact le_refl 0

/-- `apply` computes the delay that is asked for, unless a DC has no name. -/
theorem delayBetween_eq {c : Cluster} (fresh : Fresh config dcMap c) (a b : String) :
    delayBetween config dcMap a b =
      (if Unnamed dcMap a b then 0 else crossDelay config dcMap a b) +
        if DbAndExtra config a b then config.dbZkDelayMs else 0 := by
  have cross : (match (nodeDc dcMap).get? a, (nodeDc dcMap).get? b with
      | some dc, some otherDc =>
        if dc ≠ "" ∧ otherDc ≠ "" ∧ dc ≠ otherDc then (delays config).getD (normaliseDcPair dc otherDc) 0 else 0
      | _, _ => 0) = if Unnamed dcMap a b then 0 else crossDelay config dcMap a b := by
    rw [nodeDc_eq fresh.oneDc, nodeDc_eq fresh.oneDc]
    have unnamed : Unnamed dcMap a b ↔ dcOf dcMap a = some "" ∨ dcOf dcMap b = some "" := Iff.rfl
    have asked : crossDelay config dcMap a b = match dcOf dcMap a, dcOf dcMap b with
      | some dc, some otherDc => crossDcDelay config dc otherDc
      | _, _ => 0 := rfl
    rcases one : dcOf dcMap a with _ | dc
    · rw [one] at asked
      rw [asked, ite_self]
    rcases two : dcOf dcMap b with _ | otherDc
    · rw [one, two] at asked
      rw [asked, ite_self]
    rw [one, two] at asked
    rw [one, two, Option.some.injEq, Option.some.injEq] at unnamed
    replace asked : crossDelay config dcMap a b = crossDcDelay config dc otherDc := asked
    dsimp only
    by_cases lost : Unnamed dcMap a b
    · rw [if_pos lost, if_neg]
      rintro ⟨named, named', -⟩
      exact (unnamed.mp lost).elim named named'
    · rw [if_neg lost, asked]
      rw [unnamed, not_or] at lost
      by_cases same : dc = otherDc
      · rw [if_neg fun h => h.2.2 same, crossDcDelay, if_pos same]
      · rw [if_pos ⟨lost.1, lost.2, same⟩, delays_getD fresh.listedOnce same]
  have dbZk : (if config.dbZkDelayMs > 0 then if DbAndExtra config a b then config.dbZkDelayMs else 0 else 0) =
      if DbAndExtra config a b then config.dbZkDelayMs else 0 := by
    have nonneg := fresh.dbZk
    split
    · rfl
    · split <;> omega
  rw [← cross, ← dbZk]
  rfl

theorem delayBetween_nonneg {c : Cluster} (fresh : Fresh config dcMap c) (a b : String) :
    0 ≤ delayBetween config dcMap a b := by
  have cross := crossDelay_nonneg dcMap fresh.crossDc a b
  have dbZk := fresh.dbZk
  rw [delayBetween_eq fresh]
  split <;> split <;> omega

end Expected

/-! ## The run of `apply` -/

section Run

variable {config : TestConfig} {dcMap : DcMap} {start c : Cluster}

/-- The delays of the addresses that a node must delay its packets for, the other nodes being those
of a list. -/
def Asks (config : TestConfig) (dcMap : DcMap) (ip : String → Option String) (a : String) (l : List String)
    (dest : Dict String Int) : Prop :=
  ∀ addr ms, dest.get? addr = some ms ↔
    ∃ b ∈ l, b ≠ a ∧ ip b = some addr ∧ delayBetween config dcMap a b = ms ∧ 0 < ms

theorem Asks.skip {ip : String → Option String} {a other : String} {done : List String} {dest : Dict String Int}
    (asks : Asks config dcMap ip a done dest) (none : other = a ∨ ¬ 0 < delayBetween config dcMap a other) :
    Asks config dcMap ip a (done ++ [other]) dest := by
  intro addr ms
  rw [exists_mem_append_singleton, asks, or_iff_left]
  rintro ⟨ne, -, rfl, pos⟩
  exact none.elim ne fun h => h pos

theorem Asks.add {ip : String → Option String} {a other addr : String} {done : List String} {dest : Dict String Int}
    (asks : Asks config dcMap ip a done dest) (ne : other ≠ a) (pos : 0 < delayBetween config dcMap a other)
    (known : ip other = some addr) (own : ∀ b ∈ done, ip b = some addr → b = other) :
    Asks config dcMap ip a (done ++ [other]) (dest.set addr (delayBetween config dcMap a other)) := by
  intro addr' ms
  rw [exists_mem_append_singleton, Dict.get?_set]
  by_cases here : addr' = addr
  · subst here
    rw [if_pos rfl, Option.some.injEq]
    constructor
    · rintro rfl
      exact Or.inr ⟨ne, known, rfl, pos⟩
    · rintro (⟨b, member, -, same, delay, -⟩ | ⟨-, -, delay, -⟩)
      · rw [← own b member same]
        exact delay
      · exact delay
  · rw [if_neg here, asks, or_iff_left]
    rintro ⟨-, same, -⟩
    rw [known] at same
    exact here (Option.some.inj same).symm

theorem Fresh.own_address (fresh : Fresh config dcMap start) {a b : String} (ha : a ∈ config.allNodes)
    (hb : b ∈ config.allNodes) (same : start.ip a = start.ip b) : a = b :=
  List.inj_on_of_nodup_map fresh.addresses ha hb same

/-- No two nodes have the same address. -/
def Distinct (config : TestConfig) (ip : String → Option String) : Prop :=
  ∀ x ∈ config.allNodes, ∀ y ∈ config.allNodes, ∀ addr, ip x = some addr → ip y = some addr → x = y

/-- A node computes its delays by looking the other nodes up: whatever the lookups keep and raise,
each node having an address of its own. -/
theorem destDelays_asks {ip : String → Option String} {P : Cluster → Prop} {E : PyExc → Cluster → Prop}
    (own : Distinct config ip)
    (lookup : ∀ x ∈ config.allNodes,
      Proc.Triple P (ClusterManager.getNodeIp x) (fun addr c => ip x = some addr ∧ P c) E) (dcMap : DcMap) (a : String) :
    Proc.Triple P (destDelays config dcMap a) (fun dest c => Asks config dcMap ip a config.allNodes dest ∧ P c) E := by
  have start : ∀ c, P c → Asks config dcMap ip a [] Dict.empty ∧ P c := fun c hc => ⟨fun addr ms => by simp, hc⟩
  refine (Proc.Triple.foldlM (I := fun done dest c => Asks config dcMap ip a done dest ∧ P c) config.allNodes
    Dict.empty ?_).conseq start (fun _ _ h => h) fun _ _ h => h
  intro done other within dest
  have inside : ∀ b ∈ done ++ [other], b ∈ config.allNodes := fun b member => within.subset member
  refine Proc.Triple.ite (fun self => ?_) fun ne => Proc.Triple.ite (fun pos => ?_) fun none => ?_
  · exact Proc.Triple.pure fun c hc => ⟨hc.1.skip (Or.inl self), hc.2⟩
  · refine Proc.Triple.given fun asks => (lookup other (inside other (by simp))).bind fun addr => ?_
    refine Proc.Triple.pure fun c hc => ⟨asks.add ne pos hc.1 fun b member same => ?_, hc.2⟩
    exact own b (inside b (List.mem_append_left _ member)) other (inside other (by simp)) addr same hc.1
  · exact Proc.Triple.pure fun c hc => ⟨hc.1.skip (Or.inr none), hc.2⟩

theorem exec_destDelays (works : c.Works) (own : Distinct config c.ip) (lookups : ∀ n ∈ config.allNodes, (c.ip n).isSome)
    (dcMap : DcMap) (a : String) :
    ∃ dest, (destDelays config dcMap a).exec c = (.ok dest, c) ∧ Asks config dcMap c.ip a config.allNodes dest := by
  have lookup : ∀ x ∈ config.allNodes, Proc.Triple (· = c) (ClusterManager.getNodeIp x)
      (fun addr d => c.ip x = some addr ∧ d = c) fun _ _ => False := by
    rintro x hx d rfl
    obtain ⟨addr, known⟩ := Option.isSome_iff_exists.mp (lookups x hx)
    rw [exec_getNodeIp works known]
    exact ⟨known, rfl⟩
  have run := destDelays_asks own lookup dcMap a c rfl
  rcases ran : (destDelays config dcMap a).exec c with ⟨exc | dest, d⟩ <;> rw [ran] at run
  · exact run.elim
  · obtain ⟨asks, rfl⟩ := run
    exact ⟨dest, rfl, asks⟩

theorem Fresh.distinct (fresh : Fresh config dcMap start) : Distinct config start.ip := fun _ hx _ hy _ here there =>
  fresh.own_address hx hy (here.trans there.symm)

/-- An interface that serves what its node asks for. -/
def Served (config : TestConfig) (dcMap : DcMap) (ip : String → Option String) (a : String) (iface : Tc.Iface) : Prop :=
  ∃ dest, Asks config dcMap ip a config.allNodes dest ∧ Delivers dest iface

/-- The state in the loop of `apply` when the nodes of `rest` are still to be done. -/
structure Progress (config : TestConfig) (dcMap : DcMap) (start : Cluster) (rest : List String) (c : Cluster) : Prop where
  works : c.Works
  ip : c.ip = start.ip
  clean : ∀ n ∈ rest, (c.node n).iface = none
  served : ∀ n ∈ config.allNodes, n ∉ rest → Served config dcMap start.ip n (c.node n).iface

theorem Progress.applied {node : String} {rest : List String} (h : Progress config dcMap start (node :: rest) c)
    (outside : node ∉ rest) {iface : Tc.Iface} (served : Served config dcMap start.ip node iface) :
    Progress config dcMap start rest (c.setIface node iface) where
  works := h.works
  ip := h.ip
  clean n member := by
    have ne : n ≠ node := fun eq => outside (eq ▸ member)
    rw [iface_setIface, if_neg ne]
    exact h.clean n (List.mem_cons_of_mem node member)
  served n inside done := by
    rw [iface_setIface]
    split
    · rename_i eq
      exact eq ▸ served
    · rename_i ne
      exact h.served n inside fun member => (List.mem_cons.mp member).elim ne done

/-- The body of the loop of `apply`. -/
theorem exec_applyStep (fresh : Fresh config dcMap start) {node : String} {rest : List String}
    {m : NetworkLatencyManager} {w : World Cluster} (h : Progress config dcMap start (node :: rest) w.env)
    (outside : node ∉ rest) :
    ∃ m' w', Proc.exec (do
        let dest ← onCluster (destDelays config dcMap node)
        if dest.items.isEmpty then return
        applyNode node dest
        assign fun m => { m with configuredNodes := m.configuredNodes.insert node } :
          ActionM NetworkLatencyManager Unit) (m, w) = (.ok (), m', w') ∧
      Progress config dcMap start rest w'.env := by
  obtain ⟨dest, computed, asks⟩ := exec_destDelays h.works (h.ip ▸ fresh.distinct) (h.ip ▸ fresh.lookups) dcMap node
  rw [h.ip] at asks
  have clean := h.clean node List.mem_cons_self
  rw [Proc.exec_bind, exec_onCluster, computed]
  dsimp only
  by_cases empty : dest.items.isEmpty
  · rw [if_pos empty]
    have served : Served config dcMap start.ip node none :=
      ⟨dest, asks, delivers_none (Or.inl (List.isEmpty_iff.mp empty))⟩
    refine ⟨m, w, rfl, ?_⟩
    have done := h.applied outside served
    rwa [setIface_self clean] at done
  · have some_delay : dest.items ≠ [] := fun eq => empty (List.isEmpty_iff.mpr eq)
    rw [if_neg empty]
    by_cases few : (delayToIps dest).items.length ≤ 15
    · obtain ⟨root, ipToBand, ran, attached⟩ := exec_applyNode (m := m) h.works clean some_delay few
      rw [Proc.exec_bind_ok ran, exec_assign]
      exact ⟨_, _, rfl, h.applied outside ⟨dest, asks, attached.delivers few⟩⟩
    · have many : 15 < (delayToIps dest).items.length := by omega
      rw [Proc.exec_bind_ok (exec_applyNode_fails h.works clean many), exec_assign]
      refine ⟨_, _, rfl, ?_⟩
      have done := h.applied outside ⟨dest, asks, delivers_none (Or.inr many)⟩
      rwa [setIface_self clean] at done

theorem exec_applyLoop (fresh : Fresh config dcMap start) (rest : List String) (nodup : rest.Nodup)
    {m : NetworkLatencyManager} {w : World Cluster} (h : Progress config dcMap start rest w.env) :
    ∃ m' w', (Proc.forEach rest fun node => (do
        let dest ← onCluster (destDelays config dcMap node)
        if dest.items.isEmpty then return
        applyNode node dest
        assign fun m => { m with configuredNodes := m.configuredNodes.insert node } :
          ActionM NetworkLatencyManager Unit)).exec (m, w) = (.ok (), m', w') ∧
      Progress config dcMap start [] w'.env := by
  induction rest generalizing m w with
  | nil => exact ⟨m, w, rfl, h⟩
  | cons node rest ih =>
    obtain ⟨outside, nodup⟩ := List.nodup_cons.mp nodup
    obtain ⟨m', w', ran, progress⟩ := exec_applyStep (m := m) fresh h outside
    obtain ⟨m'', w'', later, done⟩ := ih nodup (m := m') progress
    exact ⟨m'', w'', by rw [Proc.forEach_cons, Proc.exec_bind_ok ran, later], done⟩

/-- After `apply`, every node has an interface that serves what it asks for. -/
theorem served_of_apply {m : NetworkLatencyManager} {w : World Cluster} (configured : m.config = config)
    (fresh : Fresh config dcMap w.env) {a : String} (inside : a ∈ config.allNodes) :
    Served config dcMap w.env.ip a (((apply dcMap).exec (m, w)).2.2.env.node a).iface := by
  unfold apply
  rw [Proc.exec_bind_ok (exec_this _)]
  dsimp only
  rw [configured]
  by_cases nothing : config.crossDcDelays.items.isEmpty ∧ config.dbZkDelayMs ≤ 0
  · rw [if_pos nothing]
    refine ⟨Dict.empty, fun addr ms => ?_, ?_⟩
    · have zero : ∀ b, delayBetween config dcMap a b = 0 := by
        intro b
        have cross : crossDelay config dcMap a b = 0 := by
          unfold crossDelay crossDcDelay
          rw [List.isEmpty_iff.mp nothing.1]
          split
          · split <;> rfl
          · rfl
        have dbZk := fresh.dbZk
        rw [delayBetween_eq fresh, cross, ite_self]
        split <;> omega
      constructor
      · exact nofun
      · rintro ⟨b, -, -, -, rfl, pos⟩
        rw [zero] at pos
        exact absurd pos (lt_irrefl 0)
    · show Delivers Dict.empty (w.env.node a).iface
      rw [fresh.clean a inside]
      exact delivers_none (Or.inl rfl)
  · rw [if_neg nothing]
    have progress : Progress config dcMap w.env config.allNodes w.env :=
      ⟨fresh.works, rfl, fresh.clean, fun n member outside => absurd member outside⟩
    obtain ⟨m', w', ran, done⟩ := exec_applyLoop (m := m) fresh config.allNodes (fresh.addresses.of_map _) progress
    rw [ran]
    exact done.served a inside List.not_mem_nil

/-- The delay a node asks for an address is the one computed for the node that has it. -/
theorem Asks.getD {dest : Dict String Int} {a b addr : String} (fresh : Fresh config dcMap start)
    (asks : Asks config dcMap start.ip a config.allNodes dest) (inside : b ∈ config.allNodes) (ne : a ≠ b)
    (known : start.ip b = some addr) : dest.getD addr 0 = delayBetween config dcMap a b := by
  by_cases pos : 0 < delayBetween config dcMap a b
  · rw [Dict.getD, (asks addr _).mpr ⟨b, inside, ne.symm, known, rfl, pos⟩]
    rfl
  · have nonneg := delayBetween_nonneg fresh a b
    have missing : dest.get? addr = none := by
      rw [Option.eq_none_iff_forall_ne_some]
      intro ms found
      obtain ⟨x, member, -, also, delay, positive⟩ := (asks addr ms).mp found
      rw [fresh.own_address member inside (also.trans known.symm)] at delay
      omega
    rw [Dict.getD, missing, Option.getD_none]
    omega

/-- The groups of a node are its distinct delays, when those computed are those asked for. -/
theorem Asks.length_groups {dest : Dict String Int} {a : String} (fresh : Fresh config dcMap start)
    (asks : Asks config dcMap start.ip a config.allNodes dest)
    (asked : ∀ b ∈ config.allNodes, a ≠ b → delayBetween config dcMap a b = expectedDelay config dcMap a b) :
    (delayToIps dest).items.length = (distinctDelays config dcMap a).card := by
  have same : (delayToIps dest).keys.toFinset = distinctDelays config dcMap a := by
    ext ms
    rw [List.mem_toFinset, mem_keys_delayToIps, distinctDelays, Finset.mem_filter, List.mem_toFinset, List.mem_map,
      List.mem_map]
    constructor
    · rintro ⟨⟨addr, _⟩, item, rfl⟩
      obtain ⟨b, inside, ne, -, delay, pos⟩ := (asks addr _).mp ((Dict.get?_eq_some _).mpr item)
      rw [asked b inside ne.symm] at delay
      exact ⟨⟨b, List.mem_filter.mpr ⟨inside, by simpa using ne⟩, delay⟩, pos⟩
    · rintro ⟨⟨b, member, rfl⟩, pos⟩
      obtain ⟨inside, other⟩ := List.mem_filter.mp member
      have ne : b ≠ a := by simpa using other
      obtain ⟨addr, known⟩ := Option.isSome_iff_exists.mp (fresh.lookups b inside)
      exact ⟨(addr, _), (Dict.get?_eq_some _).mp
        ((asks addr _).mpr ⟨b, inside, ne, known, asked b inside ne.symm, pos⟩), rfl⟩
  have nodup : (delayToIps dest).keys.Nodup := (delayToIps dest).nodup
  rw [← same, List.toFinset_card_of_nodup nodup, Dict.keys, List.length_map]

/-- The configured latency is in force after `apply` if and only if no node needs more than eight
distinct delays and no cross-DC delay is asked for a DC without a name. -/
theorem apply_inForce_iff {m : NetworkLatencyManager} {w : World Cluster} (configured : m.config = config)
    (fresh : Fresh config dcMap w.env) :
    (∀ a ∈ config.allNodes, ∀ b ∈ config.allNodes, a ≠ b → ∀ addr, w.env.ip b = some addr →
      Tc.delayTo (((apply dcMap).exec (m, w)).2.2.env.node a).iface addr = expectedDelay config dcMap a b) ↔
      (∀ a ∈ config.allNodes, (distinctDelays config dcMap a).card ≤ 8) ∧
        ∀ a ∈ config.allNodes, ∀ b ∈ config.allNodes, a ≠ b → Unnamed dcMap a b →
          crossDelay config dcMap a b = 0 := by
  have computed : (∀ a ∈ config.allNodes, ∀ b ∈ config.allNodes, a ≠ b → Unnamed dcMap a b →
      crossDelay config dcMap a b = 0) → ∀ a ∈ config.allNodes, ∀ b ∈ config.allNodes, a ≠ b →
        delayBetween config dcMap a b = expectedDelay config dcMap a b := by
    intro named a ha b hb ne
    rw [delayBetween_eq fresh, expectedDelay]
    split
    · rename_i unnamed
      rw [named a ha b hb ne unnamed]
    · rfl
  constructor
  · intro inForce
    have named : ∀ a ∈ config.allNodes, ∀ b ∈ config.allNodes, a ≠ b → Unnamed dcMap a b →
        crossDelay config dcMap a b = 0 := by
      intro a ha b hb ne unnamed
      obtain ⟨dest, asks, delivers⟩ := served_of_apply configured fresh ha
      obtain ⟨addr, known⟩ := Option.isSome_iff_exists.mp (fresh.lookups b hb)
      have actual := inForce a ha b hb ne addr known
      have lost := delayBetween_eq fresh a b
      have nonneg := delayBetween_nonneg fresh a b
      have cross := crossDelay_nonneg dcMap fresh.crossDc a b
      rw [if_pos unnamed] at lost
      rw [expectedDelay] at actual
      -- the packets have the delay computed, which is the one asked for less its cross-DC part, or none
      rcases delivers.any addr with served | unserved
      · rw [served, asks.getD fresh hb ne known] at actual
        omega
      · rw [unserved] at actual
        omega
    refine ⟨fun a ha => ?_, named⟩
    obtain ⟨dest, asks, delivers⟩ := served_of_apply configured fresh ha
    rw [← asks.length_groups fresh fun b hb ne => computed named a ha b hb ne]
    by_contra many
    obtain ⟨addr, ms, found, undelayed⟩ := delivers.many (by omega)
    obtain ⟨b, hb, ne, known, delay, pos⟩ := (asks addr ms).mp found
    have actual := inForce a ha b hb ne.symm addr known
    rw [undelayed, ← computed named a ha b hb ne.symm] at actual
    omega
  · rintro ⟨few, named⟩ a ha b hb ne addr known
    obtain ⟨dest, asks, delivers⟩ := served_of_apply configured fresh ha
    have size := asks.length_groups fresh fun b hb ne => computed named a ha b hb ne
    rw [delivers.few (by rw [size]; exact few a ha), asks.getD fresh hb ne known, computed named a ha b hb ne]

end Run

/-! ## Ten data centres -/

section Examples

/-- The name of the `i`-th database node. -/
def pg (i : Nat) : String := "pg" ++ toString i

/-- Ten nodes without a root qdisc. -/
def tenNodes : Cluster where
  node _ := { tables := ⟨fun _ => [], Dict.empty⟩, iface := none, files := fun _ => none }
  ip name := ((List.range 10).find? (pg · = name)).map fun i => "10.0.0." ++ toString (i + 1)
  outage _ := none

/-- Each of `n` nodes is alone in its DC, and the first DC has a delay of its own to each other. -/
def starConfig (n : Nat) : TestConfig where
  dbNodes := (List.range n).map pg
  crossDcDelays := Dict.ofPairs ((List.range n).tail.map fun (i : Nat) => (("dc0", "dc" ++ toString i), (10 * i : Int)))

def starDcMap (n : Nat) : DcMap := Dict.ofPairs ((List.range n).map fun i => ("dc" ++ toString i, [pg i]))

theorem fresh_star : ∀ n ∈ [9, 10], Fresh (starConfig n) (starDcMap n) tenNodes := by
  intro n member
  rw [List.mem_cons, List.mem_singleton] at member
  rcases member with rfl | rfl
  · exact ⟨fun _ => rfl, by decide, by decide, fun _ _ => rfl, by decide, by decide,
      by decide, by decide⟩
  · exact ⟨fun _ => rfl, by decide, by decide, fun _ _ => rfl, by decide, by decide,
      by decide, by decide⟩

/-- With nine nodes there are eight distinct delays. -/
theorem nineDcs_inForce : Fresh (starConfig 9) (starDcMap 9) tenNodes ∧
    ∀ a ∈ (starConfig 9).allNodes, ∀ b ∈ (starConfig 9).allNodes, a ≠ b → ∀ addr, tenNodes.ip b = some addr →
      Tc.delayTo (((apply (starDcMap 9)).exec (init (starConfig 9), ⟨fun _ => 0, tenNodes⟩)).2.2.env.node a).iface addr =
        expectedDelay (starConfig 9) (starDcMap 9) a b := by
  have configured : (init (starConfig 9)).config = starConfig 9 := rfl
  have few : ∀ a ∈ (starConfig 9).allNodes, (distinctDelays (starConfig 9) (starDcMap 9) a).card ≤ 8 := by
    decide
  have fresh := fresh_star 9 (by decide)
  refine ⟨fresh, (apply_inForce_iff (w := ⟨fun _ => 0, tenNodes⟩) configured fresh).mpr ⟨few, ?_⟩⟩
  decide

/-- With ten nodes there are nine, and the ninth is not in force. -/
theorem tenDcs_not_inForce : Fresh (starConfig 10) (starDcMap 10) tenNodes ∧
    ¬ ∀ a ∈ (starConfig 10).allNodes, ∀ b ∈ (starConfig 10).allNodes, a ≠ b → ∀ addr, tenNodes.ip b = some addr →
      Tc.delayTo (((apply (starDcMap 10)).exec (init (starConfig 10), ⟨fun _ => 0, tenNodes⟩)).2.2.env.node a).iface addr =
        expectedDelay (starConfig 10) (starDcMap 10) a b := by
  refine ⟨fresh_star 10 (by decide), fun inForce => ?_⟩
  have last := inForce "pg0" (by decide) "pg9" (by decide) (by decide) "10.0.0.10" (by decide)
  exact absurd last (by decide +kernel)

end Examples

end NetworkLatencyManager

end FaultStorm
