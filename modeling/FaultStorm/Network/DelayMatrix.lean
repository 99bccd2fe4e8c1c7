import FaultStorm.Network.InForce

/-!
# The matrix of the delays

The delays that `apply` computes for the nodes, taken together: those of two nodes for each other
are the same, and the order in which the configuration and the DC map list things does not matter.
-/

namespace FaultStorm

open Python

namespace NetworkLatencyManager

/-- `apply` can compute `dest` as the `dest_delays` of a node, the nodes having the addresses `ip`. -/
def Computes (config : TestConfig) (dcMap : DcMap) (ip : String → Option String) (node : String)
    (dest : Dict String Int) : Prop :=
  ∃ c c', c.ip = ip ∧ (destDelays config dcMap node).exec c = (.ok dest, c')

section Delays

variable {config : TestConfig} {dcMap : DcMap} {ip : String → Option String}

theorem normaliseDcPair_comm (a b : String) : normaliseDcPair a b = normaliseDcPair b a :=
  normaliseDcPair_eq_iff.mpr (Or.inr rfl)

theorem delayBetween_comm (config : TestConfig) (dcMap : DcMap) (a b : String) :
    delayBetween config dcMap a b = delayBetween config dcMap b a := by
  have db : ∀ x y : String, (x ∈ config.dbNodes ∧ y ∈ config.extraNodes ∨ x ∈ config.extraNodes ∧ y ∈ config.dbNodes) ↔
      (y ∈ config.dbNodes ∧ x ∈ config.extraNodes ∨ y ∈ config.extraNodes ∧ x ∈ config.dbNodes) := by
    intro x y
    rw [or_comm, and_comm (a := x ∈ config.extraNodes), and_comm (a := x ∈ config.dbNodes)]
  unfold delayBetween
  dsimp only
  congr 1
  · cases (nodeDc dcMap).get? a with
    | none => cases (nodeDc dcMap).get? b <;> rfl
    | some dc =>
      cases (nodeDc dcMap).get? b with
      | none => rfl
      | some otherDc =>
        dsimp only
        rw [normaliseDcPair_comm dc otherDc]
        refine if_congr ?_ rfl rfl
        constructor
        · exact fun ⟨named, named', apart⟩ => ⟨named', named, Ne.symm apart⟩
        · exact fun ⟨named, named', apart⟩ => ⟨named', named, Ne.symm apart⟩
  · exact if_congr Iff.rfl (if_congr (db a b) rfl rfl) rfl

/-- A lookup that succeeds finds the address of the node. -/
theorem getNodeIp_found (ip : String → Option String) (node : String) :
    Proc.Triple (fun c : Cluster => c.ip = ip) (ClusterManager.getNodeIp node)
      (fun addr c => ip node = some addr ∧ c.ip = ip) fun _ _ => True := by
  intro c same
  rw [exec_getNodeIp_eq]
  cases c.outage 0 with
  | some exc => trivial
  | none =>
    rw [same]
    cases known : ip node with
    | none => trivial
    | some addr => exact ⟨rfl, same⟩

/-- Whatever docker does, the delays that are computed are those between the nodes. -/
theorem Computes.asks {node : String} {dest : Dict String Int} (computed : Computes config dcMap ip node dest)
    (own : Distinct config ip) : Asks config dcMap ip node config.allNodes dest := by
  obtain ⟨c, c', same, ran⟩ := computed
  have run := destDelays_asks own (fun x _ => getNodeIp_found ip x) dcMap node c same
  rw [ran] at run
  exact run.1

/-- While docker works, they are computed. -/
theorem exists_computes {c : Cluster} (works : c.Works) (own : Distinct config c.ip)
    (lookups : ∀ n ∈ config.allNodes, (c.ip n).isSome) (dcMap : DcMap) (node : String) :
    ∃ dest, Computes config dcMap c.ip node dest := by
  obtain ⟨dest, ran, -⟩ := exec_destDelays works own lookups dcMap node
  exact ⟨dest, c, c, rfl, ran⟩

/-- The entry of a node for the address of another. -/
theorem Asks.get?_eq_some_iff {a b addr : String} {dest : Dict String Int}
    (asks : Asks config dcMap ip a config.allNodes dest) (own : Distinct config ip) (inside : b ∈ config.allNodes)
    (known : ip b = some addr) {ms : Int} :
    dest.get? addr = some ms ↔ b ≠ a ∧ delayBetween config dcMap a b = ms ∧ 0 < ms := by
  rw [asks addr ms]
  constructor
  · rintro ⟨x, member, ne, also, delay, pos⟩
    obtain rfl := own x member b inside addr also known
    exact ⟨ne, delay, pos⟩
  · rintro ⟨ne, delay, pos⟩
    exact ⟨b, inside, ne, known, delay, pos⟩

/-- Two nodes delay the packets for each other alike. -/
theorem Computes.symm {a b addrA addrB : String} {destA destB : Dict String Int} (own : Distinct config ip)
    (ha : a ∈ config.allNodes) (hb : b ∈ config.allNodes) (knownA : ip a = some addrA) (knownB : ip b = some addrB)
    (computedA : Computes config dcMap ip a destA) (computedB : Computes config dcMap ip b destB) :
    destA.get? addrB = destB.get? addrA := by
  apply Option.ext
  intro ms
  rw [(computedA.asks own).get?_eq_some_iff own hb knownB, (computedB.asks own).get?_eq_some_iff own ha knownA,
    delayBetween_comm config dcMap b a, ne_comm]

end Delays

/-! ## Other orders -/

/-- An entry of `cross_dc_delays` with its key as it is or the other way round. -/
def SameDelay (x y : (String × String) × Int) : Prop := (x.1 = y.1 ∨ x.1 = y.1.swap) ∧ x.2 = y.2

/-- An entry of `dc_map` with its nodes in any order. -/
def SameDc (x y : String × List String) : Prop := x.1 = y.1 ∧ x.2.Perm y.2

/-- The configuration and the DC map with their lists and entries in another order, and with some
of the keys of `cross_dc_delays` written the other way round. -/
structure Rearranged (config : TestConfig) (dcMap : DcMap) (config' : TestConfig) (dcMap' : DcMap) : Prop where
  dbNodes : config.dbNodes.Perm config'.dbNodes
  extraNodes : config.extraNodes.Perm config'.extraNodes
  dbZk : config.dbZkDelayMs = config'.dbZkDelayMs
  crossDc : ∃ l, config.crossDcDelays.items.Perm l ∧ List.Forall₂ SameDelay l config'.crossDcDelays.items
  dcs : ∃ l, dcMap.items.Perm l ∧ List.Forall₂ SameDc l dcMap'.items

/-- No pair of DCs is listed twice, and no node is in two of them. -/
structure Listed (config : TestConfig) (dcMap : DcMap) : Prop where
  once : ∀ x y, (x, y) ∈ config.crossDcDelays.keys → (y, x) ∈ config.crossDcDelays.keys → x = y
  oneDc : ∀ x ∈ dcMap.items, ∀ y ∈ dcMap.items, ∀ n ∈ x.2, n ∈ y.2 → x = y

section Rearranged

variable {config config' : TestConfig} {dcMap dcMap' : DcMap}

/-- The members of a list and of one that has corresponding members. -/
theorem forall₂_mem {α β : Type} {R : α → β → Prop} {l : List α} {l' : List β} (related : List.Forall₂ R l l') :
    (∀ x ∈ l, ∃ y ∈ l', R x y) ∧ ∀ y ∈ l', ∃ x ∈ l, R x y := by
  induction related with
  | nil => simp
  | cons head _ ih =>
    constructor
    · intro x member
      rcases List.mem_cons.mp member with rfl | later
      · exact ⟨_, List.mem_cons_self, head⟩
      · obtain ⟨y, there, also⟩ := ih.1 x later
        exact ⟨y, List.mem_cons_of_mem _ there, also⟩
    · intro y member
      rcases List.mem_cons.mp member with rfl | later
      · exact ⟨_, List.mem_cons_self, head⟩
      · obtain ⟨x, there, also⟩ := ih.2 y later
        exact ⟨x, List.mem_cons_of_mem _ there, also⟩

theorem Rearranged.nodeDc (same : Rearranged config dcMap config' dcMap') (listed : Listed config dcMap)
    (node : String) : (nodeDc dcMap).get? node = (NetworkLatencyManager.nodeDc dcMap').get? node := by
  obtain ⟨l, perm, related⟩ := same.dcs
  obtain ⟨forth, back⟩ := forall₂_mem related
  apply Dict.get?_ofPairs_congr
  · intro p hp q hq key
    obtain ⟨x, hx, inside, dc⟩ := mem_nodeDc_pairs.mp hp
    obtain ⟨y, hy, there, dc'⟩ := mem_nodeDc_pairs.mp hq
    rw [← dc, ← dc', listed.oneDc x hx y hy p.1 inside (key ▸ there)]
  · intro p
    rw [mem_nodeDc_pairs, mem_nodeDc_pairs]
    constructor
    · rintro ⟨x, member, inside, dc⟩
      obtain ⟨y, there, name, nodes⟩ := forth x (perm.mem_iff.mp member)
      exact ⟨y, there, nodes.mem_iff.mp inside, name ▸ dc⟩
    · rintro ⟨y, there, inside, dc⟩
      obtain ⟨x, member, name, nodes⟩ := back y there
      exact ⟨x, perm.mem_iff.mpr member, nodes.mem_iff.mpr inside, name.trans dc⟩

/-- Related entries are the same after normalisation. -/
theorem map_normalise {l l' : List ((String × String) × Int)}
    (related : List.Forall₂ SameDelay l l') :
    l.map (fun ((a, b), ms) => (normaliseDcPair a b, ms)) = l'.map fun ((a, b), ms) => (normaliseDcPair a b, ms) := by
  rw [← List.forall₂_eq_eq_eq, List.forall₂_map_left_iff, List.forall₂_map_right_iff]
  exact related.imp fun x y alike => Prod.ext (normaliseDcPair_eq_iff.mpr alike.1) alike.2

theorem Rearranged.delays (same : Rearranged config dcMap config' dcMap') (listed : Listed config dcMap)
    (key : String × String) : (delays config).get? key = (NetworkLatencyManager.delays config').get? key := by
  obtain ⟨l, perm, related⟩ := same.crossDc
  apply Dict.get?_ofPairs_congr
  · intro p hp q hq eq
    obtain ⟨⟨⟨x, y⟩, ms⟩, hx, rfl⟩ := List.mem_map.mp hp
    obtain ⟨⟨⟨z, w⟩, ms'⟩, hz, rfl⟩ := List.mem_map.mp hq
    have item : ((x, y), ms) = ((z, w), ms') := by
      refine List.inj_on_of_nodup_map config.crossDcDelays.nodup hx hz ?_
      rcases normaliseDcPair_eq_iff.mp eq with key | key
      · exact key
      · obtain ⟨rfl, rfl⟩ := Prod.mk.inj key
        obtain rfl := listed.once x y (List.mem_map.mpr ⟨_, hx, rfl⟩) (List.mem_map.mpr ⟨_, hz, rfl⟩)
        rfl
    exact (Prod.mk.inj item).2
  · intro p
    rw [← map_normalise related]
    exact (perm.map _).mem_iff

theorem Rearranged.mem_allNodes (same : Rearranged config dcMap config' dcMap') (node : String) :
    node ∈ config.allNodes ↔ node ∈ config'.allNodes :=
  (same.dbNodes.append same.extraNodes).mem_iff

theorem Rearranged.delayBetween (same : Rearranged config dcMap config' dcMap') (listed : Listed config dcMap)
    (a b : String) : delayBetween config dcMap a b = NetworkLatencyManager.delayBetween config' dcMap' a b := by
  unfold NetworkLatencyManager.delayBetween Dict.getD
  simp only [same.nodeDc listed, same.delays listed, same.dbZk, same.dbNodes.mem_iff, same.extraNodes.mem_iff]

theorem Rearranged.asks {ip : String → Option String} {node : String} {dest : Dict String Int}
    (same : Rearranged config dcMap config' dcMap') (listed : Listed config dcMap)
    (asks : Asks config' dcMap' ip node config'.allNodes dest) : Asks config dcMap ip node config.allNodes dest := by
  intro addr ms
  rw [asks addr ms]
  simp only [same.mem_allNodes, same.delayBetween listed]

/-- The delays that `apply` computes are symmetric for every configuration, and do not depend on
the order of what a configuration without double entries lists. -/
theorem delays_symmetric_orderless (config : TestConfig) (dcMap : DcMap) (ip : String → Option String)
    (own : Distinct config ip) :
    (∀ a ∈ config.allNodes, ∀ b ∈ config.allNodes, ∀ addrA addrB, ip a = some addrA → ip b = some addrB →
      ∀ destA destB, Computes config dcMap ip a destA → Computes config dcMap ip b destB →
        destA.get? addrB = destB.get? addrA) ∧
    (Listed config dcMap → ∀ config' dcMap', Rearranged config dcMap config' dcMap' →
      ∀ node dest dest', Computes config dcMap ip node dest → Computes config' dcMap' ip node dest' →
        ∀ addr, dest.get? addr = dest'.get? addr) := by
  constructor
  · intro a ha b hb addrA addrB knownA knownB destA destB computedA computedB
    exact Computes.symm own ha hb knownA knownB computedA computedB
  · intro listed config' dcMap' same node dest dest' computed computed' addr
    have own' : Distinct config' ip := fun x hx y hy =>
      own x ((same.mem_allNodes x).mpr hx) y ((same.mem_allNodes y).mpr hy)
    have asks := computed.asks own
    have asks' := same.asks listed (computed'.asks own')
    apply Option.ext
    intro ms
    rw [asks addr ms, asks' addr ms]

end Rearranged

section Example

def twoDcsConfig : TestConfig where
  dbNodes := ["pg0", "pg1"]
  extraNodes := ["pg2"]
  crossDcDelays := Dict.ofPairs [(("dc2", "dc1"), 5), (("dc1", "dc3"), 8)]
  dbZkDelayMs := 2

def twoDcsMap : DcMap := Dict.ofPairs [("dc1", ["pg0", "pg2"]), ("dc2", ["pg1"])]

def twoDcsConfig' : TestConfig where
  dbNodes := ["pg1", "pg0"]
  extraNodes := ["pg2"]
  crossDcDelays := Dict.ofPairs [(("dc1", "dc3"), 8), (("dc1", "dc2"), 5)]
  dbZkDelayMs := 2

def twoDcsMap' : DcMap := Dict.ofPairs [("dc2", ["pg1"]), ("dc1", ["pg2", "pg0"])]

theorem rearranged_twoDcs : Rearranged twoDcsConfig twoDcsMap twoDcsConfig' twoDcsMap' where
  dbNodes := List.Perm.swap ..
  extraNodes := List.Perm.refl _
  dbZk := rfl
  crossDc := by
    refine ⟨[(("dc1", "dc3"), 8), (("dc2", "dc1"), 5)], List.Perm.swap .., ?_⟩
    exact .cons ⟨Or.inl rfl, rfl⟩ (.cons ⟨Or.inr rfl, rfl⟩ .nil)
  dcs := by
    refine ⟨[("dc2", ["pg1"]), ("dc1", ["pg0", "pg2"])], List.Perm.swap .., ?_⟩
    exact .cons ⟨rfl, List.Perm.refl _⟩ (.cons ⟨rfl, List.Perm.swap ..⟩ .nil)

theorem twoDcs_symmetric_orderless :
    (∃ dest dest', Computes twoDcsConfig twoDcsMap tenNodes.ip "pg0" dest ∧
      Computes twoDcsConfig twoDcsMap tenNodes.ip "pg1" dest' ∧ dest.get? "10.0.0.2" = dest'.get? "10.0.0.1") ∧
    ∃ dest dest', Computes twoDcsConfig twoDcsMap tenNodes.ip "pg0" dest ∧
      Computes twoDcsConfig' twoDcsMap' tenNodes.ip "pg0" dest' ∧ dest.get? "10.0.0.2" = dest'.get? "10.0.0.2" := by
  have own : Distinct twoDcsConfig tenNodes.ip := by
    have injective : ∀ x ∈ twoDcsConfig.allNodes, ∀ y ∈ twoDcsConfig.allNodes, tenNodes.ip x = tenNodes.ip y → x = y := by
      decide
    exact fun x hx y hy addr here there => injective x hx y hy (here.trans there.symm)
  have own' : Distinct twoDcsConfig' tenNodes.ip := fun x hx y hy =>
    own x ((rearranged_twoDcs.mem_allNodes x).mpr hx) y ((rearranged_twoDcs.mem_allNodes y).mpr hy)
  have listed : Listed twoDcsConfig twoDcsMap := by
    refine ⟨fun x y one two => ?_, by decide⟩
    have keys : ∀ k ∈ twoDcsConfig.crossDcDelays.keys, k.swap ∉ twoDcsConfig.crossDcDelays.keys := by decide
    exact absurd two (keys (x, y) one)
  obtain ⟨symmetric, orderless⟩ := delays_symmetric_orderless twoDcsConfig twoDcsMap tenNodes.ip own
  obtain ⟨dest, computed⟩ := exists_computes (fun _ => rfl) own (by decide) twoDcsMap "pg0"
  obtain ⟨dest', computed'⟩ := exists_computes (fun _ => rfl) own (by decide) twoDcsMap "pg1"
  obtain ⟨dest'', computed''⟩ := exists_computes (fun _ => rfl) own' (by decide) twoDcsMap' "pg0"
  refine ⟨⟨dest, dest', computed, computed', ?_⟩, dest, dest'', computed, computed'', ?_⟩
  · exact symmetric "pg0" (by decide) "pg1" (by decide) _ _ (by decide) (by decide) dest dest' computed computed'
  · exact orderless listed _ _ rearranged_twoDcs "pg0" dest dest'' computed computed'' _

end Example

end NetworkLatencyManager

end FaultStorm
