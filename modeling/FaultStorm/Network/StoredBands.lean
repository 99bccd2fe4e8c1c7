import FaultStorm.Network.Bands

/-!
# The stored bands

What `_apply_node` stores of a node when some of its `tc` commands fail. A band is stored with
all its addresses once its `qdisc add` has succeeded, whether or not their filters have been
added.
-/

namespace FaultStorm

open Python Cluster NetworkLatency

namespace NetworkLatencyManager

/-- A filter sends the packets for an address to an existing band. -/
def Serves (iface : Tc.Iface) (ip : String) (flowid : Nat) (netem : Tc.Netem) : Prop :=
  ∃ root, iface = some root ∧ (∃ f ∈ root.filters, f.dst = ip ∧ f.flowid = flowid) ∧ root.netem.get? flowid = some netem

/-- An address is stored if and only if a filter sends it to a band, and with that band. -/
structure Truthful (iface : Tc.Iface) (stored : Dict String BandInfo) : Prop where
  keys : ∀ ip, ip ∈ stored.keys ↔ ∃ flowid netem, Serves iface ip flowid netem
  bands : ∀ ip info, stored.get? ip = some info → ∃ flowid netem, Serves iface ip flowid netem ∧
    Tc.minor info.parent = some flowid ∧ info.handle = netem.handle ∧ info.delayMs = netem.delayMs

/-! ## Which commands succeed -/

/-- The coming calls with the first `n` left out. -/
def later (outage : Nat → Option PyExc) (n : Nat) : Nat → Option PyExc := fun k => outage (k + n)

/-- The addresses whose `filter add` succeeds. -/
def filtered (outage : Nat → Option PyExc) : List String → List String
  | [] => []
  | ip :: ips =>
    if (outage 0).isNone then ip :: filtered (later outage 1) ips else filtered (later outage 1) ips

/-- The bands whose `qdisc add` succeeds, with the addresses whose `filter add` does. -/
def added (bands : Nat) (outage : Nat → Option PyExc) : List Band → List (Band × List String)
  | [] => []
  | b :: rest =>
    if (outage 0).isNone && decide (hexMinor b.2 ≤ bands) then
      (b, filtered (later outage 1) b.1.2) :: added bands (later outage (1 + b.1.2.length)) rest
    else added bands (later outage 1) rest

/-- The `qdisc add root` of a node with these delays succeeds. -/
def RootAdded (dest : Dict String Int) (outage : Nat → Option PyExc) : Prop :=
  outage 0 = none ∧ 1 ≤ (delayToIps dest).items.length ∧ (delayToIps dest).items.length ≤ 15

/-- No `filter add` fails for a band whose `qdisc add` succeeded, and nothing was stored before
where the root could not be added. -/
def FiltersAdded (dest : Dict String Int) (outage : Nat → Option PyExc) (before : Dict String BandInfo) : Prop :=
  (RootAdded dest outage → ∀ x ∈ added ((delayToIps dest).items.length + 1) (later outage 1) (bandsOf dest),
    ∀ ip ∈ x.1.1.2, ip ∈ x.2) ∧
  (¬ RootAdded dest outage → before.keys = [])

theorem filtered_subset (outage : Nat → Option PyExc) (ips : List String) : ∀ ip ∈ filtered outage ips, ip ∈ ips := by
  induction ips generalizing outage with
  | nil => exact fun ip among => among
  | cons first ips ih =>
    intro ip among
    unfold filtered at among
    split at among
    · rcases List.mem_cons.mp among with rfl | among
      · exact List.mem_cons_self
      · exact List.mem_cons_of_mem first (ih _ ip among)
    · exact List.mem_cons_of_mem first (ih _ ip among)

theorem added_subset {bands : Nat} (outage : Nat → Option PyExc) (rest : List Band) :
    ∀ x ∈ added bands outage rest, ∀ ip ∈ x.2, ip ∈ x.1.1.2 := by
  induction rest generalizing outage with
  | nil => exact fun x among => absurd among List.not_mem_nil
  | cons b rest ih =>
    unfold added
    split
    · intro x among
      rcases List.mem_cons.mp among with rfl | among
      · exact filtered_subset _ _
      · exact ih _ x among
    · exact ih _

theorem added_sublist (bands : Nat) (outage : Nat → Option PyExc) (rest : List Band) :
    ((added bands outage rest).map Prod.fst).Sublist rest := by
  induction rest generalizing outage with
  | nil => exact List.Sublist.refl _
  | cons b rest ih =>
    unfold added
    split
    · exact (ih _).cons_cons b
    · exact (ih _).cons b

/-! ## What the commands leave -/

/-- The root qdisc and the stored bands, for the bands and filters that were added. -/
structure Stored (l : List (Band × List String)) (root : Tc.Prio) (ipToBand : Dict String BandInfo) : Prop where
  netem : ∀ m n, root.netem.get? m = some n ↔ ∃ x ∈ l, m = hexMinor x.1.2 ∧ n = ⟨bandHandle x.1.2, x.1.1.1⟩
  filters : ∀ f, f ∈ root.filters ↔ ∃ x ∈ l, ∃ ip ∈ x.2, f = ⟨x.1.2, ip, hexMinor x.1.2⟩
  stored : ∀ ip info, ipToBand.get? ip = some info ↔ ∃ x ∈ l, ip ∈ x.1.1.2 ∧ info = x.1.info

section Attach

variable {c : Cluster} {node : String} {root : Tc.Prio} {ipToBand : Dict String BandInfo}
  {l : List (Band × List String)} {done : List Band}

theorem after_setIface (c : Cluster) (name : String) (iface : Tc.Iface) (n : Nat) :
    (c.setIface name iface).after n = (c.after n).setIface name iface := rfl

/-- A `tc` command that is run. -/
theorem exec_tc_at {command : Tc.Command} {iface : Tc.Iface} (works : c.outage 0 = none)
    (ran : Tc.run command (c.node node).iface = some iface) :
    (ClusterManager.execOnNode node (.tc command)).exec c = (.ok (), (c.after 1).setIface node iface) := by
  rw [exec_execOnNode_eq, works]
  simp only [Node.run, ran, Option.map_some]
  rfl

/-- A `tc` command that fails. -/
theorem exec_tc_error {command : Tc.Command} (fails : c.outage 0 ≠ none ∨ Tc.run command (c.node node).iface = none) :
    ∃ exc, (ClusterManager.execOnNode node (.tc command)).exec c = (.error exc, c.after 1) := by
  rw [exec_execOnNode_eq]
  cases outage : c.outage 0 with
  | some exc => exact ⟨exc, rfl⟩
  | none =>
    have ran := fails.resolve_left (fun ne => ne outage)
    simp only [Node.run, ran, Option.map_none]
    exact ⟨_, rfl⟩

/-- The loop over the addresses of a band adds the filters whose commands succeed. -/
theorem exec_addFilters_at (iface : (c.node node).iface = some root) {bandIdx : Nat} (small : bandIdx < 20)
    (ips : List String) :
    (Proc.forEach ips fun ip => Proc.swallow <|
        ClusterManager.execOnNode node (.tc (.addFilter bandIdx ip (bandParent bandIdx)))).exec c =
      (.ok (), (c.after ips.length).setIface node (some { root with
        filters := (filtered c.outage ips).foldl (fun fs ip => Tc.insertFilter ⟨bandIdx, ip, hexMinor bandIdx⟩ fs)
          root.filters })) := by
  induction ips generalizing c root with
  | nil =>
    unfold filtered
    rw [List.foldl_nil, List.length_nil, after_zero, setIface_self iface]
    rfl
  | cons ip ips ih =>
    have length : (ip :: ips).length = 1 + ips.length := by
      rw [List.length_cons, Nat.add_comm]
    rw [Proc.forEach_cons, Proc.exec_bind_ok (Proc.exec_swallow _ c), length, ← after_after]
    unfold filtered
    by_cases works : (c.outage 0).isNone
    · have ran : Tc.run (.addFilter bandIdx ip (bandParent bandIdx)) (c.node node).iface = some (some { root with
          filters := Tc.insertFilter ⟨bandIdx, ip, hexMinor bandIdx⟩ root.filters }) := by
        rw [iface, Tc.run, minor_bandParent bandIdx small]
      rw [exec_tc_at (Option.isNone_iff_eq_none.mp works) ran, if_pos works]
      dsimp only
      rw [ih (by rw [iface_setIface, if_pos rfl]), after_setIface, setIface_setIface]
      rfl
    · have fails : c.outage 0 ≠ none ∨ Tc.run (.addFilter bandIdx ip (bandParent bandIdx)) (c.node node).iface = none :=
        Or.inl fun reached => works (Option.isNone_iff_eq_none.mpr reached)
      obtain ⟨exc, failed⟩ := exec_tc_error fails
      rw [failed, if_neg works]
      exact ih iface

theorem Stored.attach (h : Stored l root ipToBand) {b : Band} (numbered : Numbered (done ++ [b]))
    (among : ∀ x ∈ l, x.1 ∈ done) (ips : List String) :
    Stored (l ++ [(b, ips)])
      { root with
        netem := root.netem.set (hexMinor b.2) ⟨bandHandle b.2, b.1.1⟩
        filters := ips.foldl (fun fs ip => Tc.insertFilter ⟨b.2, ip, hexMinor b.2⟩ fs) root.filters }
      (b.1.2.foldl (fun bands ip => bands.set ip b.info) ipToBand) := by
  have fresh : ∀ x ∈ l, x.1.2 ≠ b.2 := fun x member => numbered.fresh x.1 (among x member)
  constructor
  · intro m n
    rw [Dict.get?_set, exists_mem_append_singleton]
    split
    · rename_i here
      have none : ¬ ∃ x ∈ l, m = hexMinor x.1.2 ∧ n = ⟨bandHandle x.1.2, x.1.1.1⟩ := by
        rintro ⟨x, member, minor, -⟩
        exact fresh x member (hexMinor_injective (minor.symm.trans here))
      rw [or_iff_right none]
      simp [here, eq_comm]
    · rename_i other
      rw [h.netem, or_iff_left]
      exact fun new => other new.1
  · intro f
    rw [mem_foldl_insertFilter, exists_mem_append_singleton, h.filters]
  · intro ip info
    rw [get?_foldl_set, exists_mem_append_singleton]
    split
    · rename_i here
      have none : ¬ ∃ x ∈ l, ip ∈ x.1.1.2 ∧ info = x.1.info := by
        rintro ⟨x, member, also, -⟩
        have same := numbered.apart x.1 (List.mem_append_left _ (among x member)) b (by simp) ip also here
        exact fresh x member (congrArg Prod.snd same)
      rw [or_iff_right none]
      simp [here, eq_comm]
    · rename_i other
      rw [h.stored, or_iff_left]
      exact fun new => other new.1

/-- The loop over the bands, whichever of its commands succeed. -/
theorem exec_attachBands_at {bands : Nat} (iface : (c.node node).iface = some root) (size : root.bands = bands)
    (h : Stored l root ipToBand) (among : ∀ x ∈ l, x.1 ∈ done) (rest : List Band) (numbered : Numbered (done ++ rest)) :
    ∃ root' ipToBand' c', (attachBands node rest ipToBand).exec c = (.ok ipToBand', c') ∧
      (c'.node node).iface = some root' ∧ Stored (l ++ added bands c.outage rest) root' ipToBand' := by
  induction rest generalizing c root done l ipToBand with
  | nil =>
    unfold added
    rw [List.append_nil]
    exact ⟨root, ipToBand, c, rfl, iface, h⟩
  | cons b rest ih =>
    subst size
    rw [List.append_cons] at numbered
    have here : Numbered (done ++ [b]) := numbered.of_append
    obtain ⟨pos, small⟩ := here.small b (by simp)
    have free : root.netem.get? (hexMinor b.2) = none := by
      rw [Option.eq_none_iff_forall_ne_some]
      intro n found
      obtain ⟨x, member, minor, -⟩ := (h.netem _ n).mp found
      exact here.fresh x.1 (among x member) (hexMinor_injective minor.symm)
    have ran := run_addNetem pos small b.1.1 root free
    rw [← iface] at ran
    have among' : ∀ ips, ∀ x ∈ l ++ [(b, ips)], x.1 ∈ done ++ [b] := by
      intro ips x member
      rcases List.mem_append.mp member with old | new
      · exact List.mem_append_left _ (among x old)
      · rw [List.mem_singleton.mp new]
        exact List.mem_append_right _ (List.mem_singleton_self b)
    unfold added
    by_cases succeeds : ((c.outage 0).isNone && decide (hexMinor b.2 ≤ root.bands)) = true
    · obtain ⟨works, fits⟩ := Bool.and_eq_true_iff.mp succeeds
      rw [if_pos (of_decide_eq_true fits)] at ran
      have attached := exec_tc_at (Option.isNone_iff_eq_none.mp works) ran
      have installed : (((c.after 1).setIface node (some { root with
          netem := root.netem.set (hexMinor b.2) ⟨bandHandle b.2, b.1.1⟩ })).node node).iface =
            some { root with netem := root.netem.set (hexMinor b.2) ⟨bandHandle b.2, b.1.1⟩ } := by
        rw [iface_setIface, if_pos rfl]
      have filters := exec_addFilters_at installed small b.1.2
      rw [after_setIface, setIface_setIface, after_after] at filters
      let ips := filtered (later c.outage 1) b.1.2
      let root₁ : Tc.Prio := { root with
        netem := root.netem.set (hexMinor b.2) ⟨bandHandle b.2, b.1.1⟩
        filters := ips.foldl (fun fs ip => Tc.insertFilter ⟨b.2, ip, hexMinor b.2⟩ fs) root.filters }
      have reached : (((c.after (1 + b.1.2.length)).setIface node (some root₁)).node node).iface = some root₁ := by
        rw [iface_setIface, if_pos rfl]
      obtain ⟨root', ipToBand', c', loop, there, stored⟩ :=
        ih reached rfl (h.attach here among ips) (among' ips) numbered
      refine ⟨root', ipToBand', c', ?_, there, ?_⟩
      · rw [attachBands, Proc.exec_bind_ok (Proc.exec_attempt_ok attached), if_neg (by decide),
          Proc.exec_bind_ok filters]
        exact loop
      · rw [if_pos succeeds, List.append_cons]
        exact stored
    · have fails : c.outage 0 ≠ none ∨ Tc.run (.addNetem (bandParent b.2) (bandHandle b.2) b.1.1) (c.node node).iface = none := by
        by_cases works : c.outage 0 = none
        · refine Or.inr (ran.trans (if_neg fun fits => succeeds ?_))
          rw [works, decide_eq_true fits]
          rfl
        · exact Or.inl works
      obtain ⟨exc, failed⟩ := exec_tc_error fails
      obtain ⟨root', ipToBand', c', loop, there, stored⟩ := ih (c := c.after 1) iface rfl h
        (fun x member => List.mem_append_left _ (among x member)) numbered
      refine ⟨root', ipToBand', c', ?_, there, ?_⟩
      · rw [attachBands, Proc.exec_bind_ok (Proc.exec_attempt_error failed)]
        exact loop
      · rw [if_neg succeeds]
        exact stored

end Attach

/-! ## When the stored bands are true -/

theorem Serves.filter {root : Tc.Prio} {ip : String} {flowid : Nat} {netem : Tc.Netem}
    (h : Serves (some root) ip flowid netem) :
    (∃ f ∈ root.filters, f.dst = ip ∧ f.flowid = flowid) ∧ root.netem.get? flowid = some netem := by
  obtain ⟨_, same, rest⟩ := h
  cases same
  exact rest

/-- What is stored is true if and only if every address of an added band has its filter. -/
theorem Stored.truthful_iff {l : List (Band × List String)} {root : Tc.Prio} {stored : Dict String BandInfo}
    (h : Stored l root stored) (numbered : Numbered (l.map Prod.fst)) (inside : ∀ x ∈ l, ∀ ip ∈ x.2, ip ∈ x.1.1.2) :
    Truthful (some root) stored ↔ ∀ x ∈ l, ∀ ip ∈ x.1.1.2, ip ∈ x.2 := by
  have key : ∀ {ip}, ip ∈ stored.keys ↔ ∃ x ∈ l, ip ∈ x.1.1.2 := by
    intro ip
    rw [Dict.mem_keys_iff]
    constructor
    · rintro ⟨info, found⟩
      obtain ⟨x, member, among, -⟩ := (h.stored ip info).mp found
      exact ⟨x, member, among⟩
    · rintro ⟨x, member, among⟩
      exact ⟨x.1.info, (h.stored ip _).mpr ⟨x, member, among, rfl⟩⟩
  have serves : ∀ {x ip}, x ∈ l → ip ∈ x.2 →
      Serves (some root) ip (hexMinor x.1.2) ⟨bandHandle x.1.2, x.1.1.1⟩ := fun {x} ip member among =>
    ⟨root, rfl, ⟨_, (h.filters _).mpr ⟨x, member, ip, among, rfl⟩, rfl, rfl⟩, (h.netem _ _).mpr ⟨x, member, rfl, rfl⟩⟩
  have served : ∀ {ip flowid netem}, Serves (some root) ip flowid netem → ∃ x ∈ l, ip ∈ x.2 := by
    intro ip flowid netem serving
    obtain ⟨⟨f, among, rfl, -⟩, -⟩ := serving.filter
    obtain ⟨x, member, ip, filtered, rfl⟩ := (h.filters f).mp among
    exact ⟨x, member, filtered⟩
  constructor
  · intro truth x member ip among
    obtain ⟨flowid, netem, serving⟩ := (truth.keys ip).mp (key.mpr ⟨x, member, among⟩)
    obtain ⟨y, member', filtered⟩ := served serving
    -- an address belongs to one band
    have same := numbered.apart y.1 (List.mem_map_of_mem member') x.1 (List.mem_map_of_mem member) ip
      (inside y member' ip filtered) among
    have nodup : (l.map Prod.fst).Nodup := List.Nodup.of_map _ numbered.nodup
    rw [← List.inj_on_of_nodup_map nodup member' member same]
    exact filtered
  · intro all
    constructor
    · intro ip
      rw [key]
      constructor
      · rintro ⟨x, member, among⟩
        exact ⟨_, _, serves member (all x member ip among)⟩
      · rintro ⟨flowid, netem, serving⟩
        obtain ⟨x, member, filtered⟩ := served serving
        exact ⟨x, member, inside x member ip filtered⟩
    · intro ip info found
      obtain ⟨x, member, among, rfl⟩ := (h.stored ip info).mp found
      have small := (numbered.small x.1 (List.mem_map_of_mem member)).2
      exact ⟨_, _, serves member (all x member ip among), minor_bandParent x.1.2 small, rfl, rfl⟩

/-- Nothing can be stored truly of a node without a root qdisc. -/
theorem truthful_none_iff {stored : Dict String BandInfo} : Truthful none stored ↔ stored.keys = [] := by
  have nobody : ∀ ip, ¬ ∃ flowid netem, Serves none ip flowid netem := by
    rintro ip ⟨flowid, netem, root, none, -⟩
    cases none
  constructor
  · intro truth
    exact List.eq_nil_iff_forall_not_mem.mpr fun ip among => nobody ip ((truth.keys ip).mp among)
  · intro empty
    refine ⟨fun ip => ?_, fun ip info found => ?_⟩
    · rw [empty]
      exact iff_of_false List.not_mem_nil (nobody ip)
    · have among : ip ∈ stored.keys := (Dict.mem_keys_iff stored).mpr ⟨info, found⟩
      rw [empty] at among
      cases among

section Apply

variable {node : String} {dest : Dict String Int} {m : NetworkLatencyManager} {w : World Cluster}

/-- What `_apply_node` leaves where the root qdisc is added. -/
theorem exec_applyNode_added (clean : (w.env.node node).iface = none) (rootAdded : RootAdded dest w.env.outage) :
    ∃ root stored env, (applyNode node dest).exec (m, w) =
        (.ok (), { m with nodeBands := m.nodeBands.set node stored }, { w with env }) ∧
      (env.node node).iface = some root ∧
      Stored (added ((delayToIps dest).items.length + 1) (later w.env.outage 1) (bandsOf dest)) root stored := by
  obtain ⟨works, pos, few⟩ := rootAdded
  let size := (delayToIps dest).items.length + 1
  have prio : Tc.run (.addPrio size) (w.env.node node).iface = some (some ⟨size, Dict.empty, []⟩) := by
    rw [clean]
    exact if_pos ⟨by omega, by omega⟩
  have nothing : Stored [] ⟨size, Dict.empty, []⟩ Dict.empty := ⟨by simp, by simp, by simp⟩
  have reached : (((w.env.after 1).setIface node (some ⟨size, Dict.empty, []⟩)).node node).iface =
      some ⟨size, Dict.empty, []⟩ := by
    rw [iface_setIface, if_pos rfl]
  have none_done : ∀ x ∈ ([] : List (Band × List String)), x.1 ∈ ([] : List Band) := by simp
  obtain ⟨root, stored, env, ran, there, holds⟩ := exec_attachBands_at reached rfl nothing none_done (bandsOf dest)
    (numbered_bandsOf (by omega))
  refine ⟨root, stored, env, ?_, there, holds⟩
  rw [applyNode, Proc.exec_bind, exec_onCluster, Proc.exec_attempt_ok (exec_tc_at works prio)]
  dsimp only
  rw [if_neg (by decide), Proc.exec_bind, exec_onCluster]
  dsimp only
  rw [show (delayToIps dest).items.zipIdx 2 = bandsOf dest from rfl, ran]
  rfl

/-- What `_apply_node` leaves where it is not. -/
theorem exec_applyNode_refused (clean : (w.env.node node).iface = none) (refused : ¬ RootAdded dest w.env.outage) :
    ∃ env, (applyNode node dest).exec (m, w) = (.ok (), m, { w with env }) ∧ env.node = w.env.node := by
  have fails : w.env.outage 0 ≠ none ∨
      Tc.run (.addPrio ((delayToIps dest).items.length + 1)) (w.env.node node).iface = none := by
    by_cases works : w.env.outage 0 = none
    · refine Or.inr ?_
      rw [clean]
      exact if_neg fun bounds => refused ⟨works, by omega, by omega⟩
    · exact Or.inl works
  obtain ⟨exc, failed⟩ := exec_tc_error fails
  refine ⟨(w.env.after 1).after 1, ?_, rfl⟩
  rw [applyNode, Proc.exec_bind, exec_onCluster, Proc.exec_attempt_error failed]
  dsimp only
  rw [if_pos (by rfl), Proc.exec_bind, exec_onCluster, exec_discover_clean (c := w.env.after 1) clean]
  rfl

/-- On a node without a root qdisc, whichever commands of `_apply_node` fail, the stored bands are
true afterwards if and only if no filter fails for a band that was added. -/
theorem applyNode_truthful_iff (node : String) (dest : Dict String Int) (m m' : NetworkLatencyManager)
    (w w' : World Cluster) (result : Except PyExc Unit) (clean : (w.env.node node).iface = none)
    (ran : (applyNode node dest).exec (m, w) = (result, m', w')) :
    Truthful (w'.env.node node).iface (m'.getBandsForNode node) ↔
      FiltersAdded dest w.env.outage (m.getBandsForNode node) := by
  by_cases rootAdded : RootAdded dest w.env.outage
  · obtain ⟨root, stored, env, exec, there, holds⟩ := exec_applyNode_added (m := m) clean rootAdded
    obtain ⟨-, rfl, rfl⟩ := Prod.mk.inj (exec.symm.trans ran) |>.imp_right Prod.mk.inj
    have numbered : Numbered ((added ((delayToIps dest).items.length + 1) (later w.env.outage 1) (bandsOf dest)).map
        Prod.fst) := by
      have sublist := added_sublist ((delayToIps dest).items.length + 1) (later w.env.outage 1) (bandsOf dest)
      have all : Numbered (bandsOf dest) := numbered_bandsOf (by have := rootAdded.2.2; omega)
      exact ⟨(sublist.map Prod.snd).nodup all.nodup, fun b hb => all.small b (sublist.subset hb),
        fun b hb c hc => all.apart b (sublist.subset hb) c (sublist.subset hc)⟩
    rw [there, getBandsForNode_set, holds.truthful_iff numbered (added_subset _ _)]
    exact ⟨fun all => ⟨fun _ => all, fun refused => absurd rootAdded refused⟩, fun h => h.1 rootAdded⟩
  · obtain ⟨env, exec, node_eq⟩ := exec_applyNode_refused (m := m) clean rootAdded
    obtain ⟨-, rfl, rfl⟩ := Prod.mk.inj (exec.symm.trans ran) |>.imp_right Prod.mk.inj
    dsimp only
    rw [node_eq, clean, truthful_none_iff]
    exact ⟨fun empty => ⟨fun added => absurd added rootAdded, fun _ => empty⟩, fun h => h.2 rootAdded⟩

end Apply

/-! ## One refused command -/

section Examples

/-- The packets for one address are to be delayed. -/
def oneDelayed : Dict String Int := Dict.ofPairs [("10.0.0.2", 50)]

/-- Clean nodes, where the docker call with this number fails. -/
def refusing (call : Nat) : World Cluster where
  draws _ := 0
  env :=
    { node _ := { tables := ⟨fun _ => [], Dict.empty⟩, iface := none, files := fun _ => none }
      ip _ := none
      outage k := if k = call then some .calledProcessError else none }

/-- The result of `_apply_node` where one docker call fails. -/
def appliedRefusing (call : Nat) : Except PyExc Unit × NetworkLatencyManager × World Cluster :=
  (applyNode "pg1" oneDelayed).exec (init {}, refusing call)

/-- Where the band is refused, its address is not stored. -/
theorem refusedBand_truthful :
    Truthful ((appliedRefusing 1).2.2.env.node "pg1").iface ((appliedRefusing 1).2.1.getBandsForNode "pg1") := by
  refine (applyNode_truthful_iff "pg1" oneDelayed (init {}) _ (refusing 1) _ (appliedRefusing 1).1 rfl rfl).mpr ?_
  have refused : added 2 (later (refusing 1).env.outage 1) (bandsOf oneDelayed) = [] := by decide
  refine ⟨fun _ x among => ?_, fun _ => rfl⟩
  have length : (delayToIps oneDelayed).items.length + 1 = 2 := by decide
  rw [length, refused] at among
  exact absurd among List.not_mem_nil

/-- Where the filter is refused, the address is stored with a band that its packets do not reach. -/
theorem refusedFilter_not_truthful : ((refusing 2).env.node "pg1").iface = none ∧
    ¬ Truthful ((appliedRefusing 2).2.2.env.node "pg1").iface ((appliedRefusing 2).2.1.getBandsForNode "pg1") := by
  refine ⟨rfl, fun truth => ?_⟩
  have stored : "10.0.0.2" ∈ ((appliedRefusing 2).2.1.getBandsForNode "pg1").keys := by decide
  obtain ⟨flowid, netem, root, reached, ⟨f, among, -⟩, -⟩ := (truth.keys _).mp stored
  have unfiltered : (((appliedRefusing 2).2.2.env.node "pg1").iface.map (·.filters)) = some [] := by decide
  rw [reached, Option.map_some] at unfiltered
  rw [Option.some.inj unfiltered] at among
  exact absurd among List.not_mem_nil

end Examples

end NetworkLatencyManager

end FaultStorm
