import FaultStorm.Network.NetworkLatency

/-!
# The bands of a node

What `_apply_node` leaves on a node without a root qdisc. Band `i` is attached to the class
whose minor number is `i` read as hexadecimal, so only the bands below ten are sure to exist;
`Attached` describes the root qdisc and the stored bands by the list of numbered groups.
-/

namespace FaultStorm

open Python

namespace NetworkLatencyManager

/-! ## Grouping by delay -/

section Groups

variable {dest : Dict String Int}

theorem foldl_groups (items : List (String × Int)) (groups : Dict Int (List String)) (ms : Int) :
    (items.foldl (fun groups (ip, ms) => groups.set ms (groups.getD ms [] ++ [ip])) groups).getD ms [] =
        groups.getD ms [] ++ (items.filter (·.2 = ms)).map Prod.fst ∧
      (ms ∈ (items.foldl (fun groups (ip, ms) => groups.set ms (groups.getD ms [] ++ [ip])) groups).keys ↔
        ms ∈ groups.keys ∨ ms ∈ items.map Prod.snd) := by
  induction items generalizing groups with
  | nil => simp
  | cons item items ih =>
    obtain ⟨ip, delay⟩ := item
    rw [List.foldl_cons]
    obtain ⟨ips, keys⟩ := ih (groups.set delay (groups.getD delay [] ++ [ip]))
    rw [ips, keys, Dict.mem_keys_set]
    constructor
    · unfold Dict.getD
      rw [Dict.get?_set]
      by_cases same : ms = delay
      · subst same
        simp
      · have other : ¬ delay = ms := fun eq => same eq.symm
        simp [same, other]
    · rw [List.map_cons, List.mem_cons, ← or_assoc, or_comm (a := ms = delay)]

theorem getD_delayToIps (dest : Dict String Int) (ms : Int) :
    (delayToIps dest).getD ms [] = (dest.items.filter (·.2 = ms)).map Prod.fst :=
  (foldl_groups dest.items Dict.empty ms).1

theorem mem_keys_delayToIps {ms : Int} : ms ∈ (delayToIps dest).keys ↔ ms ∈ dest.items.map Prod.snd := by
  rw [delayToIps, (foldl_groups dest.items Dict.empty ms).2]
  exact or_iff_right List.not_mem_nil

/-- The addresses in the group of a delay are those with that delay. -/
theorem mem_group {ms : Int} {ips : List String} (group : (ms, ips) ∈ (delayToIps dest).items) {ip : String} :
    ip ∈ ips ↔ dest.get? ip = some ms := by
  have found := (Dict.get?_eq_some _).mpr group
  have addresses := getD_delayToIps dest ms
  rw [Dict.getD, found, Option.getD_some] at addresses
  rw [addresses, Dict.get?_eq_some]
  simp

theorem exists_group {ip : String} {ms : Int} (delayed : dest.get? ip = some ms) :
    ∃ ips, (ms, ips) ∈ (delayToIps dest).items ∧ ip ∈ ips := by
  have item := (Dict.get?_eq_some _).mp delayed
  have key : ms ∈ (delayToIps dest).keys := mem_keys_delayToIps.mpr (List.mem_map_of_mem item)
  obtain ⟨⟨_, ips⟩, group, rfl⟩ := List.mem_map.mp key
  exact ⟨ips, group, (mem_group group).mpr delayed⟩

/-- Each group has an address. -/
theorem group_ne_nil {ms : Int} {ips : List String} (group : (ms, ips) ∈ (delayToIps dest).items) : ips ≠ [] := by
  have key : ms ∈ (delayToIps dest).keys := List.mem_map_of_mem group
  obtain ⟨⟨ip, _⟩, item, rfl⟩ := List.mem_map.mp (mem_keys_delayToIps.mp key)
  exact List.ne_nil_of_mem ((mem_group group).mpr ((Dict.get?_eq_some _).mpr item))

end Groups

/-! ## Class ids -/

/-- The number that `tc` reads for a band below twenty. -/
def hexMinor (bandIdx : Nat) : Nat := if bandIdx < 10 then bandIdx else bandIdx + 6

theorem minor_bandParent : ∀ bandIdx < 20, Tc.minor (bandParent bandIdx) = some (hexMinor bandIdx) := by
  decide

theorem hexMinor_lt {i j : Nat} (lt : i < j) : hexMinor i < hexMinor j := by
  unfold hexMinor
  split <;> split <;> omega

theorem hexMinor_injective {i j : Nat} (same : hexMinor i = hexMinor j) : i = j := by
  rcases Nat.lt_trichotomy i j with lt | eq | gt
  · exact absurd same (hexMinor_lt lt).ne
  · exact eq
  · exact absurd same (hexMinor_lt gt).ne'

end NetworkLatencyManager

/-! ## tc commands on a node -/

namespace Cluster

/-- Put an interface in place of that of a node. -/
def setIface (c : Cluster) (name : String) (iface : Tc.Iface) : Cluster :=
  c.setNode name { c.node name with iface }

variable {c : Cluster}

theorem Works.setIface (works : c.Works) (name : String) (iface : Tc.Iface) : (c.setIface name iface).Works := works

theorem iface_setIface (c : Cluster) (name other : String) (iface : Tc.Iface) :
    ((c.setIface name iface).node other).iface = if other = name then iface else (c.node other).iface := by
  unfold setIface setNode
  dsimp only
  split <;> rfl

@[simp] theorem setIface_setIface (c : Cluster) (name : String) (i j : Tc.Iface) :
    (c.setIface name i).setIface name j = c.setIface name j := by
  unfold setIface setNode
  congr 1
  funext other
  by_cases here : other = name
  · simp [here]
  · simp [here]

theorem setIface_self {name : String} {iface : Tc.Iface} (same : (c.node name).iface = iface) :
    c.setIface name iface = c := by
  subst same
  exact setNode_self c name

theorem exec_tc (works : c.Works) {name : String} {command : Tc.Command} {iface : Tc.Iface}
    (ran : Tc.run command (c.node name).iface = some iface) :
    (ClusterManager.execOnNode name (.tc command)).exec c = (.ok (), c.setIface name iface) := by
  rw [exec_execOnNode works, Node.run, ran]
  rfl

theorem exec_tc_fails (works : c.Works) {name : String} {command : Tc.Command}
    (fails : Tc.run command (c.node name).iface = none) :
    (ClusterManager.execOnNode name (.tc command)).exec c = (.error .calledProcessError, c) := by
  rw [exec_execOnNode works, Node.run, fails]
  rfl

end Cluster

open Cluster NetworkLatency

namespace NetworkLatencyManager

/-! ## Attaching bands -/

/-- A group of addresses of one delay, with the number of its band. -/
abbrev Band := (Int × List String) × Nat

/-- The class of the band exists. -/
def Band.Fits (bands : Nat) (b : Band) : Prop := hexMinor b.2 ≤ bands

/-- What is stored of a band. -/
def Band.info (b : Band) : BandInfo := ⟨bandParent b.2, bandHandle b.2, b.1.1⟩

/-- Bands with numbers of their own and without a common address. -/
structure Numbered (l : List Band) : Prop where
  nodup : (l.map Prod.snd).Nodup
  small : ∀ b ∈ l, 2 ≤ b.2 ∧ b.2 < 20
  apart : ∀ b ∈ l, ∀ c ∈ l, ∀ ip ∈ b.1.2, ip ∈ c.1.2 → b = c

/-- The root qdisc and the stored bands after the bands of a list were attached, those that do
not fit left out. -/
structure Attached (bands : Nat) (l : List Band) (root : Tc.Prio) (ipToBand : Dict String BandInfo) : Prop where
  size : root.bands = bands
  netem : ∀ m n, root.netem.get? m = some n ↔
    ∃ b ∈ l, b.Fits bands ∧ m = hexMinor b.2 ∧ n = ⟨bandHandle b.2, b.1.1⟩
  filters : ∀ f, f ∈ root.filters ↔ ∃ b ∈ l, b.Fits bands ∧ ∃ ip ∈ b.1.2, f = ⟨b.2, ip, hexMinor b.2⟩
  stored : ∀ ip info, ipToBand.get? ip = some info ↔ ∃ b ∈ l, b.Fits bands ∧ ip ∈ b.1.2 ∧ info = b.info

section Attach

variable {c : Cluster} {node : String} {bands : Nat} {done : List Band} {root : Tc.Prio}
  {ipToBand : Dict String BandInfo}

theorem mem_insertFilter {f g : Tc.Filter} {filters : List Tc.Filter} :
    f ∈ Tc.insertFilter g filters ↔ f ∈ filters ∨ f = g := by
  unfold Tc.insertFilter
  rw [List.mem_append, List.mem_cons, or_left_comm, ← List.mem_append, List.takeWhile_append_dropWhile, or_comm]

theorem mem_foldl_insertFilter (prio flowid : Nat) (ips : List String) (filters : List Tc.Filter) (f : Tc.Filter) :
    f ∈ ips.foldl (fun fs ip => Tc.insertFilter ⟨prio, ip, flowid⟩ fs) filters ↔
      f ∈ filters ∨ ∃ ip ∈ ips, f = ⟨prio, ip, flowid⟩ := by
  induction ips generalizing filters with
  | nil => simp
  | cons ip ips ih =>
    rw [List.foldl_cons, ih, mem_insertFilter, or_assoc]
    simp

theorem exec_addFilters (works : c.Works) {root : Tc.Prio} (iface : (c.node node).iface = some root) {bandIdx : Nat}
    (small : bandIdx < 20) (ips : List String) :
    (Proc.forEach ips fun ip => Proc.swallow <|
        ClusterManager.execOnNode node (.tc (.addFilter bandIdx ip (bandParent bandIdx)))).exec c =
      (.ok (), c.setIface node (some { root with
        filters := ips.foldl (fun fs ip => Tc.insertFilter ⟨bandIdx, ip, hexMinor bandIdx⟩ fs) root.filters })) := by
  induction ips generalizing c root with
  | nil =>
    rw [List.foldl_nil, setIface_self iface]
    rfl
  | cons ip ips ih =>
    have one : (ClusterManager.execOnNode node (.tc (.addFilter bandIdx ip (bandParent bandIdx)))).exec c =
        (.ok (), c.setIface node (some { root with
          filters := Tc.insertFilter ⟨bandIdx, ip, hexMinor bandIdx⟩ root.filters })) := by
      apply exec_tc works
      rw [iface, Tc.run, minor_bandParent bandIdx small]
    have there : ((c.setIface node (some { root with
        filters := Tc.insertFilter ⟨bandIdx, ip, hexMinor bandIdx⟩ root.filters })).node node).iface =
          some { root with filters := Tc.insertFilter ⟨bandIdx, ip, hexMinor bandIdx⟩ root.filters } := by
      rw [iface_setIface, if_pos rfl]
    rw [Proc.forEach_cons, Proc.exec_bind_ok (Proc.exec_swallow _ c), one, ih (works.setIface _ _) there,
      setIface_setIface]
    rfl

/-- No band has the class of the packets without a delay. -/
theorem two_le_hexMinor {bandIdx : Nat} (pos : 2 ≤ bandIdx) : 2 ≤ hexMinor bandIdx := by
  unfold hexMinor
  split <;> omega

theorem run_addNetem {bandIdx : Nat} (pos : 2 ≤ bandIdx) (small : bandIdx < 20) (delayMs : Int) (root : Tc.Prio)
    (free : root.netem.get? (hexMinor bandIdx) = none) :
    Tc.run (.addNetem (bandParent bandIdx) (bandHandle bandIdx) delayMs) (some root) =
      if hexMinor bandIdx ≤ root.bands then
        some (some { root with netem := root.netem.set (hexMinor bandIdx) ⟨bandHandle bandIdx, delayMs⟩ })
      else none := by
  rw [Tc.run, minor_bandParent bandIdx small]
  by_cases fits : hexMinor bandIdx ≤ root.bands
  · rw [if_pos fits]
    exact if_pos ⟨by have := two_le_hexMinor pos; omega, fits, free⟩
  · rw [if_neg fits]
    exact if_neg fun h => fits h.2.1

/-- A band that does not fit changes nothing. -/
theorem Attached.skip (h : Attached bands done root ipToBand) {b : Band} (unfit : ¬ b.Fits bands) :
    Attached bands (done ++ [b]) root ipToBand := by
  have same : ∀ p : Band → Prop, (∃ x ∈ done ++ [b], x.Fits bands ∧ p x) ↔ ∃ x ∈ done, x.Fits bands ∧ p x := by
    intro p
    constructor
    · rintro ⟨x, member, fits, px⟩
      rcases List.mem_append.mp member with old | new
      · exact ⟨x, old, fits, px⟩
      · exact absurd (List.mem_singleton.mp new ▸ fits) unfit
    · rintro ⟨x, member, rest⟩
      exact ⟨x, List.mem_append_left _ member, rest⟩
  constructor
  · exact h.size
  · intro m n
    rw [same, h.netem]
  · intro f
    rw [same, h.filters]
  · intro ip info
    rw [same, h.stored]

theorem exists_mem_append_singleton {α : Type} {l : List α} {a : α} {p : α → Prop} :
    (∃ x ∈ l ++ [a], p x) ↔ (∃ x ∈ l, p x) ∨ p a := by
  constructor
  · rintro ⟨x, member, px⟩
    rcases List.mem_append.mp member with old | new
    · exact Or.inl ⟨x, old, px⟩
    · exact Or.inr (List.mem_singleton.mp new ▸ px)
  · rintro (⟨x, member, px⟩ | pa)
    · exact ⟨x, List.mem_append_left _ member, px⟩
    · exact ⟨a, by simp, pa⟩

theorem get?_foldl_set (info : BandInfo) (ips : List String) (bands : Dict String BandInfo) (ip : String) :
    (ips.foldl (fun bands ip => bands.set ip info) bands).get? ip =
      if ip ∈ ips then some info else bands.get? ip := by
  induction ips generalizing bands with
  | nil => simp
  | cons first ips ih =>
    rw [List.foldl_cons, ih, Dict.get?_set]
    by_cases here : ip = first
    · simp [here]
    · simp [here]

theorem Numbered.fresh {b : Band} (h : Numbered (done ++ [b])) : ∀ x ∈ done, x.2 ≠ b.2 := by
  intro x member same
  have nodup := h.nodup
  rw [List.map_append, List.nodup_append] at nodup
  exact nodup.2.2 x.2 (List.mem_map_of_mem member) b.2 (by simp) same

/-- The class of the next band has no qdisc yet. -/
theorem Attached.free (h : Attached bands done root ipToBand) {b : Band} (numbered : Numbered (done ++ [b])) :
    root.netem.get? (hexMinor b.2) = none := by
  rw [Option.eq_none_iff_forall_ne_some]
  intro n found
  obtain ⟨x, member, -, minor, -⟩ := (h.netem _ n).mp found
  exact numbered.fresh x member (hexMinor_injective minor.symm)

/-- A band that fits is attached behind the others. -/
theorem Attached.attach (h : Attached bands done root ipToBand) {b : Band} (numbered : Numbered (done ++ [b]))
    (fits : b.Fits bands) :
    Attached bands (done ++ [b])
      { root with
        netem := root.netem.set (hexMinor b.2) ⟨bandHandle b.2, b.1.1⟩
        filters := b.1.2.foldl (fun fs ip => Tc.insertFilter ⟨b.2, ip, hexMinor b.2⟩ fs) root.filters }
      (b.1.2.foldl (fun bands ip => bands.set ip b.info) ipToBand) := by
  have fresh := numbered.fresh
  constructor
  · exact h.size
  · intro m n
    rw [Dict.get?_set, exists_mem_append_singleton]
    split
    · rename_i here
      have none : ¬ ∃ x ∈ done, x.Fits bands ∧ m = hexMinor x.2 ∧ n = ⟨bandHandle x.2, x.1.1⟩ := by
        rintro ⟨x, member, -, minor, -⟩
        exact fresh x member (hexMinor_injective (minor.symm.trans here))
      rw [or_iff_right none]
      simp [fits, here, eq_comm]
    · rename_i other
      rw [h.netem, or_iff_left]
      exact fun new => other new.2.1
  · intro f
    rw [mem_foldl_insertFilter, exists_mem_append_singleton, h.filters]
    exact or_congr_right ⟨fun new => ⟨fits, new⟩, fun new => new.2⟩
  · intro ip info
    rw [get?_foldl_set, exists_mem_append_singleton]
    split
    · rename_i here
      have none : ¬ ∃ x ∈ done, x.Fits bands ∧ ip ∈ x.1.2 ∧ info = x.info := by
        rintro ⟨x, member, -, also, -⟩
        have same := numbered.apart x (List.mem_append_left _ member) b (by simp) ip also here
        exact fresh x member (congrArg Prod.snd same)
      rw [or_iff_right none]
      simp [fits, here, eq_comm]
    · rename_i other
      rw [h.stored, or_iff_left]
      exact fun new => other new.2.1

/-- The first filter for an address of a band that fits is that of its band. -/
theorem Attached.find_filter {l : List Band} (h : Attached bands l root ipToBand) (numbered : Numbered l) {b : Band}
    (member : b ∈ l) (fits : b.Fits bands) {ip : String} (inside : ip ∈ b.1.2) :
    root.filters.find? (·.dst = ip) = some ⟨b.2, ip, hexMinor b.2⟩ := by
  have filter : (⟨b.2, ip, hexMinor b.2⟩ : Tc.Filter) ∈ root.filters := (h.filters _).mpr ⟨b, member, fits, ip, inside, rfl⟩
  cases found : root.filters.find? (·.dst = ip) with
  | none =>
    have missed := List.find?_eq_none.mp found _ filter
    simp at missed
  | some f =>
    have matched := List.find?_some found
    obtain ⟨x, among, -, other, also, rfl⟩ := (h.filters f).mp (List.mem_of_find?_eq_some found)
    have same : other = ip := by simpa using matched
    rw [numbered.apart x among b member ip (same ▸ also) inside, same]

theorem Numbered.of_append {l k : List Band} (h : Numbered (l ++ k)) : Numbered l where
  nodup := by
    have nodup := h.nodup
    rw [List.map_append] at nodup
    exact nodup.of_append_left
  small b member := h.small b (List.mem_append_left _ member)
  apart b hb c hc := h.apart b (List.mem_append_left _ hb) c (List.mem_append_left _ hc)

/-- The loop over the bands attaches those that fit. -/
theorem exec_attachBands (works : c.Works) (iface : (c.node node).iface = some root)
    (h : Attached bands done root ipToBand) (rest : List Band) (numbered : Numbered (done ++ rest)) :
    ∃ root' ipToBand', (attachBands node rest ipToBand).exec c = (.ok ipToBand', c.setIface node (some root')) ∧
      Attached bands (done ++ rest) root' ipToBand' := by
  induction rest generalizing c root done ipToBand with
  | nil =>
    rw [List.append_nil, ← setIface_self iface]
    exact ⟨root, ipToBand, by rw [setIface_setIface]; rfl, h⟩
  | cons b rest ih =>
    rw [List.append_cons] at numbered ⊢
    have here : Numbered (done ++ [b]) := numbered.of_append
    obtain ⟨pos, small⟩ := here.small b (by simp)
    have added := run_addNetem pos small b.1.1 root (h.free here)
    have fits_iff : b.Fits bands ↔ hexMinor b.2 ≤ root.bands := by rw [h.size, Band.Fits]
    rw [← iface] at added
    by_cases fits : b.Fits bands
    · rw [if_pos (fits_iff.mp fits)] at added
      have reached : ((c.setIface node (some { root with
          netem := root.netem.set (hexMinor b.2) ⟨bandHandle b.2, b.1.1⟩ })).node node).iface =
            some { root with netem := root.netem.set (hexMinor b.2) ⟨bandHandle b.2, b.1.1⟩ } := by
        rw [iface_setIface, if_pos rfl]
      have filtered := exec_addFilters (works.setIface node _) reached small b.1.2
      rw [setIface_setIface] at filtered
      obtain ⟨root', ipToBand', ran, attached⟩ := ih (works.setIface node _)
        (by rw [iface_setIface, if_pos rfl]) (h.attach here fits) numbered
      refine ⟨root', ipToBand', ?_, attached⟩
      rw [setIface_setIface] at ran
      rw [attachBands, Proc.exec_bind_ok (Proc.exec_attempt_ok (exec_tc works added)),
        if_neg (by decide), Proc.exec_bind_ok filtered]
      exact ran
    · rw [if_neg fun le => fits (fits_iff.mpr le)] at added
      obtain ⟨root', ipToBand', ran, attached⟩ := ih works iface (h.skip fits) numbered
      refine ⟨root', ipToBand', ?_, attached⟩
      rw [attachBands, Proc.exec_bind_ok (Proc.exec_attempt_error (exec_tc_fails works added))]
      exact ran

end Attach

/-! ## A node without a root qdisc -/

section Apply

variable {node : String} {dest : Dict String Int} {m : NetworkLatencyManager} {w : World Cluster}

/-- The numbered groups of the addresses of a node. -/
def bandsOf (dest : Dict String Int) : List Band := (delayToIps dest).items.zipIdx 2

theorem mem_bandsOf {b : Band} (member : b ∈ bandsOf dest) :
    b.1 ∈ (delayToIps dest).items ∧ 2 ≤ b.2 ∧ b.2 < (delayToIps dest).items.length + 2 := by
  obtain ⟨lower, upper, eq⟩ := List.mem_zipIdx member
  refine ⟨?_, lower, by omega⟩
  rw [eq]
  exact List.getElem_mem _

/-- The addresses of a band are those with its delay. -/
theorem mem_bandsOf_ips {b : Band} (member : b ∈ bandsOf dest) {ip : String} :
    ip ∈ b.1.2 ↔ dest.get? ip = some b.1.1 :=
  mem_group (mem_bandsOf member).1

theorem exists_bandsOf {ip : String} {ms : Int} (delayed : dest.get? ip = some ms) :
    ∃ b ∈ bandsOf dest, ip ∈ b.1.2 ∧ b.1.1 = ms := by
  obtain ⟨ips, group, member⟩ := exists_group delayed
  obtain ⟨i, inside, eq⟩ := List.getElem_of_mem group
  refine ⟨((ms, ips), 2 + i), ?_, member, rfl⟩
  rw [bandsOf, List.mem_zipIdx_iff_le_and_getElem?_sub]
  exact ⟨by omega, by rw [List.getElem?_eq_some_iff]; exact ⟨by omega, by simpa using eq⟩⟩

/-- Some address is delayed, where there is a group. -/
theorem exists_delayed {b : Band} (member : b ∈ bandsOf dest) : ∃ ip ∈ b.1.2, dest.get? ip = some b.1.1 := by
  obtain ⟨ip, inside⟩ := List.exists_mem_of_ne_nil _ (group_ne_nil (mem_bandsOf member).1)
  exact ⟨ip, inside, (mem_bandsOf_ips member).mp inside⟩

/-- Up to eight bands fit. -/
theorem fits_of_mem {b : Band} (member : b ∈ bandsOf dest) (few : (delayToIps dest).items.length ≤ 8) :
    b.Fits ((delayToIps dest).items.length + 1) := by
  have bounds := (mem_bandsOf member).2
  unfold Band.Fits hexMinor
  rw [if_pos (by omega)]
  omega

theorem numbered_bandsOf (few : (delayToIps dest).items.length < 18) : Numbered (bandsOf dest) where
  nodup := by
    rw [bandsOf, List.zipIdx_map_snd]
    exact List.nodup_range'
  small b member := by
    have bounds := (mem_bandsOf member).2
    omega
  apart b hb c hc ip one two := by
    rw [mem_bandsOf_ips hb] at one
    rw [mem_bandsOf_ips hc, one] at two
    have key : b.1.1 = c.1.1 := Option.some.inj two
    obtain ⟨lowB, highB, atB⟩ := List.mem_zipIdx hb
    obtain ⟨lowC, highC, atC⟩ := List.mem_zipIdx hc
    have nodup := (delayToIps dest).nodup
    have insideB : b.2 - 2 < ((delayToIps dest).items.map Prod.fst).length := by rw [List.length_map]; omega
    have insideC : c.2 - 2 < ((delayToIps dest).items.map Prod.fst).length := by rw [List.length_map]; omega
    have index : b.2 - 2 = c.2 - 2 := by
      rw [← @List.Nodup.getElem_inj_iff _ _ nodup _ insideB _ insideC]
      rw [List.getElem_map, List.getElem_map, ← atB, ← atC, key]
    have number : b.2 = c.2 := by omega
    refine Prod.ext ?_ number
    rw [atB, atC]
    simp only [index]

@[simp] theorem getBandsForNode_set (m : NetworkLatencyManager) (node : String) (bands : Dict String BandInfo) :
    getBandsForNode { m with nodeBands := m.nodeBands.set node bands } node = bands := by
  rw [getBandsForNode, Dict.getD, Dict.get?_set_self, Option.getD_some]

theorem attached_nil (bands : Nat) : Attached bands [] ⟨bands, Dict.empty, []⟩ Dict.empty where
  size := rfl
  netem m n := by simp
  filters f := by simp
  stored ip info := by simp

theorem delayToIps_ne_nil (some_delay : dest.items ≠ []) : 0 < (delayToIps dest).items.length := by
  obtain ⟨⟨ip, ms⟩, item⟩ := List.exists_mem_of_ne_nil _ some_delay
  obtain ⟨ips, group, -⟩ := exists_group ((Dict.get?_eq_some _).mpr item)
  exact List.length_pos_of_mem group

/-- On a node without a root qdisc, up to sixteen bands can be had. -/
theorem exec_applyNode (works : w.env.Works) (clean : (w.env.node node).iface = none)
    (some_delay : dest.items ≠ []) (few : (delayToIps dest).items.length ≤ 15) :
    ∃ root ipToBand,
      (applyNode node dest).exec (m, w) =
        (.ok (), { m with nodeBands := m.nodeBands.set node ipToBand },
          { w with env := w.env.setIface node (some root) }) ∧
      Attached ((delayToIps dest).items.length + 1) (bandsOf dest) root ipToBand := by
  have pos := delayToIps_ne_nil some_delay
  let size := (delayToIps dest).items.length + 1
  have added : Tc.run (.addPrio size) (w.env.node node).iface = some (some ⟨size, Dict.empty, []⟩) := by
    rw [clean]
    exact if_pos ⟨by omega, by omega⟩
  obtain ⟨root, ipToBand, ran, attached⟩ := exec_attachBands (works.setIface node (some ⟨size, Dict.empty, []⟩))
    (by rw [iface_setIface, if_pos rfl]) (attached_nil size) (bandsOf dest) (numbered_bandsOf (by omega))
  rw [setIface_setIface] at ran
  refine ⟨root, ipToBand, ?_, attached⟩
  rw [applyNode, Proc.exec_bind, exec_onCluster, Proc.exec_attempt_ok (exec_tc works added)]
  dsimp only
  rw [if_neg (by decide), Proc.exec_bind, exec_onCluster]
  dsimp only
  rw [show (delayToIps dest).items.zipIdx 2 = bandsOf dest from rfl, ran]
  rfl

/-- On a node without a root qdisc no bands are discovered, whether or not the calls succeed. -/
theorem exec_discover_clean {c : Cluster} (clean : (c.node node).iface = none)
    (targetIps : List String) : (discoverBandsForIps node targetIps).exec c = (.ok Dict.empty, c.after 1) := by
  have silent : netemRe.finditer (Tc.showQdisc none) = [] := by decide
  have none_found : parseNetemBands (Tc.showQdisc none) = .ok Dict.empty := by
    rw [parseNetemBands, silent]
    rfl
  have read := exec_readOnNode_eq c node fun n => Tc.showQdisc n.iface
  unfold discoverBandsForIps
  cases outage : c.outage 0 with
  | some exc =>
    rw [outage] at read
    rw [Proc.exec_bind_ok (Proc.exec_orNone_error read)]
    rfl
  | none =>
    rw [outage] at read
    rw [Proc.exec_bind_ok (Proc.exec_orNone_ok read), clean]
    dsimp only
    rw [none_found]
    rfl

/-- With more bands than `prio` takes, nothing is installed. -/
theorem exec_applyNode_fails (works : w.env.Works) (clean : (w.env.node node).iface = none)
    (many : 15 < (delayToIps dest).items.length) :
    (applyNode node dest).exec (m, w) = (.ok (), m, w) := by
  have failed : Tc.run (.addPrio ((delayToIps dest).items.length + 1)) (w.env.node node).iface = none := by
    rw [clean]
    exact if_neg fun h => by omega
  rw [applyNode, Proc.exec_bind, exec_onCluster, Proc.exec_attempt_error (exec_tc_fails works failed)]
  dsimp only
  rw [if_pos (by rfl), Proc.exec_bind, exec_onCluster, exec_discover_clean clean, works.after]
  rfl

end Apply

end NetworkLatencyManager

end FaultStorm
