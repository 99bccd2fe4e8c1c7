import FaultStorm.Network.FreezeDropRestore

/-!
# Neutral calls

A call of freeze, drop and restore leaves the interface of the node as it was if the kill
callback returns. Every step changes the `netem` qdisc of one class; `Stands` describes the
interface in between by a view of these qdiscs.
-/

namespace FaultStorm

open Python Cluster WatchedM

/-- The band that the filters queue the packets for an address in. -/
def liveBand (iface : Tc.Iface) (ip : String) : Option BandInfo := do
  let root ← iface
  let f ← root.filters.find? (·.dst = ip)
  let netem ← root.netem.get? f.flowid
  return ⟨Tc.showClass f.flowid, netem.handle, netem.delayMs⟩

end FaultStorm

namespace Tc

open Python

/-- Two root qdiscs have the same filters, and the same `netem` qdiscs outside of some classes. -/
structure Prio.AgreesOff (root : Prio) (classes : Nat → Prop) (other : Prio) : Prop where
  bands : other.bands = root.bands
  filters : other.filters = root.filters
  netem : ∀ n, ¬ classes n → other.netem.get? n = root.netem.get? n

/-- The same qdiscs, delays and filters. -/
def Same : Iface → Iface → Prop
  | none, none => True
  | some root, some other => root.AgreesOff (fun _ => False) other
  | _, _ => False

/-- The command is about the `netem` qdisc of this class. -/
def Command.concerns (n : Nat) : Command → Bool
  | .addNetem parent _ _ | .changeNetem parent _ _ | .delNetem parent _ => minor parent = some n
  | _ => false

end Tc

namespace FaultStorm

open Python Cluster WatchedM

/-- The filters queue the packets for one of the addresses in this class. -/
def Queues (root : Tc.Prio) (targetIps : List String) (n : Nat) : Prop :=
  ∃ ip ∈ targetIps, ∃ f, root.filters.find? (·.dst = ip) = some f ∧ f.flowid = n ∧ (root.netem.get? n).isSome

/-- The interface is as it was, no band was ever changed but those of the addresses, and each of
these was frozen and restored once. -/
structure Neutral (before after : Tc.Iface) (targetIps : List String) (log : List (Tc.Command × Tc.Iface)) : Prop where
  same : Tc.Same before after
  spared : ∀ root, before = some root → ∀ x ∈ log, ∃ other, x.2 = some other ∧ root.AgreesOff (Queues root targetIps) other
  once : ∀ root, before = some root → ∀ n netem, Queues root targetIps n → root.netem.get? n = some netem →
    (log.map Prod.fst).filter (Tc.Command.concerns n) =
      [.changeNetem (Tc.showClass n) netem.handle freezeDelayMs, .delNetem (Tc.showClass n) netem.handle,
        .addNetem (Tc.showClass n) netem.handle netem.delayMs]

/-! ## One command -/

section Stands

variable {c : Cluster} {node : String} {root : Tc.Prio} {p : Nat → Prop} {view : Nat → Option Tc.Netem}
  {commands : List Tc.Command} {s : Watched}

/-- After these commands, the interface of the node is the root with other `netem` qdiscs, and
only those of the classes in `p` were ever changed. -/
structure Stands (c : Cluster) (node : String) (root : Tc.Prio) (p : Nat → Prop) (view : Nat → Option Tc.Netem)
    (commands : List Tc.Command) (s : Watched) : Prop where
  works : c.Works
  reached : ∃ netem, s.env = c.setIface node (some { root with netem }) ∧ ∀ n, netem.get? n = view n
  outside : ∀ n, ¬ p n → view n = root.netem.get? n
  commands : s.log.map Prod.fst = commands
  spared : ∀ x ∈ s.log, ∃ r, x.2 = some r ∧ root.AgreesOff p r

theorem Stands.run (h : Stands c node root p view commands s) {command : Tc.Command} {view' : Nat → Option Tc.Netem}
    (outside : ∀ n, ¬ p n → view' n = root.netem.get? n)
    (ran : ∀ netem : Dict Nat Tc.Netem, (∀ n, netem.get? n = view n) → ∃ netem' : Dict Nat Tc.Netem,
      Tc.run command (some { root with netem }) = some (some { root with netem := netem' }) ∧
        ∀ n, netem'.get? n = view' n) :
    ∃ t, (Proc.swallow (tcOnNode node command)).exec s = (.ok (), t) ∧
      Stands c node root p view' (commands ++ [command]) t := by
  obtain ⟨netem, env, reads⟩ := h.reached
  obtain ⟨netem', run, reads'⟩ := ran netem reads
  have iface : (s.env.node node).iface = some { root with netem } := by
    rw [env, iface_setIface, if_pos rfl]
  rw [← iface] at run
  have works : s.env.Works := by
    rw [env]
    exact h.works
  have exec : (ClusterManager.execOnNode node (.tc command)).exec s.env =
      (.ok (), c.setIface node (some { root with netem := netem' })) := by
    rw [exec_tc works run, env, setIface_setIface]
  have after : ((c.setIface node (some { root with netem := netem' })).node node).iface =
      some { root with netem := netem' } := by
    rw [iface_setIface, if_pos rfl]
  have step : (tcOnNode node command).exec s = (.ok (), ⟨c.setIface node (some { root with netem := netem' }),
      s.log ++ [(command, some { root with netem := netem' })]⟩) := by
    show tcOnNode node command s = _
    rw [tcOnNode, exec]
    dsimp only
    rw [after]
  refine ⟨_, (Proc.exec_swallow _ s).trans (by rw [step]), h.works, ⟨netem', rfl, reads'⟩, outside, ?_, ?_⟩
  · rw [List.map_append, h.commands]
    rfl
  · intro x member
    rcases List.mem_append.mp member with old | new
    · exact h.spared x old
    · rw [List.mem_singleton.mp new]
      exact ⟨_, rfl, rfl, rfl, fun n free => (reads' n).trans (outside n free)⟩

/-- The outside of a view is the same after a change of a class in `p`. -/
theorem Stands.outside_update (h : Stands c node root p view commands s) {n : Nat} (inside : p n)
    (netem : Option Tc.Netem) : ∀ m, ¬ p m → Function.update view n netem m = root.netem.get? m := by
  intro m free
  have other : m ≠ n := fun eq => free (eq ▸ inside)
  rw [Function.update_of_ne other]
  exact h.outside m free

theorem netemAt_showClass {netem : Dict Nat Tc.Netem} {n : Nat} {found : Tc.Netem} (there : netem.get? n = some found) :
    ({ root with netem } : Tc.Prio).netemAt (Tc.showClass n) found.handle = some n :=
  Tc.Prio.netemAt_eq_some.mpr ⟨Tc.minor_showClass n, found, there, rfl⟩

theorem Stands.change (h : Stands c node root p view commands s) {n : Nat} (inside : p n) {netem : Tc.Netem}
    (there : view n = some netem) (delayMs : Int) :
    ∃ t, (Proc.swallow (tcOnNode node (.changeNetem (Tc.showClass n) netem.handle delayMs))).exec s = (.ok (), t) ∧
      Stands c node root p (Function.update view n (some ⟨netem.handle, delayMs⟩))
        (commands ++ [.changeNetem (Tc.showClass n) netem.handle delayMs]) t := by
  apply h.run (h.outside_update inside _)
  intro qdiscs reads
  refine ⟨qdiscs.set n ⟨netem.handle, delayMs⟩, ?_, fun m => ?_⟩
  · rw [Tc.run, netemAt_showClass ((reads n).trans there), Option.map_some]
  · rw [Dict.get?_set, Function.update_apply, reads]

theorem Stands.delete (h : Stands c node root p view commands s) {n : Nat} (inside : p n) {netem : Tc.Netem}
    (there : view n = some netem) :
    ∃ t, (Proc.swallow (tcOnNode node (.delNetem (Tc.showClass n) netem.handle))).exec s = (.ok (), t) ∧
      Stands c node root p (Function.update view n none)
        (commands ++ [.delNetem (Tc.showClass n) netem.handle]) t := by
  apply h.run (h.outside_update inside _)
  intro qdiscs reads
  refine ⟨qdiscs.erase n, ?_, fun m => ?_⟩
  · rw [Tc.run, netemAt_showClass ((reads n).trans there), Option.map_some]
  · rw [Dict.get?_erase, Function.update_apply, reads]

theorem Stands.add (h : Stands c node root p view commands s) {n : Nat} (inside : p n) (free : view n = none)
    (pos : 1 ≤ n) (fits : n ≤ root.bands) (netem : Tc.Netem) :
    ∃ t, (Proc.swallow (tcOnNode node (.addNetem (Tc.showClass n) netem.handle netem.delayMs))).exec s = (.ok (), t) ∧
      Stands c node root p (Function.update view n (some netem))
        (commands ++ [.addNetem (Tc.showClass n) netem.handle netem.delayMs]) t := by
  apply h.run (h.outside_update inside _)
  intro qdiscs reads
  refine ⟨qdiscs.set n netem, ?_, fun m => ?_⟩
  · rw [Tc.run, Tc.minor_showClass]
    exact if_pos ⟨pos, fits, (reads n).trans free⟩
  · rw [Dict.get?_set, Function.update_apply, reads]

end Stands

/-! ## The loops -/

section Loops

variable {c : Cluster} {node : String} {root : Tc.Prio} {p : Nat → Prop} {commands : List Tc.Command} {s : Watched}

/-- The band of a `netem` qdisc. -/
def bandOf (item : Nat × Tc.Netem) : BandInfo := ⟨Tc.showClass item.1, item.2.handle, item.2.delayMs⟩

def freezeCommand (item : Nat × Tc.Netem) : Tc.Command :=
  .changeNetem (Tc.showClass item.1) item.2.handle freezeDelayMs

def resetCommands (item : Nat × Tc.Netem) : List Tc.Command :=
  [.delNetem (Tc.showClass item.1) item.2.handle, .addNetem (Tc.showClass item.1) item.2.handle item.2.delayMs]

/-- The `netem` qdiscs of the root, those of a list frozen. -/
def heldView (root : Tc.Prio) (l : List (Nat × Tc.Netem)) (n : Nat) : Option Tc.Netem :=
  match l.lookup n with
  | some netem => some ⟨netem.handle, freezeDelayMs⟩
  | none => root.netem.get? n

/-- The items of `frozen_bands`. -/
def frozenItems (l : List (Nat × Tc.Netem)) : List (List Char × BandInfo) :=
  l.map fun item => (Tc.showClass item.1, bandOf item)

theorem showClass_injective {m n : Nat} (same : Tc.showClass m = Tc.showClass n) : m = n :=
  Option.some.inj ((Tc.minor_showClass m).symm.trans ((congrArg Tc.minor same).trans (Tc.minor_showClass n)))

theorem lookup_none_of_fresh {l : List (Nat × Tc.Netem)} {n : Nat} (fresh : n ∉ l.map Prod.fst) : l.lookup n = none := by
  rw [List.lookup_eq_none_iff]
  intro item member
  have other : n ≠ item.1 := fun eq => fresh (eq ▸ List.mem_map_of_mem member)
  simpa using other

theorem heldView_fresh {l : List (Nat × Tc.Netem)} {n : Nat} (fresh : n ∉ l.map Prod.fst) :
    heldView root l n = root.netem.get? n := by
  rw [heldView, lookup_none_of_fresh fresh]

theorem heldView_concat {l : List (Nat × Tc.Netem)} {item : Nat × Tc.Netem} (fresh : item.1 ∉ l.map Prod.fst) :
    Function.update (heldView root l) item.1 (some ⟨item.2.handle, freezeDelayMs⟩) = heldView root (l ++ [item]) := by
  funext m
  rw [Function.update_apply]
  unfold heldView
  rw [List.lookup_append]
  split
  · rename_i here
    have first : [item].lookup item.1 = some item.2 := List.lookup_cons_self
    rw [here, lookup_none_of_fresh fresh, Option.none_or, first]
  · rename_i other
    have skip : [item].lookup m = none := by simp [other]
    rw [skip, Option.or_none]

theorem heldView_cons {rest : List (Nat × Tc.Netem)} {item : Nat × Tc.Netem} (fresh : item.1 ∉ rest.map Prod.fst)
    (live : root.netem.get? item.1 = some item.2) :
    Function.update (Function.update (heldView root (item :: rest)) item.1 none) item.1 (some item.2) =
      heldView root rest := by
  funext m
  rw [Function.update_idem, Function.update_apply]
  split
  · rename_i here
    rw [here, heldView_fresh fresh, live]
  · rename_i other
    unfold heldView
    rw [List.lookup_cons, beq_eq_false_iff_ne.mpr other]

/-- The freezing loop freezes each band once. -/
theorem exec_freezeBands (matched : List (String × BandInfo)) {l : List (Nat × Tc.Netem)}
    {frozen : Dict (List Char) BandInfo} (items : frozen.items = frozenItems l)
    (matches_live : ∀ x ∈ matched, ∃ item, x.2 = bandOf item ∧ root.netem.get? item.1 = some item.2 ∧ p item.1)
    (live : ∀ item ∈ l, root.netem.get? item.1 = some item.2 ∧ p item.1)
    (h : Stands c node root p (heldView root l) (l.map freezeCommand) s) :
    ∃ l' frozen' t, (freezeBands node matched frozen).exec s = (.ok frozen', t) ∧ frozen'.items = frozenItems l' ∧
      Stands c node root p (heldView root l') (l'.map freezeCommand) t ∧ l ⊆ l' ∧
      (∀ item ∈ l', root.netem.get? item.1 = some item.2 ∧ p item.1) ∧ ∀ x ∈ matched, ∃ item ∈ l', x.2 = bandOf item := by
  induction matched generalizing l frozen s with
  | nil => exact ⟨l, frozen, s, rfl, items, h, List.Subset.refl l, live, fun x among => absurd among List.not_mem_nil⟩
  | cons x matched ih =>
    obtain ⟨ip, band⟩ := x
    obtain ⟨item, same, there, inside⟩ := matches_live (ip, band) List.mem_cons_self
    obtain rfl : band = bandOf item := same
    have rest_live := fun x member => matches_live x (List.mem_cons_of_mem _ member)
    have keys : frozen.keys = l.map fun item => Tc.showClass item.1 := by
      rw [Dict.keys, items, frozenItems, List.map_map]
      rfl
    by_cases known : Tc.showClass item.1 ∈ frozen.keys
    · -- the band of another address: it is frozen already
      obtain ⟨l', frozen', t, ran, items', stands, sub, live', found⟩ := ih items rest_live live h
      have member : item ∈ l := by
        rw [keys] at known
        obtain ⟨other, member, parent⟩ := List.mem_map.mp known
        have class_eq := showClass_injective parent
        have netem_eq := (live other member).1
        rw [class_eq, there] at netem_eq
        rwa [← Prod.ext class_eq (Option.some.inj netem_eq).symm]
      refine ⟨l', frozen', t, ?_, items', stands, sub, live', ?_⟩
      · rw [freezeBands]
        exact (congrArg (Proc.exec · s) (if_pos known)).trans ran
      · intro x among
        rcases List.mem_cons.mp among with rfl | among
        · exact ⟨item, sub member, rfl⟩
        · exact found x among
    · have fresh : item.1 ∉ l.map Prod.fst := by
        intro member
        rw [keys] at known
        obtain ⟨other, member, class_eq⟩ := List.mem_map.mp member
        exact known (List.mem_map.mpr ⟨other, member, congrArg Tc.showClass class_eq⟩)
      obtain ⟨t, changed, stands⟩ := h.change inside ((heldView_fresh fresh).trans there) freezeDelayMs
      rw [heldView_concat fresh] at stands
      have commands : l.map freezeCommand ++ [freezeCommand item] = (l ++ [item]).map freezeCommand := by
        rw [List.map_append]
        rfl
      have items' : (frozen.set (Tc.showClass item.1) (bandOf item)).items = frozenItems (l ++ [item]) := by
        rw [Dict.items_set_of_not_mem known, items, frozenItems, frozenItems, List.map_append]
        rfl
      have live' : ∀ x ∈ l ++ [item], root.netem.get? x.1 = some x.2 ∧ p x.1 := by
        intro x member
        rcases List.mem_append.mp member with old | new
        · exact live x old
        · rw [List.mem_singleton.mp new]
          exact ⟨there, inside⟩
      obtain ⟨l', frozen', u, ran, items'', stands', sub, live'', found⟩ :=
        ih items' rest_live live' (commands ▸ stands)
      refine ⟨l', frozen', u, ?_, items'', stands', fun x member => sub (List.mem_append_left _ member), live'', ?_⟩
      · rw [freezeBands]
        refine (congrArg (Proc.exec · s) (if_neg known)).trans ?_
        exact (Proc.exec_bind_ok changed).trans ran
      · intro x among
        rcases List.mem_cons.mp among with rfl | among
        · exact ⟨item, sub (List.mem_append_right _ (List.mem_singleton_self item)), rfl⟩
        · exact found x among

/-- The last loop gives each frozen band its delay back. -/
theorem exec_restore {rest : List (Nat × Tc.Netem)} (nodup : (rest.map Prod.fst).Nodup)
    (formed : ∀ n netem, root.netem.get? n = some netem → 1 ≤ n ∧ n ≤ root.bands)
    (live : ∀ item ∈ rest, root.netem.get? item.1 = some item.2 ∧ p item.1)
    (h : Stands c node root p (heldView root rest) commands s) :
    ∃ t, (Proc.forEach (frozenItems rest) fun (_, band) => resetNetemBand node band band.delayMs).exec s = (.ok (), t) ∧
      Stands c node root p root.netem.get? (commands ++ rest.flatMap resetCommands) t := by
  induction rest generalizing commands s with
  | nil =>
    rw [List.flatMap_nil, List.append_nil]
    exact ⟨s, rfl, h⟩
  | cons item rest ih =>
    obtain ⟨there, inside⟩ := live item List.mem_cons_self
    obtain ⟨fresh, nodup⟩ := List.nodup_cons.mp nodup
    have held : heldView root (item :: rest) item.1 = some ⟨item.2.handle, freezeDelayMs⟩ := by
      rw [heldView, List.lookup_cons_self]
    obtain ⟨t, deleted, stands⟩ := h.delete inside held
    obtain ⟨pos, fits⟩ := formed item.1 item.2 there
    obtain ⟨u, added, stands⟩ := stands.add inside (Function.update_self ..) pos fits item.2
    rw [heldView_cons fresh there, List.append_assoc] at stands
    obtain ⟨v, ran, done⟩ := ih nodup (fun x member => live x (List.mem_cons_of_mem item member)) stands
    refine ⟨v, ?_, ?_⟩
    · have reset : (resetNetemBand node (bandOf item) (bandOf item).delayMs).exec s = (.ok (), u) := by
        rw [resetNetemBand]
        exact (Proc.exec_bind_ok deleted).trans added
      rw [frozenItems, List.map_cons, Proc.forEach_cons]
      exact (Proc.exec_bind_ok reset).trans ran
    · rw [List.append_assoc] at done
      exact done

end Loops

/-! ## The commands about one class -/

section Commands

variable {root : Tc.Prio} {l : List (Nat × Tc.Netem)}

theorem concerns_parent (m n : Nat) : decide (Tc.minor (Tc.showClass m) = some n) = decide (m = n) := by
  rw [Tc.minor_showClass]
  simp

theorem filter_freezeCommand (n : Nat) (item : Nat × Tc.Netem) :
    [freezeCommand item].filter (Tc.Command.concerns n) = if item.1 = n then [freezeCommand item] else [] := by
  simp only [freezeCommand, List.filter_cons, Tc.Command.concerns, concerns_parent, decide_eq_true_eq, List.filter_nil]

theorem filter_resetCommands (n : Nat) (item : Nat × Tc.Netem) :
    (resetCommands item).filter (Tc.Command.concerns n) = if item.1 = n then resetCommands item else [] := by
  simp only [resetCommands, List.filter_cons, Tc.Command.concerns, concerns_parent, decide_eq_true_eq, List.filter_nil]
  split <;> rfl

/-- Where each item has commands about its own class only, those about a class are of its item. -/
theorem filter_concerns {f : Nat × Tc.Netem → List Tc.Command}
    (own : ∀ n item, (f item).filter (Tc.Command.concerns n) = if item.1 = n then f item else [])
    (nodup : (l.map Prod.fst).Nodup) {item : Nat × Tc.Netem} (member : item ∈ l) :
    (l.flatMap f).filter (Tc.Command.concerns item.1) = f item := by
  induction l with
  | nil => exact absurd member List.not_mem_nil
  | cons first l ih =>
    obtain ⟨fresh, nodup⟩ := List.nodup_cons.mp nodup
    rw [List.flatMap_cons, List.filter_append, own]
    rcases List.mem_cons.mp member with rfl | member
    · have nothing : (l.flatMap f).filter (Tc.Command.concerns item.1) = [] := by
        rw [List.filter_flatMap, List.flatMap_eq_nil_iff]
        intro other among
        rw [own, if_neg fun same => fresh (List.mem_map.mpr ⟨other, among, same⟩)]
      rw [if_pos rfl, nothing, List.append_nil]
    · have other : first.1 ≠ item.1 := fun same => fresh (same ▸ List.mem_map_of_mem member)
      rw [if_neg other, ih nodup member, List.nil_append]

theorem map_freezeCommand (l : List (Nat × Tc.Netem)) : l.map freezeCommand = l.flatMap fun item => [freezeCommand item] :=
  List.map_eq_flatMap

end Commands

/-! ## The bands of the addresses -/

section Matched

variable {root : Tc.Prio} {targetIps : List String}

theorem liveBand_eq_some {ip : String} {band : BandInfo} : liveBand (some root) ip = some band ↔
    ∃ f netem, root.filters.find? (·.dst = ip) = some f ∧ root.netem.get? f.flowid = some netem ∧
      band = bandOf (f.flowid, netem) := by
  unfold liveBand
  simp only [Option.bind_eq_bind, Option.bind_some, Option.bind_eq_some_iff, Option.pure_def, Option.some.injEq]
  constructor
  · rintro ⟨f, found, netem, there, rfl⟩
    exact ⟨f, netem, found, there, rfl⟩
  · rintro ⟨f, netem, found, there, rfl⟩
    exact ⟨f, found, netem, there, rfl⟩

/-- A class queues packets for the addresses if and only if its band is that of one of them. -/
theorem queues_iff {n : Nat} {netem : Tc.Netem} (there : root.netem.get? n = some netem) :
    Queues root targetIps n ↔ ∃ ip ∈ targetIps, liveBand (some root) ip = some (bandOf (n, netem)) := by
  constructor
  · rintro ⟨ip, target, f, found, rfl, -⟩
    exact ⟨ip, target, liveBand_eq_some.mpr ⟨f, netem, found, there, rfl⟩⟩
  · rintro ⟨ip, target, live⟩
    obtain ⟨f, other, found, -, same⟩ := liveBand_eq_some.mp live
    have class_eq : n = f.flowid := showClass_injective (congrArg BandInfo.parent same)
    exact ⟨ip, target, f, found, class_eq.symm, by rw [there]; rfl⟩

/-- The matched bands are those of the addresses. -/
structure Matches (iface : Tc.Iface) (targetIps : List String) (matched : List (String × BandInfo)) : Prop where
  sound : ∀ x ∈ matched, x.1 ∈ targetIps ∧ liveBand iface x.1 = some x.2
  complete : ∀ ip ∈ targetIps, ∀ band, liveBand iface ip = some band → (ip, band) ∈ matched

theorem Matches.isEmpty_iff {iface : Tc.Iface} {matched : List (String × BandInfo)} (h : Matches iface targetIps matched) :
    matched.isEmpty = true ↔ ∀ ip ∈ targetIps, liveBand iface ip = none := by
  rw [List.isEmpty_iff, List.eq_nil_iff_forall_not_mem]
  constructor
  · intro nothing ip target
    rw [Option.eq_none_iff_forall_ne_some]
    exact fun band live => nothing _ (h.complete ip target band live)
  · intro none x member
    obtain ⟨target, live⟩ := h.sound x member
    rw [none x.1 target] at live
    cases live

end Matched

/-! ## Whole calls -/

/-- Whatever the qdiscs of the node are, the callback ends in one way and leaves them alone. -/
structure Harmless (c : Cluster) (node : String) (kill : ClusterM Unit) (result : Except PyExc Unit) : Prop where
  ends : ∀ iface, (kill.exec (c.setIface node iface)).1 = result
  keeps : ∀ iface, ((kill.exec (c.setIface node iface)).2.node node).iface = iface
  works : ∀ iface, (kill.exec (c.setIface node iface)).2.Works

/-- Without a callback, there is nothing that could raise. -/
theorem harmless_none {c : Cluster} (works : c.Works) (node : String) : Harmless c node (callKill none) (.ok ()) where
  ends _ := rfl
  keeps iface := (iface_setIface c node node iface).trans (if_pos rfl)
  works _ := works

section Calls

variable {c : Cluster} {node : String} {targetIps : List String} {kill : Option (ClusterM Unit)}
  {result : Except PyExc Unit}

/-- The interface of the node after a call. -/
def ifaceAfter (node : String) (r : Except PyExc Unit × Watched) : Tc.Iface := (r.2.env.node node).iface

/-- The callback, called in a state that differs in the qdiscs of the node. -/
theorem Harmless.exec (harmless : Harmless c node (callKill kill) result) (iface : Tc.Iface) (log : List (Tc.Command × Tc.Iface)) :
    ∃ c', (unlogged (callKill kill)).exec ⟨c.setIface node iface, log⟩ = (result, ⟨c', log⟩) ∧
      (c'.node node).iface = iface ∧ c'.Works := by
  refine ⟨((callKill kill).exec (c.setIface node iface)).2, ?_, harmless.keeps iface, harmless.works iface⟩
  have called : (unlogged (callKill kill)).exec ⟨c.setIface node iface, log⟩ =
      (((callKill kill).exec (c.setIface node iface)).1, ⟨((callKill kill).exec (c.setIface node iface)).2, log⟩) := rfl
  rw [called, harmless.ends]

theorem exec_sleep {seconds : ℚ} (waits : 0 ≤ seconds) (s : Watched) : (sleep seconds).exec s = (.ok (), s) := by
  rw [sleep, if_neg (not_lt.mpr waits)]
  rfl

theorem exec_sleep_negative {seconds : ℚ} (refused : ¬ 0 ≤ seconds) (s : Watched) :
    (sleep seconds).exec s = (.error .valueError, s) := by
  rw [sleep, if_pos (not_le.mp refused)]
  rfl

/-- The matched bands are frozen first, and the call ends there where the wait or the callback
raises. -/
theorem freezeKillRestore_neutral_iff {root : Tc.Prio} {matched : List (String × BandInfo)} {preKillSleep : ℚ}
    (works : c.Works) (iface : (c.node node).iface = some root) (formed : Tc.WellFormed (some root))
    (h : Matches (some root) targetIps matched) (nonempty : matched ≠ [])
    (harmless : Harmless c node (callKill kill) result) :
    Neutral (some root) (ifaceAfter node ((freezeKillRestore node matched preKillSleep kill).exec ⟨c, []⟩)) targetIps
        ((freezeKillRestore node matched preKillSleep kill).exec ⟨c, []⟩).2.log ↔
      0 ≤ preKillSleep ∧ result = .ok () := by
  have start : Stands c node root (Queues root targetIps) (heldView root []) ([].map freezeCommand) ⟨c, []⟩ :=
    ⟨works, ⟨root.netem, (setIface_self iface).symm, fun _ => rfl⟩, fun _ _ => rfl, rfl, by simp⟩
  have matches_live : ∀ x ∈ matched, ∃ item, x.2 = bandOf item ∧ root.netem.get? item.1 = some item.2 ∧
      Queues root targetIps item.1 := by
    intro x member
    obtain ⟨target, live⟩ := h.sound x member
    obtain ⟨f, netem, found, there, same⟩ := liveBand_eq_some.mp live
    exact ⟨(f.flowid, netem), same, there, x.1, target, f, found, rfl, by rw [there]; rfl⟩
  have nothing : (Dict.empty : Dict (List Char) BandInfo).items = frozenItems [] := rfl
  obtain ⟨l, frozen, t, ran, items, stands, -, live, found⟩ :=
    exec_freezeBands matched nothing matches_live (by simp) start
  obtain ⟨netem, env, reads⟩ := stands.reached
  have nodup : (l.map Prod.fst).Nodup := by
    have keys := frozen.nodup
    rw [items, frozenItems, List.map_map] at keys
    exact List.Nodup.of_map Tc.showClass (by rw [List.map_map]; exact keys)
  have restores : (freezeKillRestore node matched preKillSleep kill).exec ⟨c, []⟩ = (do
      sleep preKillSleep
      unlogged (callKill kill)
      Proc.forEach (frozenItems l) fun (_, band) => resetNetemBand node band band.delayMs : WatchedM Unit).exec t := by
    rw [freezeKillRestore, Proc.exec_bind_ok ran, items]
  -- a call that ends before the restore leaves a frozen band without its reset
  have stuck : ∀ e u, (freezeKillRestore node matched preKillSleep kill).exec ⟨c, []⟩ = (.error e, u) → u.log = t.log →
      ¬ Neutral (some root) (ifaceAfter node ((freezeKillRestore node matched preKillSleep kill).exec ⟨c, []⟩)) targetIps
        ((freezeKillRestore node matched preKillSleep kill).exec ⟨c, []⟩).2.log := by
    intro e u ended log neutral
    rw [ended] at neutral
    obtain ⟨x, member⟩ := List.exists_mem_of_ne_nil matched nonempty
    obtain ⟨item, among, -⟩ := found x member
    obtain ⟨there, queued⟩ := live item among
    have once := neutral.once root rfl item.1 item.2 queued there
    rw [log, stands.commands, map_freezeCommand, filter_concerns filter_freezeCommand nodup among] at once
    cases once
  by_cases waits : 0 ≤ preKillSleep
  · obtain ⟨c', called, kept, works'⟩ := harmless.exec (some { root with netem }) t.log
    rw [← env] at called
    cases result with
    | error e =>
      refine iff_of_false (stuck e ⟨c', t.log⟩ ?_ rfl) (fun returned => by cases returned.2)
      rw [restores, Proc.exec_bind_ok (exec_sleep waits t)]
      exact Proc.exec_bind_error called
    | ok =>
      have held : Stands c' node root (Queues root targetIps) (heldView root l) (l.map freezeCommand) ⟨c', t.log⟩ :=
        ⟨works', ⟨netem, (setIface_self kept).symm, reads⟩, stands.outside, stands.commands, stands.spared⟩
      obtain ⟨u, restored, done⟩ := exec_restore nodup (formed root rfl) live held
      obtain ⟨netem', env', reads'⟩ := done.reached
      have ended : (freezeKillRestore node matched preKillSleep kill).exec ⟨c, []⟩ = (.ok (), u) := by
        rw [restores, Proc.exec_bind_ok (exec_sleep waits t), Proc.exec_bind_ok called]
        exact restored
      have after : (u.env.node node).iface = some { root with netem := netem' } := by
        rw [env', iface_setIface, if_pos rfl]
      refine iff_of_true ?_ ⟨waits, rfl⟩
      rw [ended, ifaceAfter, after]
      refine ⟨⟨rfl, rfl, fun n _ => reads' n⟩, fun _ same x member => ?_, fun _ same n band queued there => ?_⟩
      · cases same
        exact done.spared x member
      · cases same
        obtain ⟨ip, target, live_band⟩ := (queues_iff there).mp queued
        obtain ⟨item, among, same⟩ := found _ (h.complete ip target _ live_band)
        have class_eq : n = item.1 := showClass_injective (congrArg BandInfo.parent same)
        have netem_eq := (live item among).1
        rw [← class_eq, there] at netem_eq
        obtain rfl : item = (n, band) := Prod.ext class_eq.symm (Option.some.inj netem_eq).symm
        rw [done.commands, map_freezeCommand, List.filter_append, filter_concerns filter_freezeCommand nodup among,
          filter_concerns filter_resetCommands nodup among]
        rfl
  · refine iff_of_false (stuck .valueError t ?_ rfl) (fun waited => waits waited.1)
    rw [restores]
    exact Proc.exec_bind_error (exec_sleep_negative waits t)

theorem exec_tcOnNode {s : Watched} (works : s.env.Works) {command : Tc.Command} {iface : Tc.Iface}
    (ran : Tc.run command (s.env.node node).iface = some iface) :
    (tcOnNode node command).exec s = (.ok (), ⟨s.env.setIface node iface, s.log ++ [(command, iface)]⟩) := by
  show tcOnNode node command s = _
  rw [tcOnNode, exec_tc works ran]
  dsimp only
  rw [iface_setIface, if_pos rfl]

theorem exec_tcOnNode_fails {s : Watched} (works : s.env.Works) {command : Tc.Command}
    (fails : Tc.run command (s.env.node node).iface = none) :
    (tcOnNode node command).exec s = (.error .calledProcessError, ⟨s.env, s.log ++ [(command, (s.env.node node).iface)]⟩) := by
  show tcOnNode node command s = _
  rw [tcOnNode, exec_tc_fails works fails]

/-- The temporary rules cannot be created where there is a root qdisc. -/
theorem exec_createTemp_root {s : Watched} (works : s.env.Works) {root : Tc.Prio}
    (iface : (s.env.node node).iface = some root) : (createTempNetemFreeze node targetIps).exec s =
      (.ok false, ⟨s.env, s.log ++ [(.addPrio 2, some root)]⟩) := by
  have fails : Tc.run (.addPrio 2) (s.env.node node).iface = none := by
    rw [iface]
    rfl
  rw [createTempNetemFreeze, Proc.exec_bind_ok (Proc.exec_attempt_error (exec_tcOnNode_fails works fails)), iface]
  rfl

theorem exec_tempFilters (node : String) (targetIps : List String) (works : c.Works) {root : Tc.Prio} (log : List (Tc.Command × Tc.Iface)) :
    ∃ log', (Proc.forEach targetIps fun ip => Proc.swallow (tcOnNode node (.addFilter 2 ip "1:2".toList))).exec
      ⟨c.setIface node (some root), log⟩ = (.ok (), ⟨c.setIface node (some { root with
        filters := targetIps.foldl (fun filters ip => Tc.insertFilter ⟨2, ip, 2⟩ filters) root.filters }), log'⟩) := by
  induction targetIps generalizing root log with
  | nil => exact ⟨log, rfl⟩
  | cons ip targetIps ih =>
    have there : ((c.setIface node (some root)).node node).iface = some root := by
      rw [iface_setIface, if_pos rfl]
    have minor : Tc.minor "1:2".toList = some 2 := by decide
    have ran : Tc.run (.addFilter 2 ip "1:2".toList) (some root) =
        some (some { root with filters := Tc.insertFilter ⟨2, ip, 2⟩ root.filters }) := by
      rw [Tc.run, minor]
    rw [← there] at ran
    have one := exec_tcOnNode (s := ⟨c.setIface node (some root), log⟩) works ran
    rw [Proc.forEach_cons, Proc.exec_bind_ok (Proc.exec_swallow _ _), one]
    dsimp only
    rw [setIface_setIface]
    exact ih _

/-- The root qdisc of the temporary rules. -/
def tempRoot (targetIps : List String) : Tc.Prio where
  bands := 2
  netem := Dict.empty.set 2 ⟨"20:".toList, freezeDelayMs⟩
  filters := targetIps.foldl (fun filters ip => Tc.insertFilter ⟨2, ip, 2⟩ filters) []

/-- The temporary rules are created where there is none. -/
theorem exec_createTemp (targetIps : List String) (works : c.Works) (clean : (c.node node).iface = none) :
    ∃ log, (createTempNetemFreeze node targetIps).exec ⟨c, []⟩ =
      (.ok true, ⟨c.setIface node (some (tempRoot targetIps)), log⟩) := by
  have prio : Tc.run (.addPrio 2) (c.node node).iface = some (some ⟨2, Dict.empty, []⟩) := by
    rw [clean]
    rfl
  have there : ((c.setIface node (some ⟨2, Dict.empty, []⟩)).node node).iface = some ⟨2, Dict.empty, []⟩ := by
    rw [iface_setIface, if_pos rfl]
  have netem : Tc.run (.addNetem "1:2".toList "20:".toList freezeDelayMs) (some ⟨2, Dict.empty, []⟩) =
      some (some ⟨2, Dict.empty.set 2 ⟨"20:".toList, freezeDelayMs⟩, []⟩) := rfl
  rw [← there] at netem
  have first := exec_tcOnNode (s := ⟨c, []⟩) works prio
  have second := exec_tcOnNode (s := ⟨c.setIface node (some ⟨2, Dict.empty, []⟩), [] ++ [(.addPrio 2, some ⟨2, Dict.empty, []⟩)]⟩)
    (works.setIface _ _) netem
  dsimp only at second
  rw [setIface_setIface] at second
  obtain ⟨log', filters⟩ := exec_tempFilters node targetIps works _
  refine ⟨log', ?_⟩
  rw [createTempNetemFreeze, Proc.exec_bind_ok (Proc.exec_attempt_ok first)]
  refine (Proc.exec_bind_ok (Proc.exec_attempt_ok second)).trans ?_
  exact Proc.exec_bind_ok filters

/-- Discovery returns the bands of the addresses and changes nothing. -/
def Discovers (discover : String → List String → ClusterM (Dict String BandInfo)) (c : Cluster) (node : String)
    (targetIps : List String) : Prop :=
  ∃ found, (discover node targetIps).exec c = (.ok found, c) ∧
    ∀ ip, found.get? ip = if ip ∈ targetIps then liveBand (c.node node).iface ip else none

theorem neutral_of_untouched {iface : Tc.Iface} {log : List (Tc.Command × Tc.Iface)}
    (free : ∀ ip ∈ targetIps, liveBand iface ip = none) (untouched : ∀ x ∈ log, x.2 = iface) :
    Neutral iface iface targetIps log := by
  constructor
  · cases iface with
    | none => trivial
    | some root => exact ⟨rfl, rfl, fun _ _ => rfl⟩
  · rintro root rfl x member
    exact ⟨root, untouched x member, rfl, rfl, fun _ _ => rfl⟩
  · rintro root rfl n netem queued there
    obtain ⟨ip, target, live⟩ := (queues_iff there).mp queued
    rw [free ip target] at live
    cases live

/-- Without a root qdisc there are no bands to spare. -/
theorem neutral_none_iff {after : Tc.Iface} {log : List (Tc.Command × Tc.Iface)} :
    Neutral none after targetIps log ↔ Tc.Same none after := by
  constructor
  · exact fun neutral => neutral.same
  · intro same
    constructor
    · exact same
    · rintro root ⟨⟩
    · rintro root ⟨⟩

/-- Without temporary rules, the wait and the callback leave the interface as it is. -/
theorem exec_wait_kill (harmless : Harmless c node (callKill kill) result) (iface : Tc.Iface)
    (log : List (Tc.Command × Tc.Iface)) (preKillSleep : ℚ) :
    ∃ r c', (do
      sleep preKillSleep
      unlogged (callKill kill)
      if false then removeTempNetemFreeze node : WatchedM Unit).exec ⟨c.setIface node iface, log⟩ = (r, ⟨c', log⟩) ∧
        (c'.node node).iface = iface := by
  obtain ⟨c', called, kept, -⟩ := harmless.exec iface log
  by_cases waits : 0 ≤ preKillSleep
  · rw [Proc.exec_bind_ok (exec_sleep waits _)]
    cases result with
    | error e => exact ⟨_, c', Proc.exec_bind_error called, kept⟩
    | ok => exact ⟨_, c', Proc.exec_bind_ok called, kept⟩
  · refine ⟨.error .valueError, c.setIface node iface, Proc.exec_bind_error (exec_sleep_negative waits _), ?_⟩
    rw [iface_setIface, if_pos rfl]

/-- On a node without a root qdisc, the temporary rules are left where the wait or the callback raises. -/
theorem exec_temp (targetIps : List String) (works : c.Works) (clean : (c.node node).iface = none)
    (harmless : Harmless c node (callKill kill) result) (preKillSleep : ℚ) :
    Tc.Same none (ifaceAfter node ((do
      let tempCreated ← createTempNetemFreeze node targetIps
      sleep preKillSleep
      unlogged (callKill kill)
      if tempCreated then removeTempNetemFreeze node : WatchedM Unit).exec ⟨c, []⟩)) ↔
      0 ≤ preKillSleep ∧ result = .ok () := by
  obtain ⟨log, created⟩ := exec_createTemp targetIps works clean
  rw [Proc.exec_bind_ok created]
  obtain ⟨c', called, kept, works'⟩ := harmless.exec (some (tempRoot targetIps)) log
  by_cases waits : 0 ≤ preKillSleep
  · rw [Proc.exec_bind_ok (exec_sleep waits _)]
    cases result with
    | error e =>
      rw [Proc.exec_bind_error called, ifaceAfter, kept]
      exact iff_of_false (fun same => same) fun returned => by cases returned.2
    | ok =>
      have removed : Tc.run .delRoot (c'.node node).iface = some none := by
        rw [kept]
        rfl
      rw [Proc.exec_bind_ok called, if_pos rfl, removeTempNetemFreeze, Proc.exec_swallow,
        exec_tcOnNode (s := ⟨c', log⟩) works' removed, ifaceAfter]
      dsimp only
      rw [iface_setIface, if_pos rfl]
      exact iff_of_true trivial ⟨waits, rfl⟩
  · rw [Proc.exec_bind_error (exec_sleep_negative waits _), ifaceAfter]
    dsimp only
    rw [iface_setIface, if_pos rfl]
    exact iff_of_false (fun same => same) fun waited => waits waited.1

/-- The function of the module is neutral if and only if the wait and the callback return, or there is
a root qdisc and none of the addresses has a band. -/
theorem freezeDropRestoreForIps_neutral_iff {discover : String → List String → ClusterM (Dict String BandInfo)}
    (works : c.Works) (formed : Tc.WellFormed (c.node node).iface) (discovers : Discovers discover c node targetIps)
    (harmless : Harmless c node (callKill kill) result) (preKillSleep : ℚ) :
    Neutral (c.node node).iface
        (ifaceAfter node ((freezeDropRestoreForIps discover node targetIps preKillSleep kill).exec ⟨c, []⟩)) targetIps
        ((freezeDropRestoreForIps discover node targetIps preKillSleep kill).exec ⟨c, []⟩).2.log ↔
      0 ≤ preKillSleep ∧ result = .ok () ∨
        (c.node node).iface.isSome ∧ ∀ ip ∈ targetIps, liveBand (c.node node).iface ip = none := by
  obtain ⟨found, ran, bands⟩ := discovers
  have discovered : (unlogged (discover node targetIps)).exec ⟨c, []⟩ = (.ok found, ⟨c, []⟩) := by
    have called : (unlogged (discover node targetIps)).exec ⟨c, []⟩ =
        (((discover node targetIps).exec c).1, ⟨((discover node targetIps).exec c).2, []⟩) := rfl
    rw [called, ran]
  have matched : Matches (c.node node).iface targetIps found.items := by
    constructor
    · rintro ⟨ip, band⟩ member
      have there := bands ip
      rw [(Dict.get?_eq_some found).mpr member] at there
      split at there
      · rename_i target
        exact ⟨target, there.symm⟩
      · cases there
    · intro ip target band live
      rw [← Dict.get?_eq_some, bands ip, if_pos target, live]
  unfold freezeDropRestoreForIps
  rw [Proc.exec_bind_ok discovered]
  by_cases empty : found.items.isEmpty = true
  · have free := matched.isEmpty_iff.mp empty
    simp only [empty, Bool.not_true, Bool.false_eq_true, if_false]
    cases iface : (c.node node).iface with
    | none =>
      rw [iface] at free
      have left := exec_temp targetIps works iface harmless preKillSleep
      have never : ¬ (((none : Tc.Iface).isSome = true) ∧ ∀ ip ∈ targetIps, liveBand none ip = none) := fun h => by
        cases h.1
      rw [or_iff_left never, neutral_none_iff]
      exact left
    | some root =>
      rw [iface] at free
      obtain ⟨r, c', ended, kept⟩ := exec_wait_kill (c := c) harmless (some root) [(.addPrio 2, some root)] preKillSleep
      rw [setIface_self iface] at ended
      rw [Proc.exec_bind_ok (exec_createTemp_root (s := ⟨c, []⟩) works iface)]
      refine iff_of_true ?_ (Or.inr ⟨rfl, free⟩)
      have same := congrArg Prod.snd ended
      rw [List.nil_append, ifaceAfter, same]
      dsimp only
      rw [kept]
      exact neutral_of_untouched free fun x member => by rw [List.mem_singleton.mp member]
  · have nonempty : found.items ≠ [] := fun nil => empty (List.isEmpty_iff.mpr nil)
    have some_band : ¬ ∀ ip ∈ targetIps, liveBand (c.node node).iface ip = none := fun free =>
      empty (matched.isEmpty_iff.mpr free)
    rw [or_iff_left fun h => some_band h.2]
    simp only [empty, Bool.not_false, if_true]
    cases iface : (c.node node).iface with
    | none => exact absurd (fun ip _ => by rw [iface]; rfl) some_band
    | some root =>
      rw [iface] at matched formed
      exact freezeKillRestore_neutral_iff works iface formed matched nonempty harmless

/-- The method of the manager is neutral if and only if the wait and the callback return, or none of
the addresses has a band. -/
theorem managerFreeze_neutral_iff {m : NetworkLatencyManager} (works : c.Works)
    (formed : Tc.WellFormed (c.node node).iface)
    (stored : ∀ ip, (m.getBandsForNode node).get? ip = liveBand (c.node node).iface ip)
    (harmless : Harmless c node (callKill kill) result) (preKillSleep : ℚ) :
    Neutral (c.node node).iface
        (ifaceAfter node ((m.freezeDropRestoreForIps node targetIps preKillSleep kill).exec ⟨c, []⟩)) targetIps
        ((m.freezeDropRestoreForIps node targetIps preKillSleep kill).exec ⟨c, []⟩).2.log ↔
      0 ≤ preKillSleep ∧ result = .ok () ∨ ∀ ip ∈ targetIps, liveBand (c.node node).iface ip = none := by
  let matched := (m.getBandsForNode node).items.filter fun x => decide (x.1 ∈ targetIps)
  have h : Matches (c.node node).iface targetIps matched := by
    constructor
    · intro x member
      obtain ⟨item, target⟩ := List.mem_filter.mp member
      refine ⟨of_decide_eq_true target, ?_⟩
      rw [← stored, Dict.get?_eq_some]
      exact item
    · intro ip target band live
      rw [← stored, Dict.get?_eq_some] at live
      exact List.mem_filter.mpr ⟨live, decide_eq_true target⟩
  have call : m.freezeDropRestoreForIps node targetIps preKillSleep kill =
      if matched.isEmpty then unlogged (callKill kill) else freezeKillRestore node matched preKillSleep kill := rfl
  rw [call]
  by_cases empty : matched.isEmpty = true
  · have free := h.isEmpty_iff.mp empty
    obtain ⟨c', called, kept, -⟩ := harmless.exec (c.node node).iface []
    rw [setIface_self rfl] at called
    rw [if_pos empty, called]
    refine iff_of_true ?_ (Or.inr free)
    rw [ifaceAfter, kept]
    exact neutral_of_untouched free fun x among => absurd among List.not_mem_nil
  · have nonempty : matched ≠ [] := fun nil => empty (List.isEmpty_iff.mpr nil)
    have some_band : ¬ ∀ ip ∈ targetIps, liveBand (c.node node).iface ip = none := fun free =>
      empty (h.isEmpty_iff.mpr free)
    rw [if_neg empty, or_iff_left some_band]
    cases iface : (c.node node).iface with
    | none => exact absurd (fun ip _ => by rw [iface]; rfl) some_band
    | some root =>
      rw [iface] at h formed
      exact freezeKillRestore_neutral_iff works iface formed h nonempty harmless

/-- Whether the function of the module or the method of the manager is called: the call is neutral if
and only if the wait and the callback return, or nothing had to be held back. -/
theorem freezeDropRestore_neutral_iff {discover : String → List String → ClusterM (Dict String BandInfo)}
    {m : NetworkLatencyManager} (works : c.Works) (formed : Tc.WellFormed (c.node node).iface)
    (discovers : Discovers discover c node targetIps)
    (stored : ∀ ip, (m.getBandsForNode node).get? ip = liveBand (c.node node).iface ip)
    (harmless : Harmless c node (callKill kill) result) (preKillSleep : ℚ) :
    (Neutral (c.node node).iface
        (ifaceAfter node ((freezeDropRestoreForIps discover node targetIps preKillSleep kill).exec ⟨c, []⟩)) targetIps
        ((freezeDropRestoreForIps discover node targetIps preKillSleep kill).exec ⟨c, []⟩).2.log ↔
      0 ≤ preKillSleep ∧ result = .ok () ∨
        (c.node node).iface.isSome ∧ ∀ ip ∈ targetIps, liveBand (c.node node).iface ip = none) ∧
    (Neutral (c.node node).iface
        (ifaceAfter node ((m.freezeDropRestoreForIps node targetIps preKillSleep kill).exec ⟨c, []⟩)) targetIps
        ((m.freezeDropRestoreForIps node targetIps preKillSleep kill).exec ⟨c, []⟩).2.log ↔
      0 ≤ preKillSleep ∧ result = .ok () ∨ ∀ ip ∈ targetIps, liveBand (c.node node).iface ip = none) :=
  ⟨freezeDropRestoreForIps_neutral_iff works formed discovers harmless preKillSleep,
    managerFreeze_neutral_iff works formed stored harmless preKillSleep⟩

end Calls

/-! ## A callback that raises -/

section Examples

/-- The packets of `pg1` for one address are delayed; the other nodes have no root qdisc. -/
def oneHeld : Cluster where
  node name :=
    { tables := ⟨fun _ => [], Dict.empty⟩
      iface := if name = "pg1" then
        some ⟨2, Dict.ofPairs [(2, ⟨"20:".toList, 50⟩)], [⟨2, "10.0.0.2", 2⟩]⟩ else none
      files := fun _ => none }
  ip _ := none
  outage _ := none

/-- A manager that has stored the band of `pg1`. -/
def oneStored : NetworkLatencyManager where
  config := {}
  configuredNodes := ["pg1"]
  nodeBands := Dict.ofPairs [("pg1", Dict.ofPairs [("10.0.0.2", ⟨"1:2".toList, "20:".toList, 50⟩)])]

/-- `pkill` finds no process. -/
def killFails : ClusterM Unit := throw .calledProcessError

/-- Without a callback, temporary rules on a clean node are taken away. -/
theorem clean_neutral :
    Neutral (oneHeld.node "pg2").iface
      (ifaceAfter "pg2" ((freezeDropRestoreForIps NetworkLatency.discoverBandsForIps "pg2" ["10.0.0.1"] 5 none).exec
        ⟨oneHeld, []⟩)) ["10.0.0.1"]
      ((freezeDropRestoreForIps NetworkLatency.discoverBandsForIps "pg2" ["10.0.0.1"] 5 none).exec ⟨oneHeld, []⟩).2.log := by
  have works : oneHeld.Works := fun _ => rfl
  have formed : Tc.WellFormed (oneHeld.node "pg2").iface := by
    rintro root ⟨⟩
  have discovers : Discovers NetworkLatency.discoverBandsForIps oneHeld "pg2" ["10.0.0.1"] := by
    refine ⟨Dict.empty, NetworkLatencyManager.exec_discover_clean rfl _, fun ip => ?_⟩
    rw [Dict.get?_empty]
    split <;> rfl
  have stored : ∀ ip, (oneStored.getBandsForNode "pg2").get? ip = liveBand (oneHeld.node "pg2").iface ip :=
    fun _ => rfl
  exact (freezeDropRestore_neutral_iff works formed discovers stored (harmless_none works "pg2") 5).1.mpr
    (Or.inl ⟨by norm_num, rfl⟩)

/-- With a callback that raises, the stored band of `pg1` keeps the long delay and the temporary rules
stay on `pg2`. -/
theorem killFails_not_neutral :
    oneHeld.Works ∧ Tc.WellFormed (oneHeld.node "pg1").iface ∧
      (∀ ip, (oneStored.getBandsForNode "pg1").get? ip = liveBand (oneHeld.node "pg1").iface ip) ∧
      ¬ Neutral (oneHeld.node "pg1").iface
        (ifaceAfter "pg1" ((oneStored.freezeDropRestoreForIps "pg1" ["10.0.0.2"] 5 (some killFails)).exec ⟨oneHeld, []⟩))
        ["10.0.0.2"] ((oneStored.freezeDropRestoreForIps "pg1" ["10.0.0.2"] 5 (some killFails)).exec ⟨oneHeld, []⟩).2.log ∧
      ¬ Neutral (oneHeld.node "pg2").iface
        (ifaceAfter "pg2" ((freezeDropRestoreForIps NetworkLatency.discoverBandsForIps "pg2" ["10.0.0.1"] 5
          (some killFails)).exec ⟨oneHeld, []⟩)) ["10.0.0.1"]
        ((freezeDropRestoreForIps NetworkLatency.discoverBandsForIps "pg2" ["10.0.0.1"] 5 (some killFails)).exec
          ⟨oneHeld, []⟩).2.log := by
  refine ⟨fun _ => rfl, ?_, fun ip => ?_, fun neutral => ?_, fun neutral => ?_⟩
  · rintro root ⟨rfl⟩ n netem found
    have among := Dict.mem_keys_of_get? found
    rw [show n = 2 from List.mem_singleton.mp among]
    decide
  · by_cases target : ip = "10.0.0.2"
    · subst target
      decide
    · have unstored : (oneStored.getBandsForNode "pg1").get? ip = none := by
        rw [Dict.get?_eq_none]
        exact fun among => target (List.mem_singleton.mp among)
      rw [unstored, eq_comm, Option.eq_none_iff_forall_ne_some]
      intro band live
      obtain ⟨f, -, found, -⟩ := liveBand_eq_some.mp live
      have dst := List.find?_some found
      rw [List.mem_singleton.mp (List.mem_of_find?_eq_some found)] at dst
      exact target (of_decide_eq_true dst).symm
  · have frozen : (ifaceAfter "pg1" ((oneStored.freezeDropRestoreForIps "pg1" ["10.0.0.2"] 5 (some killFails)).exec
        ⟨oneHeld, []⟩)).map (fun root => (root.netem.get? 2).map (·.delayMs)) = some (some 99999) := by decide
    obtain ⟨root, after, delay⟩ := Option.map_eq_some_iff.mp frozen
    have same := neutral.same
    rw [after] at same
    rw [same.netem 2 (fun h => h)] at delay
    exact absurd delay (by decide)
  · have left : (ifaceAfter "pg2" ((freezeDropRestoreForIps NetworkLatency.discoverBandsForIps "pg2" ["10.0.0.1"] 5
        (some killFails)).exec ⟨oneHeld, []⟩)).isSome = true := by decide
    obtain ⟨root, after⟩ := Option.isSome_iff_exists.mp left
    have same := neutral.same
    rw [after] at same
    exact same

end Examples

end FaultStorm
