import FaultStorm.Faults.Contract
import FaultStorm.Faults.Engine.Record

/-!
# The laws of the scenario log

Ordinals, names and marks of the lines of a random run. `Numbered` is what the journal says of
the entries of the file; the laws are read off it.
-/

namespace FaultStorm

open Python Trace

variable {β ω : Type}

/-- An entry of the log as an entry of the journal. -/
def Entry.key (x : Entry β ω) : Mark (ActionClass β ω) := ⟨x.action.id, x.action.cls, x.healing⟩

/-- The lines are a journal that carries its numbers as ordinals, and whose heals are heals of
healable actions. -/
structure Numbered (entries : List (Entry β ω)) : Prop where
  orderly : Orderly (entries.map Entry.key)
  ordinal : ∀ x ∈ entries, x.ordinal = some (x.action.id : Int)
  healable : ∀ x ∈ entries, x.healing = true → x.action.cls.healable = true

theorem Entry.mark_heal {x : Entry β ω} : x.mark = ['-'] ↔ x.action.cls.healable = true ∧ x.healing = true := by
  unfold Entry.mark linePrefix
  cases x.action.cls.healable <;> cases x.healing <;> decide

theorem Entry.mark_enable {x : Entry β ω} : x.mark = ['+'] ↔ x.action.cls.healable = true ∧ x.healing = false := by
  unfold Entry.mark linePrefix
  cases x.action.cls.healable <;> cases x.healing <;> decide

namespace Numbered

variable {entries : List (Entry β ω)}

/-- Lines of one kind with one ordinal are one line. -/
theorem position (h : Numbered entries) {i j : Nat} {x y : Entry β ω} (hi : entries[i]? = some x)
    (hj : entries[j]? = some y) (kind : x.healing = y.healing) (same : x.ordinal = y.ordinal) : i = j := by
  rw [h.ordinal x (List.mem_of_getElem? hi), h.ordinal y (List.mem_of_getElem? hj), Option.some.injEq] at same
  refine h.orderly.position (m := x.key) (k := y.key) ?_ ?_ kind (Int.ofNat.inj same)
  · rw [List.getElem?_map, hi]
    rfl
  · rw [List.getElem?_map, hj]
    rfl

/-- A heal echoes an earlier `+` line. -/
theorem echoed (h : Numbered entries) {i : Nat} {x : Entry β ω} (hi : entries[i]? = some x) (heal : x.mark = ['-']) :
    ∃ j < i, ∃ y : Entry β ω, entries[j]? = some y ∧ y.key = ⟨x.action.id, x.action.cls, false⟩ ∧ y.Echoes ['+'] x := by
  obtain ⟨healable, healing⟩ := Entry.mark_heal.mp heal
  have found : (entries.map Entry.key)[i]? = some x.key := by
    rw [List.getElem?_map, hi]
    rfl
  obtain ⟨j, before, earlier⟩ := h.orderly.opened_before found healing
  rw [List.getElem?_map, Option.map_eq_some_iff] at earlier
  obtain ⟨y, hj, key⟩ := earlier
  have id : y.action.id = x.action.id := congrArg Mark.number key
  have cls : y.action.cls = x.action.cls := congrArg Mark.subject key
  have start : y.healing = false := congrArg Mark.closing key
  refine ⟨j, before, y, hj, key, Entry.mark_enable.mpr ⟨cls ▸ healable, start⟩, congrArg ActionClass.name cls, ?_⟩
  rw [h.ordinal y (List.mem_of_getElem? hj), h.ordinal x (List.mem_of_getElem? hi), id]

theorem disciplined (h : Numbered entries) : Disciplined entries where
  increasing := by
    refine ⟨(entries.filter fun x => x.mark ≠ ['-']).map fun x => (x.action.id : Int), ?_, ?_⟩
    · rw [List.map_map]
      exact List.map_congr_left fun x among => h.ordinal x (List.mem_filter.mp among).1
    · have starts : (entries.filter fun x => x.mark ≠ ['-']) = entries.filter (! ·.healing) := by
        refine List.filter_congr fun x among => ?_
        have healable := h.healable x among
        cases healing : x.healing with
        | false => simp [Entry.mark_heal, healing]
        | true => simp [Entry.mark_heal, healing, healable healing]
      have numbers := h.orderly.increasing
      rw [List.filter_map, List.map_map, List.pairwise_map] at numbers
      rw [starts, List.pairwise_map]
      exact numbers.imp Int.ofNat_lt.mpr
  paired i x hi heal := by
    obtain ⟨j, before, y, hj, _, echoes⟩ := h.echoed hi heal
    refine ⟨j, ⟨before, y, hj, echoes⟩, ?_⟩
    rintro k ⟨_, z, hk, mark, _, ordinal⟩
    have kind := (Entry.mark_enable.mp mark).2.trans (Entry.mark_enable.mp echoes.1).2.symm
    exact h.position hk hj kind (ordinal.trans echoes.2.2.symm)
  once i j x y hi hj heal heal' same :=
    h.position hi hj ((Entry.mark_heal.mp heal).2.trans (Entry.mark_heal.mp heal').2.symm) same
  chains i j x y n m chain ne hi hj enable enable' hn hm owned owned' := by
    have kind := (Entry.mark_enable.mp enable).2.trans (Entry.mark_enable.mp enable').2.symm
    refine ne (h.position hi hj kind ?_)
    rw [hn, hm, owned.unique owned']

/-- All `+` lines are echoed if and only if the journal closes every healable action it opened. -/
theorem healsRecorded_iff (h : Numbered entries) : HealsRecorded entries ↔
    ∀ x ∈ entries, x.mark = ['+'] → ∃ y ∈ entries, y.healing = true ∧ y.action.id = x.action.id := by
  constructor
  · intro recorded x among enable
    obtain ⟨i, hi⟩ := List.mem_iff_getElem?.mp among
    obtain ⟨j, ⟨_, y, hj, mark, _, ordinal⟩, _⟩ := recorded i x hi enable
    have member := List.mem_of_getElem? hj
    rw [h.ordinal y member, h.ordinal x among, Option.some.injEq] at ordinal
    exact ⟨y, member, (Entry.mark_heal.mp mark).2, Int.ofNat.inj ordinal⟩
  · intro closed i x hi enable
    have among := List.mem_of_getElem? hi
    obtain ⟨y, member, healing, id⟩ := closed x among enable
    have heal : y.mark = ['-'] := Entry.mark_heal.mpr ⟨h.healable y member healing, healing⟩
    have ordinal : y.ordinal = x.ordinal := by
      rw [h.ordinal y member, h.ordinal x among, id]
    obtain ⟨k, hk⟩ := List.mem_iff_getElem?.mp member
    -- the `+` line the heal echoes is the line we started from
    obtain ⟨j, before, z, hj, _, mark, name, ordinal'⟩ := h.echoed hk heal
    have kind := (Entry.mark_enable.mp mark).2.trans (Entry.mark_enable.mp enable).2.symm
    obtain rfl := h.position hj hi kind (ordinal'.trans ordinal)
    obtain rfl : z = x := Option.some.inj (hj.symm.trans hi)
    refine ⟨k, ⟨before, y, hk, heal, name.symm, ordinal⟩, ?_⟩
    rintro l ⟨_, w, hl, mark', _, ordinal''⟩
    exact h.position hl hk ((Entry.mark_heal.mp mark').2.trans healing.symm) (ordinal''.trans ordinal.symm)

end Numbered

namespace FaultEngine

/-- The entries of a kept journal are numbered. -/
theorem Journaled.numbered {faults : List (FaultAction β ω)} {s : FaultEngine β ω} (h : Journaled faults s)
    {entries : List (Entry β ω)} (same : entries.map (fun x => (x.action, x.healing)) = loggedOf s.history) :
    Numbered entries := by
  have logged : ∀ x ∈ entries, (x.action, x.healing) ∈ loggedOf s.history := fun x among =>
    same ▸ List.mem_map_of_mem among
  refine ⟨?_, fun x among => ?_, fun x among healing => ?_⟩
  · have keys : entries.map Entry.key = (loggedOf s.history).map markOf := by
      rw [← same, List.map_map]
      rfl
    have kept : (loggedOf s.history).map markOf =
        s.journal.filter fun m => !m.closing || m.subject.healable := by
      unfold FaultEngine.journal loggedOf
      rw [List.filter_map]
      rfl
    have opens : ∀ m ∈ s.journal, m.closing = false → (!m.closing || m.subject.healable) = true := by
      intro m _ start
      rw [start]
      rfl
    rw [keys, kept]
    exact h.orderly.filter opens
  · exact h.ordinals (x.action, x.healing) (List.mem_filter.mp (logged x among)).1
  · simpa [healing] using (List.mem_filter.mp (logged x among)).2

/-- The log of a kept journal records every heal if and only if every healable action that was
injected has been healed. -/
theorem Journaled.healsRecorded_iff {faults : List (FaultAction β ω)} {s : FaultEngine β ω} (h : Journaled faults s)
    {entries : List (Entry β ω)} (same : entries.map (fun x => (x.action, x.healing)) = loggedOf s.history) :
    HealsRecorded entries ↔ ∀ a raised, .action .injected a raised ∈ s.history → a.cls.healable = true →
      .healed ∈ stagesOf a.id s.history := by
  have entry : ∀ {a heal}, (a, heal) ∈ turnsOf s.history → a.cls.healable = true →
      ∃ x ∈ entries, x.action = a ∧ x.healing = heal := by
    intro a heal turn healable
    have logged : (a, heal) ∈ loggedOf s.history := List.mem_filter.mpr ⟨turn, by rw [healable, Bool.or_true]⟩
    rw [← same] at logged
    obtain ⟨x, among, eq⟩ := List.mem_map.mp logged
    exact ⟨x, among, congrArg Prod.fst eq, congrArg Prod.snd eq⟩
  have turn : ∀ {x}, x ∈ entries → (x.action, x.healing) ∈ turnsOf s.history := by
    intro x among
    have logged : (x.action, x.healing) ∈ loggedOf s.history := same ▸ List.mem_map_of_mem among
    exact (List.mem_filter.mp logged).1
  have marked : ∀ {a heal}, (a, heal) ∈ turnsOf s.history → ⟨a.id, a.cls, heal⟩ ∈ s.journal := fun turn =>
    List.mem_map.mpr ⟨_, turn, rfl⟩
  rw [(h.numbered same).healsRecorded_iff]
  constructor
  · intro closed a raised injected healable
    obtain ⟨x, among, rfl, start⟩ := entry (h.injected a raised injected) healable
    obtain ⟨y, among', healing, id⟩ := closed x among (Entry.mark_enable.mpr ⟨healable, start⟩)
    have healed := turn among'
    rw [healing] at healed
    obtain ⟨ending, member⟩ := mem_turnsOf.mp healed
    exact mem_stagesOf.mpr ⟨y.action, ending, id, member⟩
  · intro healed x among enable
    obtain ⟨healable, start⟩ := Entry.mark_enable.mp enable
    have opened := marked (turn among)
    obtain ⟨b, raised, id, injected⟩ := mem_stagesOf.mp (h.own _ opened healable)
    -- one number stands for one class, so the fault that was injected is healable too
    have cls : b.cls = x.action.cls := h.orderly.subject (marked (h.injected b raised injected)) opened id
    obtain ⟨c, ending, id', member⟩ := mem_stagesOf.mp (healed b raised injected (cls ▸ healable))
    have close : (c, true) ∈ turnsOf s.history := mem_turnsOf.mpr ⟨ending, member⟩
    have cls' : c.cls = x.action.cls := h.orderly.subject (marked close) opened (id'.trans id)
    obtain ⟨y, among', rfl, healing⟩ := entry close (cls' ▸ healable)
    exact ⟨y, among', healing, id'.trans id⟩

/-- The lines a random run leaves: the starts and the heals of healable actions of its history. -/
theorem runRandom_lines (e : Setup β ω) (contract : ∀ cls, Registered e cls → OrdinalFirst cls) (stopAt : Nat)
    (world : World ω) (clock : Nat → DateTime) {s : FaultEngine β ω}
    (ran : ((runRandom e stopAt).exec (.fresh world clock)).2 = s) :
    s.logOpen = false ∧ ∃ entries : List (Entry β ω), Holds s.scenario entries ∧
      entries.map (fun x => (x.action, x.healing)) = loggedOf s.history ∧ Numbered entries ∧
      (HealsRecorded entries ↔ ∀ a raised, .action .injected a raised ∈ s.history → a.cls.healable = true →
        .healed ∈ stagesOf a.id s.history) := by
  rcases runRandom_kept e contract stopAt world clock with untouched | ⟨t, ⟨faults, h⟩, eq⟩
  · rw [ran] at untouched
    refine ⟨untouched.closed, [], Or.inr ⟨untouched.scenario, rfl⟩, ?_, ⟨.nil, ?_, ?_⟩, ?_⟩
    · unfold loggedOf
      rw [untouched.turns]
      rfl
    · exact fun x among => absurd among List.not_mem_nil
    · exact fun x among => absurd among List.not_mem_nil
    · refine ⟨fun _ a raised injected => absurd rfl (untouched.silent _ injected .injected a raised), fun _ i x found => ?_⟩
      cases found
  · obtain rfl := ran.symm.trans eq
    obtain ⟨_, time, entries, lines, same⟩ := h.written
    exact ⟨rfl, entries, Or.inl ⟨time, lines⟩, same, h.numbered same, h.healsRecorded_iff same⟩

/-- The ordinals of the log of a random run are disciplined. -/
theorem runRandom_disciplined (e : Setup β ω) (contract : ∀ cls, Registered e cls → OrdinalFirst cls) (stopAt : Nat)
    (world : World ω) (clock : Nat → DateTime) :
    ∃ entries : List (Entry β ω), Holds ((runRandom e stopAt).exec (.fresh world clock)).2.scenario entries ∧
      entries.map (fun x => (x.action, x.healing)) =
        loggedOf ((runRandom e stopAt).exec (.fresh world clock)).2.history ∧ Disciplined entries := by
  obtain ⟨_, entries, holds, same, numbered, _⟩ := runRandom_lines e contract stopAt world clock rfl
  exact ⟨entries, holds, same, numbered.disciplined⟩

/-- One partition of pg1 at a time, over the built-in classes. -/
def partitionSetup : Setup Builtin Cluster where
  config := { dbNodes := ["pg1", "pg2"], faultTypes := ["partition_random_node"], complexFaultsEnabled := false,
              parallelFaultsCount := 1 }
  registry := defaultRegistry
  dcMap := Dict.empty

theorem partitionSetup_contract : ∀ cls, Registered partitionSetup cls → OrdinalFirst cls :=
  fun _ ⟨_, found⟩ => builtin_ordinalFirst (registered_builtin found)

/-- That engine after a run of the random mode. -/
@[irreducible] def partitionRun (stopAt : Nat) : FaultEngine Builtin Cluster :=
  ((runRandom partitionSetup stopAt).exec (.fresh ⟨fun _ => 0, idleCluster⟩ fun _ => ⟨2024, 5, 17, 9, 30, 0, 0⟩)).2

theorem partitionRun_disciplined :
    ∃ entries : List (Entry Builtin Cluster), Holds (partitionRun 3).scenario entries ∧
      entries.map (fun x => (x.action, x.healing)) = loggedOf (partitionRun 3).history ∧ Disciplined entries := by
  unfold partitionRun
  exact runRandom_disciplined partitionSetup partitionSetup_contract 3 ⟨fun _ => 0, idleCluster⟩
    fun _ => ⟨2024, 5, 17, 9, 30, 0, 0⟩

/-! ## After the log is closed -/

section Closed

open Proc

/-- Nothing is written to a closed log. -/
theorem healAll_scenario (e : Setup β ω) {s : FaultEngine β ω} (closed : s.logOpen = false) :
    ((healAll e).exec s).2.scenario = s.scenario := by
  let J : List (FaultAction β ω) → FaultEngine β ω → Prop := fun _ t => t.logOpen = false ∧ t.scenario = s.scenario
  have wrote : ∀ {t : FaultEngine β ω} (a : FaultAction β ω) (healing : Bool), t.logOpen = false →
      (t.wrote a healing).scenario = t.scenario := by
    intro t a healing shut
    unfold FaultEngine.wrote
    rw [shut]
    rfl
  have heals : Heals e J (J []) := by
    refine ⟨fun _ _ _ h => h, fun _ t seconds _ h => ?_, fun _ _ _ _ h => h, fun a _ t _ h => ?_, fun _ _ h => h⟩
    · have pause := wrote (t := { t with nextOrdinal := t.nextOrdinal + 1 })
        (waitAction e (t.nextOrdinal + 1) seconds) false h.1
      exact ⟨(ran_logOpen ..).trans h.1, pause.trans h.2⟩
    · have line := wrote (t := t.mended a) (a.call a.cls.heal t.world).2.1 true h.1
      exact ⟨(wrote_logOpen ..).trans h.1, line.trans h.2⟩
  have run := heals.healAllActive_upholds (I := J []) (fun _ _ _ _ h => h) s ⟨closed, rfl⟩
  unfold healAll
  rcases ran : (healAllActive e).exec s with ⟨exc | _, t⟩ <;> rw [ran] at run
  · exact run.2
  · obtain ⟨u, h, rfl⟩ := run
    exact h.2

/-- After a random run and `heal_all`, every `+` line of the log is echoed by one later `-` line if
and only if the run itself healed every healable fault it injected. -/
theorem healAll_healsRecorded_iff (e : Setup β ω) (contract : ∀ cls, Registered e cls → OrdinalFirst cls)
    (stopAt : Nat) (world world' : World ω) (clock clock' : Nat → DateTime) {s : FaultEngine β ω}
    (ran : ((runRandom e stopAt).exec (.fresh world clock)).2 = s) :
    ∃ entries : List (Entry β ω),
      Holds ((healAll e).exec { s with world := world', clock := clock' }).2.scenario entries ∧
      entries.map (fun x => (x.action, x.healing)) = loggedOf s.history ∧
      (HealsRecorded entries ↔ ∀ a raised, .action .injected a raised ∈ s.history → a.cls.healable = true →
        .healed ∈ stagesOf a.id s.history) := by
  obtain ⟨closed, entries, holds, same, _, recorded⟩ := runRandom_lines e contract stopAt world clock ran
  refine ⟨entries, ?_, same, recorded⟩
  have scenario := healAll_scenario e (s := { s with world := world', clock := clock' }) closed
  rw [scenario]
  exact holds

theorem partitionRun_healsRecorded_iff :
    ∃ entries : List (Entry Builtin Cluster),
      Holds ((healAll partitionSetup).exec { partitionRun 2 with
        world := ⟨fun _ => 0, idleCluster⟩, clock := fun _ => ⟨2024, 5, 17, 9, 40, 0, 0⟩ }).2.scenario entries ∧
      entries.map (fun x => (x.action, x.healing)) = loggedOf (partitionRun 2).history ∧
      (HealsRecorded entries ↔ ∀ a raised, .action .injected a raised ∈ (partitionRun 2).history →
        a.cls.healable = true → .healed ∈ stagesOf a.id (partitionRun 2).history) :=
  @healAll_healsRecorded_iff _ _ partitionSetup partitionSetup_contract 2 ⟨fun _ => 0, idleCluster⟩
    ⟨fun _ => 0, idleCluster⟩ (fun _ => ⟨2024, 5, 17, 9, 30, 0, 0⟩) (fun _ => ⟨2024, 5, 17, 9, 40, 0, 0⟩)
    (partitionRun 2) (by unfold partitionRun; rfl)

/-- The heal of a partition that was active when the run was stopped is not in the log. -/
theorem partitionRun_not_healsRecorded :
    ¬ ∃ entries : List (Entry Builtin Cluster),
      Holds ((healAll partitionSetup).exec { partitionRun 1 with
        world := ⟨fun _ => 0, idleCluster⟩, clock := fun _ => ⟨2024, 5, 17, 9, 40, 0, 0⟩ }).2.scenario entries ∧
      entries.map (fun x => (x.action, x.healing)) = loggedOf (partitionRun 1).history ∧ HealsRecorded entries := by
  rintro ⟨entries, _, same, recorded⟩
  have marks : (loggedOf (partitionRun 1).history).map (fun x => linePrefix x.1.cls.healable x.2) = [['+'], []] := by
    decide +kernel
  rw [← same, List.map_map] at marks
  have marked : entries.map Entry.mark = [['+'], []] := marks
  have first : (entries.map Entry.mark)[0]? = some ['+'] := by
    rw [marked]
    rfl
  rw [List.getElem?_map, Option.map_eq_some_iff] at first
  obtain ⟨x, found, enable⟩ := first
  obtain ⟨j, ⟨_, y, found', heal, _⟩, _⟩ := recorded 0 x found enable
  have among : y.mark ∈ entries.map Entry.mark := List.mem_map_of_mem (List.mem_of_getElem? found')
  rw [marked, heal] at among
  exact absurd among (by decide)

end Closed

end FaultEngine

end FaultStorm
