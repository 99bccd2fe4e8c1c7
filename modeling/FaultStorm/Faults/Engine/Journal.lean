import FaultStorm.Faults.Engine.Cleanup
import FaultStorm.Faults.Partition
import FaultStorm.Faults.ScenarioLog.Roundtrip
import FaultStorm.Trace.Orderly

/-!
# The scenario log as a journal

Every line of the log is a start or the heal of a healable action, so the log is read off the
history. The number of a line is the ordinal its parameters begin with: a class has to
serialize it first. The starts and heals of a random run are an orderly journal.
-/

namespace FaultStorm

open Python Trace

variable {β ω : Type}

/-! ## The number of a line -/

/-- `int(params.split()[0])`. -/
def leadingInt (params : String) : Option Int := (Text.split params.toList).head?.bind Text.parseInt

/-- The object serializes this ordinal first, and its methods leave it that way. -/
def Carries (cls : ActionClass β ω) (ordinal : Int) (self : ActionObj β) : Prop :=
  ∃ Shape : ActionObj β → Prop, Shape self ∧
    (∀ self, Shape self → leadingInt (cls.serialize self) = some ordinal) ∧
    ∀ method ∈ [cls.execute, cls.heal], ∀ self world, Shape self → Shape (method.exec (self, world)).2.1

/-- "Must include ordinal as the first element", of the objects the class constructs. -/
def OrdinalFirst (cls : ActionClass β ω) : Prop :=
  ∀ dbNodes extraNodes ordinal dcMap kwargs self, cls.init dbNodes extraNodes ordinal dcMap kwargs = .ok self →
    Carries cls ordinal self

theorem Carries.leading {cls : ActionClass β ω} {ordinal : Int} {self : ActionObj β} (h : Carries cls ordinal self) :
    leadingInt (cls.serialize self) = some ordinal := by
  obtain ⟨Shape, shape, serialized, _⟩ := h
  exact serialized self shape

theorem Carries.call {a : FaultAction β ω} {ordinal : Int} {method : Method β ω}
    (among : method ∈ [a.cls.execute, a.cls.heal]) (world : World ω) (h : Carries a.cls ordinal a.self) :
    Carries a.cls ordinal (a.call method world).2.1.self := by
  obtain ⟨Shape, shape, serialized, keeps⟩ := h
  exact ⟨Shape, keeps method among a.self world shape, serialized, keeps⟩

theorem leadingInt_cons (ordinal : Int) (rest : List Char) :
    leadingInt (String.ofList ((toString ordinal).toList ++ ' ' :: rest)) = some ordinal := by
  unfold leadingInt
  rw [String.toList_ofList, Text.split_append_cons _ _ (by decide), Text.split_word (Text.word_toString ordinal)]
  exact Text.parseInt_toString ordinal

/-- A wait serializes its ordinal first. -/
theorem WaitAction.carries (a : WaitAction) : Carries (WaitAction.cls : ActionClass β ω) a.ordinal (.wait a) := by
  refine ⟨fun self => ∃ b : WaitAction, self = .wait b ∧ b.ordinal = a.ordinal, ⟨a, rfl, rfl⟩, ?_, ?_⟩
  · rintro _ ⟨b, rfl, same⟩
    have text : b.serialize = String.ofList ((toString a.ordinal).toList ++ ' ' :: (toString b.seconds).toList) := by
      rw [← String.toList_inj, String.toList_ofList, WaitAction.serialize, same, String.toList_append,
        String.toList_append, List.append_assoc]
      rfl
    show leadingInt b.serialize = _
    rw [text, leadingInt_cons]
  · intro method among self world shape
    have pass : method = Method.pass := by simpa [WaitAction.cls] using among
    rw [pass]
    exact shape

/-! ## Lines -/

/-- The starts and, marked `true`, the heals, each with the object as it is logged. -/
def turnsOf (history : List (Event β ω)) : List (FaultAction β ω × Bool) :=
  history.filterMap fun
    | .action .started a _ => some (a, false)
    | .action .healed a _ => some (a, true)
    | _ => none

/-- What is logged of them: a heal is if the action is healable. -/
def loggedOf (history : List (Event β ω)) : List (FaultAction β ω × Bool) :=
  (turnsOf history).filter fun x => !x.2 || x.1.cls.healable

/-- `+`, `-` or nothing. -/
def Entry.mark (x : Entry β ω) : List Char := linePrefix x.action.cls.healable x.healing

def Entry.name (x : Entry β ω) : String := x.action.cls.name

/-- The ordinal in the parameters of the line. -/
def Entry.ordinal (x : Entry β ω) : Option Int := leadingInt (x.action.cls.serialize x.action.self)

/-- The log's file has been opened and holds these entries, or it has not been opened. -/
def Holds (scenario : List (List Char)) (entries : List (Entry β ω)) : Prop :=
  (∃ t, scenario = headerLines t ++ entries.map Entry.line) ∨ scenario = [] ∧ entries = []

/-- The line has that mark, and the name and the ordinal of the other. -/
def Entry.Echoes (y : Entry β ω) (mark : List Char) (x : Entry β ω) : Prop :=
  y.mark = mark ∧ y.name = x.name ∧ y.ordinal = x.ordinal

/-- The ordinals go up along the lines that are not heals, each heal line echoes one earlier `+`
line, no two heal lines carry one ordinal, and the chains of two `+` lines differ. -/
structure Disciplined (entries : List (Entry β ω)) : Prop where
  increasing : ∃ ordinals : List Int,
    (entries.filter fun x => x.mark ≠ ['-']).map Entry.ordinal = ordinals.map some ∧ ordinals.Pairwise (· < ·)
  paired : ∀ (i : Nat) (x : Entry β ω), entries[i]? = some x → x.mark = ['-'] →
    ∃! j : Nat, j < i ∧ ∃ y : Entry β ω, entries[j]? = some y ∧ y.Echoes ['+'] x
  once : ∀ (i j : Nat) (x y : Entry β ω), entries[i]? = some x → entries[j]? = some y →
    x.mark = ['-'] → y.mark = ['-'] → x.ordinal = y.ordinal → i = j
  chains : ∀ (i j : Nat) (x y : Entry β ω) (n m : Int) (chain : String), i ≠ j → entries[i]? = some x →
    entries[j]? = some y → x.mark = ['+'] → y.mark = ['+'] → x.ordinal = some n → y.ordinal = some m →
    Owned n chain → ¬ Owned m chain

/-- Every `+` line is echoed by one later `-` line. -/
def HealsRecorded (entries : List (Entry β ω)) : Prop :=
  ∀ (i : Nat) (x : Entry β ω), entries[i]? = some x → x.mark = ['+'] →
    ∃! j : Nat, i < j ∧ ∃ y : Entry β ω, entries[j]? = some y ∧ y.Echoes ['-'] x

/-! ## The journal of a history -/

/-- A start or a heal as an entry of the journal. -/
def markOf (x : FaultAction β ω × Bool) : Mark (ActionClass β ω) := ⟨x.1.id, x.1.cls, x.2⟩

theorem turnsOf_append (h k : List (Event β ω)) : turnsOf (h ++ k) = turnsOf h ++ turnsOf k :=
  List.filterMap_append

theorem mem_turnsOf {history : List (Event β ω)} {a : FaultAction β ω} {heal : Bool} :
    (a, heal) ∈ turnsOf history ↔
      ∃ raised, .action (if heal then .healed else .started) a raised ∈ history := by
  rw [turnsOf, List.mem_filterMap]
  constructor
  · rintro ⟨event, member, turn⟩
    split at turn <;> simp_all
    all_goals exact ⟨_, member⟩
  · rintro ⟨raised, member⟩
    cases heal
    all_goals exact ⟨_, member, rfl⟩

theorem loggedOf_append (h k : List (Event β ω)) : loggedOf (h ++ k) = loggedOf h ++ loggedOf k := by
  rw [loggedOf, turnsOf_append, List.filter_append]
  rfl

namespace FaultEngine

/-- The journal of the starts and heals so far. -/
def journal (s : FaultEngine β ω) : List (Mark (ActionClass β ω)) := (turnsOf s.history).map markOf

/-- The log is open and holds the lines of the history. -/
def Written (s : FaultEngine β ω) : Prop :=
  s.logOpen = true ∧ ∃ (t : DateTime) (entries : List (Entry β ω)),
    s.scenario = headerLines t ++ entries.map Entry.line ∧
      entries.map (fun x => (x.action, x.healing)) = loggedOf s.history

section Written

variable {s t : FaultEngine β ω}

theorem Written.congr (h : Written s) (isOpen : t.logOpen = s.logOpen) (scenario : t.scenario = s.scenario)
    (logged : loggedOf t.history = loggedOf s.history) : Written t := by
  unfold Written
  rw [isOpen, scenario, logged]
  exact h

/-- A line is written for what the history gains. -/
theorem Written.wrote (h : Written s) (a : FaultAction β ω) (healing : Bool) (scenario : t.scenario = s.scenario)
    (isOpen : t.logOpen = s.logOpen) (logged : loggedOf t.history = loggedOf s.history ++ [(a, healing)]) :
    Written (t.wrote a healing) := by
  obtain ⟨opened, time, entries, lines, same⟩ := h
  have line : (t.wrote a healing).scenario =
      t.scenario ++ [(⟨t.clock 0, a, healing⟩ : Entry β ω).line] := by
    unfold FaultEngine.wrote
    rw [if_pos (isOpen.trans opened)]
    rfl
  refine ⟨(wrote_logOpen ..).trans (isOpen.trans opened), time, entries ++ [⟨t.clock 0, a, healing⟩], ?_, ?_⟩
  · rw [line, scenario, lines, List.append_assoc, List.map_append]
    rfl
  · rw [wrote_history, logged, List.map_append, same]
    rfl

theorem loggedOf_healingOf (a a' : FaultAction β ω) (raised : Option PyExc) (same : a'.cls = a.cls) :
    loggedOf (healingOf a a' raised) = if a.cls.healable then [(a', true)] else [] := by
  have turns : turnsOf (healingOf a a' raised) = [(a', true)] := rfl
  rw [loggedOf, turns]
  cases healable : a.cls.healable <;> simp [same, healable]

theorem Written.ran (h : Written s) (a : FaultAction β ω) : Written (s.ran a) := by
  have after := h.wrote (t := { s with
    history := s.history ++ execution a (s.executed a) (a.call a.cls.execute s.world).1 }) a false rfl rfl
    (loggedOf_append ..)
  refine after.congr ?_ ?_ ?_
  · rw [ran_logOpen, wrote_logOpen]
  · show (s.wrote a false).scenario = _
    unfold FaultEngine.wrote
    split <;> rfl
  · rw [wrote_history]
    rfl

theorem Written.paused (h : Written s) (e : Setup β ω) (seconds : Int) : Written (s.paused e seconds) :=
  Written.ran (s := { s with nextOrdinal := s.nextOrdinal + 1 }) (h.congr rfl rfl rfl) _

theorem Written.injected (h : Written s) (a : FaultAction β ω) : Written (s.injected a) := by
  have begun : Written (s.injecting a) := by
    refine h.congr rfl rfl ?_
    show loggedOf (s.history ++ [_]) = _
    rw [loggedOf_append]
    exact List.append_nil _
  exact (begun.ran a).congr rfl rfl rfl

theorem loggedOf_mended (a : FaultAction β ω) (s : FaultEngine β ω) : loggedOf (s.mended a).history =
    loggedOf s.history ++ if a.cls.healable then [((a.call a.cls.heal s.world).2.1, true)] else [] := by
  show loggedOf (s.history ++ healingOf a _ _) = _
  rw [loggedOf_append, loggedOf_healingOf a _ _ (FaultAction.call_cls ..)]

theorem Written.mended (h : Written s) {a : FaultAction β ω} (silent : a.cls.healable = false) :
    Written (s.mended a) := by
  refine h.congr rfl rfl ?_
  rw [loggedOf_mended, silent]
  exact List.append_nil _

theorem Written.logged (h : Written s) {a : FaultAction β ω} (healable : a.cls.healable = true) :
    Written (FaultEngine.wrote (a.call a.cls.heal s.world).2.1 true (s.mended a)) := by
  refine h.wrote _ true rfl rfl ?_
  rw [loggedOf_mended, healable]
  rfl

end Written

/-- The log and the journal while `faults` are in force. -/
structure Journaled (faults : List (FaultAction β ω)) (s : FaultEngine β ω) : Prop where
  awaiting : Awaiting faults s
  carried : ∀ a ∈ faults, Carries a.cls a.id a.self
  isOpen : ∀ a ∈ faults, ⟨a.id, a.cls, false⟩ ∈ s.journal
  orderly : Orderly s.journal
  ordinals : ∀ x ∈ turnsOf s.history, leadingInt (x.1.cls.serialize x.1.self) = some (x.1.id : Int)
  used : ∀ m ∈ s.journal, m.number ≤ s.nextOrdinal
  injected : ∀ a raised, .action .injected a raised ∈ s.history → (a, false) ∈ turnsOf s.history
  own : ∀ m ∈ s.journal, m.subject.healable = true → .injected ∈ stagesOf m.number s.history
  written : Written s

namespace Journaled

variable {faults : List (FaultAction β ω)} {s t : FaultEngine β ω}

theorem congr (h : Journaled faults s) (history : t.history = s.history) (ordinal : s.nextOrdinal ≤ t.nextOrdinal)
    (isOpen : t.logOpen = s.logOpen) (scenario : t.scenario = s.scenario) : Journaled faults t := by
  have journal : t.journal = s.journal := by
    unfold FaultEngine.journal
    rw [history]
  have written : Written t := h.written.congr isOpen scenario (by rw [history])
  refine ⟨h.awaiting.congr history ordinal, h.carried, ?_, ?_, ?_, ?_, ?_, ?_, written⟩
  · rw [journal]
    exact h.isOpen
  · rw [journal]
    exact h.orderly
  · rw [history]
    exact h.ordinals
  · rw [journal]
    exact fun m among => (h.used m among).trans ordinal
  · rw [history]
    exact h.injected
  · rw [journal, history]
    exact h.own

theorem perm {faults' : List (FaultAction β ω)} (h : Journaled faults s) (p : faults'.Perm faults) :
    Journaled faults' s :=
  { h with
    awaiting := h.awaiting.perm p
    carried := fun a among => h.carried a (p.mem_iff.mp among)
    isOpen := fun a among => h.isOpen a (p.mem_iff.mp among) }

/-- The journal after a start. -/
theorem journal_ran (a : FaultAction β ω) (s : FaultEngine β ω) :
    (s.ran a).journal = s.journal ++ [⟨a.id, a.cls, false⟩] := by
  unfold FaultEngine.journal
  rw [ran_history, turnsOf_append, List.map_append]
  rfl

theorem paused (h : Journaled faults s) (e : Setup β ω) (seconds : Int) : Journaled faults (s.paused e seconds) := by
  let a : FaultAction β ω := waitAction e (s.nextOrdinal + 1) seconds
  have journal : (s.paused e seconds).journal = s.journal ++ [⟨a.id, a.cls, false⟩] := journal_ran a _
  have next : (s.paused e seconds).nextOrdinal = s.nextOrdinal + 1 := ran_nextOrdinal ..
  have turns : turnsOf (s.paused e seconds).history = turnsOf s.history ++ [(a, false)] := by
    rw [FaultEngine.paused, ran_history, turnsOf_append]
    rfl
  refine ⟨h.awaiting.paused e seconds, h.carried, ?_, ?_, ?_, ?_, ?_, ?_, h.written.paused e seconds⟩
  · rw [journal]
    exact fun b among => List.mem_append_left _ (h.isOpen b among)
  · rw [journal]
    exact .opened a.cls h.orderly fun m among => Nat.lt_succ_of_le (h.used m among)
  · rw [turns]
    intro x among
    rcases List.mem_append.mp among with old | new
    · exact h.ordinals x old
    · rw [List.mem_singleton.mp new]
      exact (WaitAction.carries _).leading
  · rw [journal, next]
    intro m among
    rcases List.mem_append.mp among with old | new
    · exact (h.used m old).trans (Nat.le_succ _)
    · rw [List.mem_singleton.mp new]
      exact le_rfl
  · rw [turns]
    intro b raised injected
    rw [FaultEngine.paused, ran_history, List.mem_append] at injected
    have old := injected.resolve_right (by simp [execution])
    exact List.mem_append_left _ (h.injected b raised old)
  · rw [journal]
    intro m among healable
    rw [stagesOf_paused]
    rcases List.mem_append.mp among with old | new
    · exact List.mem_append_left _ (h.own m old healable)
    · rw [List.mem_singleton.mp new] at healable
      cases healable

theorem inject (h : Journaled s.activeFaults s) {a : FaultAction β ω} (fresh : a.id = s.nextOrdinal + 1)
    (carries : Carries a.cls a.id a.self) : Journaled (s.injected a).activeFaults (s.injected a) := by
  have active : (s.injected a).activeFaults = s.activeFaults ++ [(s.injecting a).executed a] := rfl
  have history : (s.injected a).history = s.history ++ [.action .injected a none] ++ execution a _ _ := rfl
  have turns : turnsOf (s.injected a).history = turnsOf s.history ++ [(a, false)] := by
    rw [history, List.append_assoc, turnsOf_append]
    rfl
  have journal : (s.injected a).journal = s.journal ++ [⟨a.id, a.cls, false⟩] := by
    unfold FaultEngine.journal
    rw [turns, List.map_append]
    rfl
  have next : (s.injected a).nextOrdinal = s.nextOrdinal + 1 := ran_nextOrdinal ..
  rw [active]
  refine ⟨h.awaiting.inject fresh (executed_id _ _), ?_, ?_, ?_, ?_, ?_, ?_, ?_, h.written.injected a⟩
  · intro b among
    rcases List.mem_append.mp among with old | new
    · exact h.carried b old
    · rw [List.mem_singleton.mp new]
      exact carries.call (by simp) _
  · rw [journal]
    intro b among
    rcases List.mem_append.mp among with old | new
    · exact List.mem_append_left _ (h.isOpen b old)
    · rw [List.mem_singleton.mp new]
      exact List.mem_append_right _ (List.mem_singleton_self _)
  · rw [journal]
    exact .opened a.cls h.orderly fun m among => fresh ▸ Nat.lt_succ_of_le (h.used m among)
  · rw [turns]
    intro x among
    rcases List.mem_append.mp among with old | new
    · exact h.ordinals x old
    · rw [List.mem_singleton.mp new]
      exact carries.leading
  · rw [journal, next]
    intro m among
    rcases List.mem_append.mp among with old | new
    · exact (h.used m old).trans (Nat.le_succ _)
    · rw [List.mem_singleton.mp new]
      exact fresh.le
  · rw [turns, history]
    intro b raised injected
    rw [List.append_assoc, List.mem_append] at injected
    rcases injected with old | new
    · exact List.mem_append_left _ (h.injected b raised old)
    · have eq : b = a ∧ raised = none := by simpa [execution] using new
      rw [eq.1]
      exact List.mem_append_right _ (List.mem_singleton_self _)
  · rw [journal]
    intro m among healable
    rw [stagesOf_injected]
    rcases List.mem_append.mp among with old | new
    · exact List.mem_append_left _ (h.own m old healable)
    · rw [List.mem_singleton.mp new, if_pos rfl]
      exact List.mem_append_right _ (by decide)

/-- A heal closes its fault, if its line has been written where there is one. -/
theorem healed {a : FaultAction β ω} (h : Journaled (a :: faults) s) (history : t.history = (s.mended a).history)
    (ordinal : t.nextOrdinal = s.nextOrdinal) (written : Written t) : Journaled faults t := by
  have turns : turnsOf t.history = turnsOf s.history ++ [((a.call a.cls.heal s.world).2.1, true)] := by
    rw [history]
    show turnsOf (s.history ++ healingOf a _ _) = _
    rw [turnsOf_append]
    rfl
  have journal : t.journal = s.journal ++ [⟨a.id, a.cls, true⟩] := by
    unfold FaultEngine.journal
    rw [turns, List.map_append]
    rfl
  have carries := h.carried a List.mem_cons_self
  refine ⟨h.awaiting.mended.congr history ordinal.ge, fun b among => h.carried b (List.mem_cons_of_mem a among),
    ?_, ?_, ?_, ?_, ?_, ?_, written⟩
  · rw [journal]
    exact fun b among => List.mem_append_left _ (h.isOpen b (List.mem_cons_of_mem a among))
  · rw [journal]
    refine .closed h.orderly (h.isOpen a List.mem_cons_self) fun m among closing same => ?_
    obtain ⟨⟨b, heal⟩, turn, rfl⟩ := List.mem_map.mp among
    obtain rfl : heal = true := closing
    obtain ⟨raised, member⟩ := mem_turnsOf.mp turn
    have stage : .healed ∈ stagesOf a.id s.history := mem_stagesOf.mpr ⟨b, raised, same, member⟩
    rw [h.awaiting.awaiting a List.mem_cons_self] at stage
    exact absurd stage (by decide)
  · rw [turns]
    intro x among
    rcases List.mem_append.mp among with old | new
    · exact h.ordinals x old
    · rw [List.mem_singleton.mp new]
      exact (carries.call (by simp) s.world).leading
  · rw [journal, ordinal]
    intro m among
    rcases List.mem_append.mp among with old | new
    · exact h.used m old
    · rw [List.mem_singleton.mp new]
      exact h.awaiting.used List.mem_cons_self
  · rw [turns, history]
    intro b raised injected
    have injected : .action .injected b raised ∈ s.history ++ healingOf a _ _ := injected
    have old := (List.mem_append.mp injected).resolve_right (by simp [healingOf])
    exact List.mem_append_left _ (h.injected b raised old)
  · rw [journal, history]
    intro m among healable
    rw [stagesOf_mended]
    rcases List.mem_append.mp among with old | new
    · exact List.mem_append_left _ (h.own m old healable)
    · rw [List.mem_singleton.mp new] at healable ⊢
      exact List.mem_append_left _ (h.own ⟨a.id, a.cls, false⟩ (h.isOpen a List.mem_cons_self) healable)

theorem silent (h : Journaled s.activeFaults s) {event : Event β ω} (silent : Silent event) :
    Journaled s.activeFaults { s with history := s.history ++ [event] } := by
  have turns : turnsOf (s.history ++ [event]) = turnsOf s.history := by
    rw [turnsOf_append]
    cases event with
    | action stage a raised => exact absurd rfl (silent stage a raised)
    | stopCleared | stopChecked answer | complexFault faultCount | complexFaultDone => exact List.append_nil _
  have journal : FaultEngine.journal { s with history := s.history ++ [event] } = s.journal := by
    unfold FaultEngine.journal
    rw [turns]
  have written : Written { s with history := s.history ++ [event] } := by
    refine h.written.congr rfl rfl ?_
    unfold loggedOf
    rw [turns]
  refine ⟨Tracked.checked h.awaiting silent, h.carried, ?_, ?_, ?_, ?_, fun b raised injected => ?_, ?_, written⟩
  · rw [journal]
    exact h.isOpen
  · rw [journal]
    exact h.orderly
  · rw [turns]
    exact h.ordinals
  · rw [journal]
    exact h.used
  · rw [turns]
    refine h.injected b raised ((List.mem_append.mp injected).resolve_right fun new => ?_)
    exact silent _ _ _ (List.mem_singleton.mp new).symm
  · rw [journal]
    intro m among healable
    exact (stagesOf_silent m.number s.history silent).symm ▸ h.own m among healable

end Journaled

/-- The journal of some faults in force. -/
def Kept (s : FaultEngine β ω) : Prop := ∃ faults, Journaled faults s

theorem journaled_heals (e : Setup β ω) : Heals e Journaled Kept where
  draws _ _ _ h := h.congr rfl le_rfl rfl rfl
  paused _ _ seconds _ h := h.paused e seconds
  mended _ _ _ silent h := h.healed rfl rfl (h.written.mended silent)
  logged _ _ _ healable h := h.healed (wrote_history ..) (wrote_nextOrdinal ..) (h.written.logged healable)
  raised rest _ h := ⟨rest, h⟩

/-- The journal of the active faults is kept through the random mode. -/
theorem journaled_preserved (e : Setup β ω) (contract : ∀ cls, Registered e cls → OrdinalFirst cls) :
    Preserved e (fun s => Journaled s.activeFaults s) Kept where
  draws _ _ _ h := h.congr rfl le_rfl rfl rfl
  checked _ _ silent h := h.silent silent
  paused _ s seconds _ h := by
    have active : (s.paused e seconds).activeFaults = s.activeFaults := ran_activeFaults ..
    rw [active]
    exact h.paused e seconds
  refused _ _ _ _ h := ⟨_, h.congr rfl (Nat.le_succ _) rfl rfl⟩
  injected _ _ _ _ cls _ enabled _ _ built h := h.inject rfl (contract cls enabled.registered _ _ _ _ _ _ built)
  healed := by
    have heal := (journaled_heals e).healAllActive_upholds (I := fun s => Journaled s.activeFaults s)
      fun s faults draws perm h => (h.perm perm).congr rfl le_rfl rfl rfl
    refine heal.conseq (fun _ h => h) ?_ fun _ _ h => h
    rintro _ _ ⟨t, ht, rfl⟩
    exact ht.congr rfl le_rfl rfl rfl
  raised _ _ h := ⟨_, h⟩

/-- Nothing has happened, but that the stop event was cleared. -/
structure Untouched (s : FaultEngine β ω) : Prop where
  closed : s.logOpen = false
  scenario : s.scenario = []
  active : s.activeFaults = []
  silent : ∀ event ∈ s.history, Silent event

theorem Untouched.stages {s : FaultEngine β ω} (h : Untouched s) (id : Nat) : stagesOf id s.history = [] := by
  refine List.filterMap_eq_nil_iff.mpr fun event among => ?_
  cases event with
  | action stage a raised => exact absurd rfl (h.silent _ among stage a raised)
  | stopCleared | stopChecked answer | complexFault faultCount | complexFaultDone => rfl

theorem Untouched.turns {s : FaultEngine β ω} (h : Untouched s) : turnsOf s.history = [] := by
  refine List.filterMap_eq_nil_iff.mpr fun event among => ?_
  cases event with
  | action stage a raised => exact absurd rfl (h.silent _ among stage a raised)
  | stopCleared | stopChecked answer | complexFault faultCount | complexFaultDone => rfl

theorem Untouched.cleared {s : FaultEngine β ω} (h : Untouched s) :
    Untouched { s with history := s.history ++ [.stopCleared] } := by
  refine ⟨h.closed, h.scenario, h.active, fun event among => ?_⟩
  rcases List.mem_append.mp among with old | new
  · exact h.silent event old
  · rw [List.mem_singleton.mp new]
    exact silent_stopCleared

/-- The journal is empty when the log is opened. -/
theorem Untouched.opened {s : FaultEngine β ω} (h : Untouched s) : Journaled s.opened.activeFaults s.opened := by
  have nobody : s.opened.activeFaults = [] := h.active
  have history : s.opened.history = s.history := rfl
  have journal : s.opened.journal = [] := by
    unfold FaultEngine.journal
    rw [history, h.turns]
    rfl
  rw [nobody]
  constructor
  · constructor
    · exact fun a among => absurd among List.not_mem_nil
    · exact List.nodup_nil
    · intro id _ injected
      rw [history, h.stages] at injected
      exact absurd injected List.not_mem_nil
    · exact fun a started => absurd rfl (h.silent _ started .started a none)
    · exact fun id _ => h.stages id
  · exact fun a among => absurd among List.not_mem_nil
  · exact fun a among => absurd among List.not_mem_nil
  · rw [journal]
    exact .nil
  · rw [history, h.turns]
    exact fun x among => absurd among List.not_mem_nil
  · rw [journal]
    exact fun m among => absurd among List.not_mem_nil
  · exact fun a raised injected => absurd rfl (h.silent _ injected .injected a raised)
  · rw [journal]
    exact fun m among => absurd among List.not_mem_nil
  · refine ⟨rfl, s.clock 0, [], (List.append_nil _).symm, ?_⟩
    unfold loggedOf
    rw [history, h.turns]
    rfl

/-- A random run keeps its journal from the opening of its log to its end. -/
theorem runRandom_kept (e : Setup β ω) (contract : ∀ cls, Registered e cls → OrdinalFirst cls) (stopAt : Nat)
    (world : World ω) (clock : Nat → DateTime) :
    Untouched ((runRandom e stopAt).exec (.fresh world clock)).2 ∨
      ∃ t, Kept t ∧ ((runRandom e stopAt).exec (.fresh world clock)).2 = closeLog t := by
  have fresh : Untouched (FaultEngine.fresh world clock : FaultEngine β ω) :=
    ⟨rfl, rfl, rfl, fun event among => absurd among List.not_mem_nil⟩
  have run := (journaled_preserved e contract).runRandom_triple (fun _ => Untouched.cleared) (fun _ => Untouched.opened)
    stopAt _ fresh
  rcases ran : (runRandom e stopAt).exec (.fresh world clock) with ⟨exc | _, s⟩ <;> rw [ran] at run
  · rcases run with untouched | ⟨t, kept, eq⟩
    · exact Or.inl untouched
    · exact Or.inr ⟨t, kept, eq⟩
  · obtain ⟨t, journaled, eq⟩ := run
    exact Or.inr ⟨t, ⟨_, journaled⟩, eq⟩

end FaultEngine

end FaultStorm
