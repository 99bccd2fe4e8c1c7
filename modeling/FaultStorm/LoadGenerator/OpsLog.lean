import FaultStorm.LoadGenerator
import FaultStorm.Checker.Verdict
import Mathlib.Data.Int.ConditionallyCompleteOrder

/-!
# The operations log as the checker reads it

Each event is written on a line of its own and read back as it was written. The checker takes an
event of the load generator without an exception, and what it takes from it can be told from the
type and the fields.
-/

namespace FaultStorm.LoadGenerator

open Python Checker

variable {clock : Clock} {eventType action type : String} {fields : List (String × Json)} {s : Scan}

/-- Values as the checker keeps them. -/
def numbers (values : Finset Int) : Finset Atom := values.image fun z : Int => Atom.number z

/-- The fields leave the head of the event as it is. -/
def Apart (fields : List (String × Json)) : Prop := ∀ f ∈ fields, f.1 ∉ ["type", "action", "timestamp", "pretty_ts"]

instance (fields : List (String × Json)) : Decidable (Apart fields) := List.decidableBAll _ fields

/-- The members of an event. -/
def members (clock : Clock) (eventType action : String) (fields : List (String × Json)) : List (String × Json) :=
  [("type", .str eventType), ("action", .str action), ("timestamp", .float clock.timestamp),
    ("pretty_ts", .str clock.prettyTs)] ++ fields

theorem event_eq : event clock eventType action fields = .obj (members clock eventType action fields) := rfl

theorem member_fields {key : String} (other : key ∉ ["type", "action", "timestamp", "pretty_ts"]) :
    Json.member (members clock eventType action fields) key = Json.member fields key := by
  simp only [List.mem_cons, List.not_mem_nil, or_false, not_or] at other
  obtain ⟨type, action, timestamp, pretty⟩ := other
  rw [Json.member, members, List.reverse_append, List.lookup_append, ← Json.member]
  simp [List.lookup_cons, List.lookup_nil, beq_eq_false_iff_ne.mpr type, beq_eq_false_iff_ne.mpr action,
    beq_eq_false_iff_ne.mpr timestamp, beq_eq_false_iff_ne.mpr pretty]

theorem member_head {key : String} (head : key ∈ ["type", "action", "timestamp", "pretty_ts"]) (apart : Apart fields) :
    Json.member (members clock eventType action fields) key =
      Json.member (members clock eventType action []) key := by
  have absent : fields.reverse.lookup key = none := by
    rw [List.lookup_eq_none_iff]
    intro f member
    rw [List.mem_reverse] at member
    rw [bne_iff_ne]
    rintro rfl
    exact apart f member head
  rw [Json.member, members, List.reverse_append, List.lookup_append, absent]
  rfl

theorem isText_type (apart : Apart fields) (text : String) :
    isText (members clock eventType action fields) "type" text = (eventType == text) := by
  rw [isText, member_head (by decide) apart]
  rfl

theorem isText_action (apart : Apart fields) (text : String) :
    isText (members clock eventType action fields) "action" text = (action == text) := by
  rw [isText, member_head (by decide) apart]
  rfl

theorem given_timestamp (apart : Apart fields) :
    given (members clock eventType action fields) "timestamp" = some (.float clock.timestamp) := by
  rw [given, member_head (by decide) apart]
  rfl

theorem given_value : given (members clock eventType action fields) "value" = given fields "value" := by
  rw [given, member_fields (by decide), ← given]

/-! ## Adds -/

section Add

variable {value : Int}

theorem addOf_event (apart : Apart fields) (found : given fields "value" = some (.int value)) :
    addOf type (event clock eventType "add" fields) = if eventType = type then some value else none := by
  rw [event_eq, addOf, isText_action apart, isText_type apart, given_value, found]
  by_cases same : eventType = type
  · simp [same, toInt, Except.toOption]
  · simp [same]

theorem readOf_add (apart : Apart fields) : readOf (event clock eventType "add" fields) = none := by
  rw [event_eq, readOf, isText_action apart]
  rfl

theorem scan_add (apart : Apart fields) (found : given fields "value" = some (.int value)) :
    ∃ t, scan s (event clock eventType "add" fields) = .ok t := by
  rw [event_eq, scan, isText_action apart, if_pos (by decide), scanAdd, given_value, found, given_timestamp apart]
  dsimp only
  by_cases invoke : isText (members clock eventType "add" fields) "type" "invoke" = true
  · rw [invoke]
    exact ⟨_, rfl⟩
  by_cases ok : isText (members clock eventType "add" fields) "type" "ok" = true
  · rw [Bool.not_eq_true] at invoke
    rw [invoke, ok]
    exact ⟨_, rfl⟩
  by_cases fail : isText (members clock eventType "add" fields) "type" "fail" = true
  · rw [Bool.not_eq_true] at invoke ok
    rw [invoke, ok, fail]
    exact ⟨_, rfl⟩
  · rw [Bool.not_eq_true] at invoke ok fail
    rw [invoke, ok, fail]
    exact ⟨_, rfl⟩

end Add

/-! ## Reads -/

section Read

theorem addOf_read (apart : Apart fields) : addOf type (event clock eventType "read" fields) = none := by
  rw [event_eq, addOf, isText_action apart]
  rfl

/-- A list of integers as a set. -/
theorem mapM_toAtom (l : List Int) : (l.map Json.int).mapM toAtom = .ok (l.map fun z : Int => Atom.number z) := by
  induction l with
  | nil => rfl
  | cons z l ih =>
    rw [List.map_cons, List.mapM_cons, ih]
    rfl

theorem toFinset_sort (values : Finset Int) :
    ((values.sort (· ≤ ·)).map fun z : Int => Atom.number z).toFinset = numbers values := by
  ext a
  simp [numbers]

theorem readOf_ok {values : Finset Int} (apart : Apart fields)
    (found : given fields "value" = some (.arr ((values.sort (· ≤ ·)).map .int))) :
    readOf (event clock "ok" "read" fields) = some (numbers values) := by
  rw [event_eq, readOf, isText_action apart, isText_type apart, if_pos (by decide), given_value, found]
  dsimp only
  rw [mapM_toAtom, ← toFinset_sort]
  rfl

theorem readOf_other (apart : Apart fields) (other : eventType ≠ "ok") :
    readOf (event clock eventType "read" fields) = none := by
  rw [event_eq, readOf, isText_type apart, beq_eq_false_iff_ne.mpr other, Bool.and_false]
  rfl

theorem scan_read (apart : Apart fields)
    (found : given fields "value" = none ∨
      ∃ values : Finset Int, given fields "value" = some (.arr ((values.sort (· ≤ ·)).map .int))) :
    ∃ t, scan s (event clock eventType "read" fields) = .ok t := by
  rw [event_eq, scan, isText_action apart, isText_action apart, if_neg (by decide), if_pos (by decide), scanRead,
    given_value]
  split
  · rcases found with absent | ⟨values, list⟩
    · rw [absent]
      exact ⟨_, rfl⟩
    · rw [list]
      dsimp only
      rw [mapM_toAtom]
      exact ⟨_, rfl⟩
  · exact ⟨_, rfl⟩

end Read

theorem apart_readCompletion {ε : Type} (client : DatabaseClient ε) (node : String) (outcome : Outcome ε) :
    Apart (readCompletion client node outcome).2 := by
  cases outcome with
  | returned values => cases values <;> simp [Apart, readCompletion]
  | _ => simp [Apart, readCompletion]

/-! ## The text -/

/-- An event that the checker takes. -/
structure Taken (e : Json) : Prop where
  object : ∃ members, e = .obj members
  scans : ∀ s, ∃ t, scan s e = .ok t

theorem ops_lines {l : List Json} (objects : ∀ e ∈ l, ∃ members, e = .obj members) :
    ops (l.flatMap fun e => Json.dumps e ++ ['\n']) = l := by
  have lines : (l.flatMap fun e => Json.dumps e ++ ['\n']) = (l.map Json.dumps).flatMap (· ++ ['\n']) := by
    rw [List.flatMap_map]
  have oneLine : ∀ line ∈ l.map Json.dumps, Text.OneLine line := by
    intro line member
    obtain ⟨e, -, rfl⟩ := List.mem_map.mp member
    exact Json.oneLine_dumps e
  rw [lines, ops_texts oneLine, List.filterMap_map]
  refine (List.filterMap_congr fun e member => ?_).trans List.filterMap_some
  obtain ⟨members, rfl⟩ := objects e member
  exact opOf_dumps members

/-- The checker returns on a log of such events. -/
theorem checkConsistency_taken {l : List Json} (taken : ∀ e ∈ l, Taken e) :
    ∃ result, checkConsistency (l.flatMap fun e => Json.dumps e ++ ['\n']) = .ok result := by
  have loop : ∀ (l : List Json) (s : Scan), (∀ e ∈ l, Taken e) → ∃ t, l.foldlM scan s = .ok t := by
    intro l
    induction l with
    | nil => exact fun s _ => ⟨s, rfl⟩
    | cons e l ih =>
      intro s all
      obtain ⟨t, step⟩ := (all e List.mem_cons_self).scans s
      obtain ⟨u, rest⟩ := ih t fun e' member => all e' (List.mem_cons_of_mem e member)
      refine ⟨u, ?_⟩
      rw [List.foldlM_cons, step]
      exact rest
  obtain ⟨t, ran⟩ := loop l Scan.start taken
  refine ⟨t.result, ?_⟩
  rw [checkConsistency, ops_lines fun e member => (taken e member).object, ran]
  rfl

end FaultStorm.LoadGenerator
