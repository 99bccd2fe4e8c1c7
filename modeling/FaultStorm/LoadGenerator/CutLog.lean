import FaultStorm.Checker.LogOrder
import FaultStorm.LoadGenerator.Logged
import FaultStorm.Python.Json.Extension
import FaultStorm.Trace.Runs

/-!
# A log that was cut off

A run that is killed leaves a log whose last line may be cut off anywhere. No part of an event but the
whole of it is a JSON text, so the checker skips what is left of that line and decides on the events
before it.
-/

namespace FaultStorm.LoadGenerator

open Python Checker

/-! ## Well-formed events -/

section WellFormed

variable {ε : Type} {client : DatabaseClient ε} {s t : State ε} {clock : Clock} {eventType : String}
  {fields : List (String × Json)}

theorem wellFormed_add {value : Int} (apart : Apart fields) (about : given fields "value" = some (.int value)) :
    wellFormed (event clock eventType "add" fields) = true := by
  rw [event_eq, wellFormed, isText_action apart, if_pos (by decide), converts, converts, given_value, about,
    given_timestamp apart]
  rfl

theorem wellFormed_read (apart : Apart fields)
    (found : given fields "value" = none ∨
      ∃ values : Finset Int, given fields "value" = some (.arr ((values.sort (· ≤ ·)).map .int))) :
    wellFormed (event clock eventType "read" fields) = true := by
  rw [event_eq, wellFormed, isText_action apart, isText_action apart, if_neg (by decide), if_pos (by decide), given_value]
  rcases found with absent | ⟨values, list⟩
  · rw [absent]
  · rw [list]
    dsimp only
    rw [mapM_toAtom]
    rfl

/-- The events of a log are well formed. -/
def AllFormed (s : State ε) : Prop := ∀ e ∈ s.log, wellFormed e = true

theorem AllFormed.log {action : String} (h : AllFormed s) (formed : wellFormed (event clock eventType action fields) = true) :
    AllFormed (s.logEvent clock eventType action fields) := by
  intro e member
  rcases List.mem_append.mp member with earlier | here
  · exact h e earlier
  · rw [List.mem_singleton.mp here]
    exact formed

theorem AllFormed.writer {node : String} {old new : Writer ε} (h : AllFormed s)
    (moved : WriterStep client node s old new t) : AllFormed t := by
  cases moved with
  | invokes clock => exact h.log (wellFormed_add apart_addFields given_addFields)
  | completes clock logs =>
    obtain ⟨apart, about, -⟩ := completion_fields logs
    exact h.log (wellFormed_add apart about)
  | _ => exact h

theorem AllFormed.main {main : Main ε} (h : AllFormed s) (moved : MainStep client s main t) : AllFormed t := by
  cases moved with
  | quiet log =>
    intro e member
    exact h e (log ▸ member)
  | @invokes node clock here => exact h.log (wellFormed_read (by simp [Apart]) (Or.inl rfl))
  | @completes node outcome clock here =>
    refine h.log (wellFormed_read (apart_readCompletion client node outcome) ?_)
    rcases readCompletion_fields client node outcome with ⟨values, -, -, about⟩ | ⟨-, -, about⟩
    · exact Or.inr ⟨values, about⟩
    · exact Or.inl about
  | _ => exact h

theorem AllFormed.step {m : Move ε} (h : AllFormed s) (moved : step client s m = some t) : AllFormed t := by
  cases m with
  | writer i clock elapsed =>
    obtain ⟨node, old, new, u, -, goes, rfl⟩ := step_writer moved
    have formed : AllFormed u := h.writer (writerStep goes)
    exact formed
  | main clock elapsed =>
    obtain ⟨main, u, goes, rfl⟩ := step_main moved
    have formed : AllFormed u := h.main (mainStep goes)
    exact formed
  | ends call reply =>
    rw [LoadGenerator.step, State.ends] at moved
    split at moved
    · cases moved
      exact h
    · cases moved
  | stop =>
    cases moved
    exact h

theorem allFormed_run {writersPerNode : Nat} {moves : List (Move ε)}
    (ran : run client (start client writersPerNode) moves = some t) : AllFormed t :=
  Trace.run_invariant AllFormed (fun _ _ _ moved h => h.step moved) ran fun _ member => absurd member List.not_mem_nil

end WellFormed

/-! ## The events that are left -/

/-- The text of a log. -/
def logText (l : List Json) : List Char := l.flatMap fun e => Json.dumps e ++ ['\n']

/-- The events that are complete in the first `n` characters. -/
def complete : List Json → Nat → List Json
  | [], _ => []
  | e :: l, n => if (Json.dumps e).length ≤ n then e :: complete l (n - ((Json.dumps e).length + 1)) else []

section Cut

variable {l m : List Json} {e : Json} {n : Nat}

theorem logText_cons (e : Json) (l : List Json) : logText (e :: l) = Json.dumps e ++ '\n' :: logText l := by
  rw [logText, List.flatMap_cons, List.append_assoc]
  rfl

/-- The beginning of the text of an object, cut off before its end, is skipped. -/
theorem opOf_cut {members : List (String × Json)} {p q : List Char} (split : p ++ q = Json.dumps (.obj members))
    (cut : q ≠ []) : opOf p = none := by
  cases p with
  | nil => rfl
  | cons c p =>
    have front : c = '\x7b' := by
      rw [Json.dumps] at split
      exact (List.cons.inj split).1
    subst front
    rw [opOf]
    split
    · rfl
    · rw [Text.strip_cons (by decide)]
      -- blanks may be gone from the end, and then even more of the object is missing
      obtain ⟨blanks, whole⟩ := List.rdropWhile_prefix Text.isSpace ('\x7b' :: p)
      rw [← whole, List.append_assoc] at split
      exact Json.loads_cut split fun none => cut (List.append_eq_nil_iff.mp none).2

theorem complete_zero (l : List Json) : complete l 0 = [] := by
  cases l with
  | nil => rfl
  | cons e l =>
    obtain ⟨c, t, front, -⟩ := Json.dumps_front e
    rw [complete, front, if_neg (by simp)]

/-- The checker takes the complete events and nothing else. -/
theorem ops_take (objects : ∀ e ∈ l, ∃ members, e = .obj members) (n : Nat) :
    ops ((logText l).take n) = complete l n := by
  induction l generalizing n with
  | nil =>
    rw [logText, List.flatMap_nil, List.take_nil]
    rfl
  | cons e l ih =>
    obtain ⟨members, rfl⟩ := objects _ List.mem_cons_self
    have rest := ih fun e member => objects e (List.mem_cons_of_mem _ member)
    have oneLine := Json.oneLine_dumps (.obj members)
    rw [logText_cons, complete, List.take_append]
    split
    · rename_i whole
      rw [List.take_of_length_le whole]
      cases more : n - (Json.dumps (.obj members)).length with
      | zero =>
        have last : n - ((Json.dumps (.obj members)).length + 1) = 0 := by omega
        rw [last, complete_zero, List.take_zero, List.append_nil, ops_last oneLine, opOf_dumps]
        rfl
      | succ k =>
        have next : n - ((Json.dumps (.obj members)).length + 1) = k := by omega
        rw [next, List.take_succ_cons, ops_line oneLine, opOf_dumps, rest]
        rfl
    · rename_i part
      have beyond : n - (Json.dumps (.obj members)).length = 0 := by omega
      have cut : (Json.dumps (.obj members)).drop n ≠ [] := by
        rw [Ne, List.drop_eq_nil_iff]
        exact part
      have begun : Text.OneLine ((Json.dumps (.obj members)).take n) := fun c member =>
        oneLine c (List.mem_of_mem_take member)
      rw [beyond, List.take_zero, List.append_nil, ops_last begun, opOf_cut (List.take_append_drop n _) cut]
      rfl

/-- A line has two characters at least. -/
theorem logText_length (m : List Json) : logText m = [] ∨ 2 ≤ (logText m).length := by
  cases m with
  | nil => exact Or.inl rfl
  | cons e m =>
    obtain ⟨c, t, front, -⟩ := Json.dumps_front e
    rw [logText_cons, front, List.length_append, List.length_cons, List.length_cons]
    omega

/-- The complete events are a prefix of the log, and no longer prefix is complete. -/
theorem prefix_complete_iff : m <+: complete l n ↔ m <+: l ∧ (logText m).length ≤ n + 1 := by
  induction l generalizing m n with
  | nil =>
    rw [complete, List.prefix_nil]
    constructor
    · rintro rfl
      exact ⟨rfl, Nat.zero_le _⟩
    · exact And.left
  | cons e l ih =>
    cases m with
    | nil => exact iff_of_true List.nil_prefix ⟨List.nil_prefix, Nat.zero_le _⟩
    | cons d m =>
      have size : (logText (d :: m)).length = (Json.dumps d).length + 1 + (logText m).length := by
        rw [logText_cons, List.length_append, List.length_cons]
        omega
      rw [complete, size, List.cons_prefix_cons]
      split
      · rename_i whole
        rw [List.cons_prefix_cons, ih, and_assoc]
        refine and_congr_right fun same => and_congr_right fun _ => ?_
        rw [same]
        rcases logText_length m with none | two
        · rw [none, List.length_nil]
          omega
        · omega
      · rename_i part
        refine iff_of_false (fun empty => ?_) fun ⟨⟨same, _⟩, long⟩ => ?_
        · exact absurd (List.prefix_nil.mp empty) (List.cons_ne_nil d m)
        · rw [same] at long
          omega

theorem logText_mono (h : m <+: l) : logText m <+: logText l := by
  obtain ⟨rest, rfl⟩ := h
  rw [logText, logText, List.flatMap_append]
  exact List.prefix_append _ _

/-- The longest prefix of a log whose events, but for the end of the last line, are all in its first `n`
characters. -/
structure LongestComplete (l : List Json) (n : Nat) (m : List Json) : Prop where
  within : m <+: l
  complete : (logText m).dropLast <+: (logText l).take n
  longest : ∀ other, other <+: l → (logText other).dropLast <+: (logText l).take n → other <+: m

theorem dropLast_prefix_iff (h : m <+: l) : (logText m).dropLast <+: (logText l).take n ↔ (logText m).length ≤ n + 1 := by
  rw [List.prefix_take_iff, and_iff_right ((List.dropLast_prefix _).trans (logText_mono h)), List.length_dropLast]
  omega

theorem longestComplete (l : List Json) (n : Nat) : LongestComplete l n (complete l n) := by
  obtain ⟨within, size⟩ := prefix_complete_iff.mp (List.prefix_refl (complete l n))
  refine ⟨within, (dropLast_prefix_iff within).mpr size, fun other inside whole => ?_⟩
  exact prefix_complete_iff.mpr ⟨inside, (dropLast_prefix_iff inside).mp whole⟩

/-- A log of well-formed events may be cut off anywhere. -/
theorem checkConsistency_take (formed : ∀ e ∈ l, wellFormed e = true) (n : Nat) :
    ∃ result, checkConsistency ((logText l).take n) = .ok result ∧ checkConsistency (logText (complete l n)) = .ok result := by
  have objects : ∀ e ∈ l, ∃ members, e = .obj members := by
    intro e member
    cases e with
    | obj members => exact ⟨members, rfl⟩
    | _ => cases formed _ member
  have left : complete l n ⊆ l := (longestComplete l n).within.subset
  have same : ops (logText (complete l n)) = ops ((logText l).take n) := by
    rw [ops_take objects, logText, ops_lines fun e member => objects e (left member)]
  obtain ⟨s, ran⟩ := run_returns (l := complete l n) (fun e member => formed e (left member)) Scan.start
  have returned : checkConsistency ((logText l).take n) = .ok s.result := by
    rw [checkConsistency, ops_take objects, ran]
    rfl
  refine ⟨s.result, returned, ?_⟩
  rw [← returned, checkConsistency, checkConsistency, same]

end Cut

/-- The log of a run that is cut off anywhere, whatever the texts of its errors, has the result of the
longest prefix of complete events. -/
theorem checkConsistency_cut {ε : Type} {client : DatabaseClient ε} {writersPerNode : Nat} {moves : List (Move ε)}
    {t : State ε} (ran : run client (start client writersPerNode) moves = some t) (n : Nat) :
    ∃ m, LongestComplete t.log n m ∧
      ∃ result, checkConsistency (t.text.take n) = .ok result ∧ checkConsistency (logText m) = .ok result :=
  ⟨complete t.log n, longestComplete t.log n, checkConsistency_take (allFormed_run ran) n⟩

section Example

/-- A client of one node whose adds fail with braces and quotes in the text of the error. -/
def bracesClient : DatabaseClient Unit where
  dbNodes := ["pg0"]
  isException _ := true
  isTimeoutError _ := false
  isDefiniteFailure _ := some true
  str _ := "\x7d\", \x7b\"\\"

def noon : Clock := ⟨still.timestamp, "12:00:00"⟩

/-- One writer adds one value, and its call raises. -/
def failedAdd : List (Move Unit) :=
  [.main noon false, .writer 0 noon false, .writer 0 noon false, .writer 0 noon false, .writer 0 noon false,
    .ends 0 (.raised ()), .writer 0 noon false, .writer 0 noon false]

theorem failedAdd_cut : ∃ t, run bracesClient (start bracesClient 1) failedAdd = some t ∧ t.log.length = 2 ∧
    ∃ m, LongestComplete t.log 200 m ∧
      ∃ result, checkConsistency (t.text.take 200) = .ok result ∧ checkConsistency (logText m) = .ok result := by
  obtain ⟨t, ran, logged⟩ : ∃ t, run bracesClient (start bracesClient 1) failedAdd = some t ∧ t.log.length = 2 :=
    ⟨_, rfl, rfl⟩
  exact ⟨t, ran, logged, checkConsistency_cut ran 200⟩

end Example

end FaultStorm.LoadGenerator
