import FaultStorm.LoadGenerator.Steps

/-!
# What an add logs

The event that ends an add, for each way the call of the client can end.
-/

namespace FaultStorm.LoadGenerator

open Python

variable {ε : Type} {client : DatabaseClient ε}

/-- How the call of an add ends for the writer. -/
inductive Ending (ε : Type)
  | inTime (reply : Reply ε)
  | late

/-- The ending that a writer waiting for `call` sees. -/
def Ending.of (s : State ε) (call : Nat) (elapsed : Bool) : Option (Ending ε) :=
  if elapsed then some .late else (s.reply call).map .inTime

def Ending.outcome (client : DatabaseClient ε) : Ending ε → Outcome ε
  | .inTime reply => (wrapper client reply).outcome
  | .late => .timedOut

/-- The client raised nothing but `Exception`s, no `TimeoutError` that it takes for a definite failure,
and no other exception on which `is_definite_failure` raises. -/
def Ending.Ordinary (client : DatabaseClient ε) : Ending ε → Prop
  | .inTime (.raised exc) => client.isException exc = true ∧
    if client.isTimeoutError exc then client.isDefiniteFailure exc ≠ some true else (client.isDefiniteFailure exc).isSome
  | _ => True

/-- OK is logged if and only if the call returned in time, FAIL if and only if it raised a definite
failure in time, and INFO otherwise. -/
structure Classified (client : DatabaseClient ε) (ending : Ending ε) (logs : String → Prop) : Prop where
  ok : logs "ok" ↔ ∃ values, ending = .inTime (.returned values)
  fail : logs "fail" ↔ ∃ exc, ending = .inTime (.raised exc) ∧ client.isDefiniteFailure exc = some true
  info : logs "info" ↔ (∀ values, ending ≠ .inTime (.returned values)) ∧
    ∀ exc, ending = .inTime (.raised exc) → client.isDefiniteFailure exc ≠ some true

section Step

variable {s t u : State ε} {i call : Nat} {node : String} {value : Int} {clock clock' : Clock} {elapsed elapsed' : Bool}
  {ending : Ending ε}

/-- The wait ends with the ending, whatever it is. -/
theorem step_await (awaits : s.writers[i]? = some (node, .await value call)) (ends : Ending.of s call elapsed = some ending)
    (ended : step client s (.writer i clock elapsed) = some t) :
    t.writers[i]? = some (node, .complete value (ending.outcome client)) := by
  obtain ⟨node', old, new, u, found, goes, rfl⟩ := step_writer ended
  rw [awaits] at found
  cases found
  have inside : i < u.writers.length := by
    rw [(writerStep goes).frame.1]
    exact (List.getElem?_eq_some_iff.mp awaits).1
  show (u.writers.set i (node, new))[i]? = _
  rw [List.getElem?_set_self inside]
  rw [stepWriter] at goes
  rw [Ending.of] at ends
  by_cases late : elapsed = true
  · rw [if_pos late] at goes ends
    cases goes
    cases ends
    rfl
  rw [if_neg late] at goes ends
  cases replied : s.reply call with
  | none =>
    rw [replied] at goes
    cases goes
  | some reply =>
    rw [replied] at goes ends
    cases ends
    cases reply with
    | returned values =>
      cases goes
      rfl
    | raised exc =>
      cases goes
      rfl

/-- A writer that sees an ending goes on. -/
theorem exists_step_await (awaits : s.writers[i]? = some (node, .await value call))
    (ends : Ending.of s call elapsed = some ending) : ∃ t, step client s (.writer i clock elapsed) = some t := by
  rw [step, awaits]
  rw [Ending.of] at ends
  by_cases late : elapsed = true
  · simp [stepWriter, late]
  rw [if_neg late] at ends
  obtain ⟨reply, replied, -⟩ := Option.map_eq_some_iff.mp ends
  cases reply with
  | returned values => simp [stepWriter, late, replied]
  | raised exc => simp [stepWriter, late, replied]

/-- What the writer logs next. -/
theorem logs_iff (type : String) (completes : u.writers[i]? = some (node, .complete value (ending.outcome client))) :
    (∃ v rest, step client u (.writer i clock' elapsed') = some v ∧
        v.log = u.log ++ [event clock' type "add" (addFields value node ++ rest)]) ↔
      (completion client value node (ending.outcome client)).map Prod.fst = some type := by
  constructor
  · rintro ⟨v, rest, goes, log⟩
    obtain ⟨node', old, new, w, found, moved, rfl⟩ := step_writer goes
    rw [completes] at found
    cases found
    rw [stepWriter] at moved
    cases logs : completion client value node (ending.outcome client) with
    | none =>
      rw [logs] at moved
      cases moved
      have longer := congrArg List.length log
      simp at longer
    | some line =>
      rw [logs] at moved
      cases moved
      have same := List.append_cancel_left log
      simp only [event, List.cons.injEq, Json.obj.injEq, Prod.mk.injEq, Json.str.injEq, true_and,
        List.cons_append] at same
      rw [Option.map_some, same.1.1]
  · intro logs
    obtain ⟨⟨eventType, fields⟩, line, rfl⟩ := Option.map_eq_some_iff.mp logs
    obtain ⟨⟨rest, rfl, -⟩, -⟩ := completion_shape line
    refine ⟨{ u.logEvent clock' eventType "add" (addFields value node ++ rest) with
      writers := u.writers.set i (node, .pause) }, rest, ?_, rfl⟩
    rw [step, completes]
    simp [stepWriter, line, State.logEvent]

/-- The type of event that `add` logs for an ending, if it logs one. -/
def Ending.logged (client : DatabaseClient ε) (value : Int) (node : String) (ending : Ending ε) : Option String :=
  (completion client value node (ending.outcome client)).map Prod.fst

/-- An ending is classified by what is logged for it if and only if it is ordinary. -/
theorem classified_logged_iff (client : DatabaseClient ε) (value : Int) (node : String) (ending : Ending ε) :
    Classified client ending (fun type => ending.logged client value node = some type) ↔ ending.Ordinary client := by
  cases ending with
  | late =>
    refine iff_of_true ?_ trivial
    have info : Ending.late.logged client value node = some "info" := rfl
    constructor
    · simp [info]
    · simp [info]
    · simp [info]
  | inTime reply =>
    cases reply with
    | returned values =>
      refine iff_of_true ?_ trivial
      have ok : (Ending.inTime (.returned values)).logged client value node = some "ok" := rfl
      constructor
      · simp [ok]
      · simp [ok]
      · simp [ok]
    | raised exc =>
      have unreturned : ∀ values, Ending.inTime (.raised exc) ≠ .inTime (.returned values) := by simp
      by_cases exception : client.isException exc = true
      · have outcome : (Ending.inTime (.raised exc)).outcome client = .raised exc := by
          rw [Ending.outcome, wrapper, if_pos exception]
          rfl
        by_cases timeout : client.isTimeoutError exc = true
        · have info : (Ending.inTime (.raised exc)).logged client value node = some "info" := by
            rw [Ending.logged, outcome, completion, if_pos timeout]
            rfl
          rw [Ending.Ordinary, if_pos timeout]
          constructor
          · intro classified
            refine ⟨exception, fun definite => ?_⟩
            have fail := classified.fail.mpr ⟨exc, rfl, definite⟩
            rw [info] at fail
            exact absurd fail (by decide)
          · rintro ⟨-, indefinite⟩
            constructor
            · simp [info]
            · simp [info, indefinite]
            · simp [info, indefinite]
        · rw [Ending.Ordinary, if_neg timeout]
          have kind : (Ending.inTime (.raised exc)).logged client value node =
              (client.isDefiniteFailure exc).map fun failure => if failure then "fail" else "info" := by
            rw [Ending.logged, outcome, completion, if_neg timeout]
            cases client.isDefiniteFailure exc with
            | none => rfl
            | some failure => cases failure <;> rfl
          cases definite : client.isDefiniteFailure exc with
          | none =>
            rw [definite] at kind
            refine iff_of_false (fun classified => ?_) (by simp)
            have info := classified.info.mpr ⟨unreturned, fun exc' same => by cases same; simp [definite]⟩
            rw [kind] at info
            cases info
          | some failure =>
            rw [definite] at kind
            refine iff_of_true ?_ ⟨exception, rfl⟩
            cases failure with
            | true =>
              constructor
              · simp [kind]
              · simp [kind, definite]
              · simp [kind, definite]
            | false =>
              constructor
              · simp [kind]
              · simp [kind, definite]
              · simp [kind, definite]
      · -- the holder stays empty, as if the call had returned
        have ok : (Ending.inTime (.raised exc)).logged client value node = some "ok" := by
          rw [Ending.logged, Ending.outcome, wrapper, if_neg exception]
          rfl
        refine iff_of_false (fun classified => ?_) (fun ordinary => exception ordinary.1)
        obtain ⟨values, returned⟩ := classified.ok.mp ok
        exact unreturned values returned

theorem Classified.congr {logs logs' : String → Prop} (same : ∀ type, logs type ↔ logs' type) :
    Classified client ending logs ↔ Classified client ending logs' := by
  rw [funext fun type => propext (same type)]

/-- What a writer logs when its call is over tells how the call ended if and only if the ending is
ordinary, whatever the other threads do in between. -/
theorem add_classified_iff {moves : List (Move ε)} (awaits : s.writers[i]? = some (node, .await value call))
    (ends : Ending.of s call elapsed = some ending) (ended : step client s (.writer i clock elapsed) = some t)
    (others : ∀ m ∈ moves, m.mover ≠ some i) (ran : run client t moves = some u) :
    Classified client ending (fun type => ∃ v rest, step client u (.writer i clock' elapsed') = some v ∧
        v.log = u.log ++ [event clock' type "add" (addFields value node ++ rest)]) ↔ ending.Ordinary client := by
  have completes := run_stays others ran (step_await awaits ends ended)
  rw [Classified.congr fun type => logs_iff type completes]
  exact classified_logged_iff client value node ending

end Step

section Example

/-- One node, whose client raises `SystemExit` or nothing. -/
def exiting : DatabaseClient Unit where
  dbNodes := ["pg0"]
  isException _ := false
  isTimeoutError _ := false
  isDefiniteFailure _ := some false
  str _ := ""

/-- The only writer waits for its first call, which ends with this reply. -/
def firstCall (reply : Reply Unit) : List (Move Unit) :=
  [.main still false] ++ List.replicate 4 (.writer 0 still false) ++ [.ends 0 reply]

/-- Where it is then. -/
theorem firstCall_awaits : ∀ reply ∈ [Reply.returned ∅, .raised ()],
    ((run exiting (start exiting 1) (firstCall reply)).bind fun s => s.writers[0]?) = some ("pg0", .await 1 0) ∧
      ((run exiting (start exiting 1) (firstCall reply)).bind fun s => s.reply 0) = some reply := by
  decide +kernel

theorem firstCall_ending (reply : Reply Unit) (member : reply ∈ [Reply.returned ∅, .raised ()]) :
    ∃ s, run exiting (start exiting 1) (firstCall reply) = some s ∧ s.writers[0]? = some ("pg0", .await 1 0) ∧
      Ending.of s 0 false = some (.inTime reply) := by
  obtain ⟨awaits, replied⟩ := firstCall_awaits reply member
  obtain ⟨s, ran, there⟩ := Option.bind_eq_some_iff.mp awaits
  refine ⟨s, ran, there, ?_⟩
  rw [ran, Option.bind_some] at replied
  rw [Ending.of, replied]
  rfl

/-- An add that returned is logged as OK. -/
theorem returned_classified : ∃ s t, run exiting (start exiting 1) (firstCall (.returned ∅)) = some s ∧
    step exiting s (.writer 0 still false) = some t ∧
    Classified exiting (.inTime (.returned ∅)) (fun type => ∃ v rest, step exiting t (.writer 0 still false) = some v ∧
      v.log = t.log ++ [event still type "add" (addFields 1 "pg0" ++ rest)]) := by
  obtain ⟨s, ran, awaits, ends⟩ := firstCall_ending (.returned ∅) (by simp)
  have goes : ∃ t, step exiting s (.writer 0 still false) = some t := exists_step_await awaits ends
  obtain ⟨t, goes⟩ := goes
  have alone : run exiting t [] = some t := rfl
  exact ⟨s, t, ran, goes, (add_classified_iff awaits ends goes (List.forall_mem_nil _) alone).mpr trivial⟩

/-- So is one that raised `SystemExit`. -/
theorem exited_not_classified : ∃ s t, run exiting (start exiting 1) (firstCall (.raised ())) = some s ∧
    step exiting s (.writer 0 still false) = some t ∧ (∃ v rest, step exiting t (.writer 0 still false) = some v ∧
      v.log = t.log ++ [event still "ok" "add" (addFields 1 "pg0" ++ rest)]) ∧
    ¬ Classified exiting (.inTime (.raised ())) (fun type => ∃ v rest, step exiting t (.writer 0 still false) = some v ∧
      v.log = t.log ++ [event still type "add" (addFields 1 "pg0" ++ rest)]) := by
  obtain ⟨s, ran, awaits, ends⟩ := firstCall_ending (.raised ()) (by simp)
  have goes : ∃ t, step exiting s (.writer 0 still false) = some t := exists_step_await awaits ends
  obtain ⟨t, goes⟩ := goes
  have completes := step_await awaits ends goes
  refine ⟨s, t, ran, goes, (logs_iff "ok" completes).mpr rfl, fun classified => ?_⟩
  rw [Classified.congr fun type => logs_iff type completes] at classified
  obtain ⟨values, returned⟩ := classified.ok.mp rfl
  cases returned

end Example

end FaultStorm.LoadGenerator
