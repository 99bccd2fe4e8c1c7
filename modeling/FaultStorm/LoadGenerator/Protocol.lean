import FaultStorm.LoadGenerator.OpsLog
import FaultStorm.LoadGenerator.Steps
import FaultStorm.Trace.Orderly
import FaultStorm.Trace.Runs

/-!
# The protocol of the operations log

The writers draw their values from one counter, and each logs two lines about a value: INVOKE, and
one completion under the same node. Once the writers are joined this has been done for all values.
-/

namespace FaultStorm.LoadGenerator

open Python Checker

variable {ε : Type} {client : DatabaseClient ε}

/-- A line of the log about an add. -/
structure AddLine where
  eventType : String
  value : Int
  node : String
  deriving DecidableEq

/-- The event is about an add. -/
def isAdd : Json → Bool
  | .obj members => isText members "action" "add"
  | _ => false

def addLine : Json → Option AddLine
  | .obj members =>
    match Json.member members "type", Json.member members "value", Json.member members "node" with
    | some (.str eventType), some (.int value), some (.str node) =>
      if isText members "action" "add" then some ⟨eventType, value, node⟩ else none
    | _, _, _ => none
  | _ => none

/-- The lines of the log about this value. -/
def linesOf (value : Int) (log : List Json) : List AddLine := (log.filterMap addLine).filter (·.value = value)

theorem linesOf_append (value : Int) (log : List Json) (e : Json) :
    linesOf value (log ++ [e]) = linesOf value log ++ (addLine e).toList.filter (·.value = value) := by
  rw [linesOf, List.filterMap_append, List.filter_append]
  cases added : addLine e with
  | none => simp [linesOf, added]
  | some line => simp [linesOf, added]

/-- What `add` writes for a value of its own. -/
theorem addLine_event {clock : Clock} {eventType node : String} {value : Int} {rest : List (String × Json)}
    (shape : rest = [] ∨ ∃ text, rest = [("error", .str text)]) :
    addLine (event clock eventType "add" (addFields value node ++ rest)) = some ⟨eventType, value, node⟩ := by
  have apart : Apart (addFields value node ++ rest) := by
    rcases shape with rfl | ⟨text, rfl⟩ <;> simp [Apart, addFields]
  have fields : Json.member (addFields value node ++ rest) "value" = some (.int value) ∧
      Json.member (addFields value node ++ rest) "node" = some (.str node) := by
    rcases shape with rfl | ⟨text, rfl⟩ <;> exact ⟨rfl, rfl⟩
  have type : Json.member (members clock eventType "add" (addFields value node ++ rest)) "type" = some (.str eventType) :=
    (member_head (by decide) apart).trans rfl
  have key : "value" ∉ ["type", "action", "timestamp", "pretty_ts"] ∧ "node" ∉ ["type", "action", "timestamp", "pretty_ts"] := by
    decide
  rw [event_eq, addLine, type, member_fields key.1, member_fields key.2, fields.1, fields.2, isText_action apart]
  rfl

theorem isAdd_read {clock : Clock} {eventType : String} {fields : List (String × Json)} (apart : Apart fields) :
    isAdd (event clock eventType "read" fields) = false ∧ addLine (event clock eventType "read" fields) = none := by
  have other : isText (members clock eventType "read" fields) "action" "add" = false := by
    rw [isText_action apart]
    decide
  refine ⟨other, ?_⟩
  rw [event_eq, addLine, other]
  split <;> rfl

/-- The value a writer is busy with. -/
def Writer.value : Writer ε → Option Int
  | .invoke value | .start value | .await value _ | .complete value _ => some value
  | _ => none

/-- The writer has logged INVOKE for its value. -/
def Writer.invoked : Writer ε → Bool
  | .invoke _ => false
  | _ => true

/-- The two lines of a value. -/
def Finished (lines : List AddLine) (value : Int) : Prop :=
  ∃ node eventType, eventType ∈ ["ok", "fail", "info"] ∧ lines = [⟨"invoke", value, node⟩, ⟨eventType, value, node⟩]

/-- The log has the lines of the values drawn so far: two for each that no writer is busy with. -/
structure Protocol (s : State ε) : Prop where
  known : ∀ e ∈ s.log, isAdd e = true → (addLine e).isSome
  drawn : ∀ w ∈ s.writers, ∀ v, w.2.value = some v → 1 ≤ v ∧ v ≤ s.counter
  apart : ∀ (i j : Nat) (w w' : String × Writer ε) (v : Int), s.writers[i]? = some w → s.writers[j]? = some w' →
    w.2.value = some v → w'.2.value = some v → i = j
  busy : ∀ w ∈ s.writers, ∀ v, w.2.value = some v → linesOf v s.log = if w.2.invoked then [⟨"invoke", v, w.1⟩] else []
  finished : ∀ v : Int, 1 ≤ v → v ≤ s.counter → (∀ w ∈ s.writers, w.2.value ≠ some v) → Finished (linesOf v s.log) v
  numbered : ∀ line ∈ s.log.filterMap addLine, 1 ≤ line.value ∧ line.value ≤ s.counter
  joined : s.main.joined = true → ∀ w ∈ s.writers, w.2 = .exited

theorem linesOf_other {v : Int} {log : List Json} {e : Json} (other : ∀ line, addLine e = some line → line.value ≠ v) :
    linesOf v (log ++ [e]) = linesOf v log := by
  rw [linesOf_append]
  cases added : addLine e with
  | none => simp
  | some line => simp [other line added]

section Step

variable {s t : State ε} {i : Nat} {node : String} {old new : Writer ε}

/-- A writer goes on with its value, or is done with it. -/
theorem Protocol.set (h : Protocol s) (found : s.writers[i]? = some (node, old)) (running : old ≠ .exited)
    (writers : t.writers = s.writers.set i (node, new)) (main : t.main = s.main) (counter : t.counter = s.counter)
    (value : new.value = old.value ∨ new.value = none) (known : ∀ e ∈ t.log, isAdd e = true → (addLine e).isSome)
    (fresh : ∀ line ∈ t.log.filterMap addLine, 1 ≤ line.value ∧ line.value ≤ s.counter)
    (others : ∀ v, old.value ≠ some v → linesOf v t.log = linesOf v s.log)
    (busy : ∀ v, new.value = some v → linesOf v t.log = if new.invoked then [⟨"invoke", v, node⟩] else [])
    (finished : ∀ v, old.value = some v → new.value = none → Finished (linesOf v t.log) v) : Protocol t := by
  have kept : ∀ v, new.value = some v → old.value = some v := by
    intro v some
    rcases value with same | none
    · rw [← same, some]
    · rw [none] at some
      cases some
  have inside : i < s.writers.length := (List.getElem?_eq_some_iff.mp found).1
  have place : ∀ j w, t.writers[j]? = some w → (j = i ∧ w = (node, new)) ∨ (j ≠ i ∧ s.writers[j]? = some w) := by
    intro j w there
    rw [writers] at there
    exact getElem?_set_cases there
  constructor
  · exact known
  · intro w member v busy
    rw [counter]
    obtain ⟨j, there⟩ := List.mem_iff_getElem?.mp member
    rcases place j w there with ⟨-, rfl⟩ | ⟨-, before⟩
    · exact h.drawn _ (List.mem_of_getElem? found) v (kept v busy)
    · exact h.drawn w (List.mem_of_getElem? before) v busy
  · intro j k w w' v atJ atK hw hw'
    rcases place j w atJ with ⟨rfl, rfl⟩ | ⟨-, before⟩ <;> rcases place k w' atK with ⟨rfl, rfl⟩ | ⟨-, before'⟩
    · rfl
    · exact h.apart _ _ _ _ v found before' (kept v hw) hw'
    · exact h.apart _ _ _ _ v before found hw (kept v hw')
    · exact h.apart _ _ _ _ v before before' hw hw'
  · intro w member v hw
    obtain ⟨j, there⟩ := List.mem_iff_getElem?.mp member
    rcases place j w there with ⟨-, rfl⟩ | ⟨other, before⟩
    · exact busy v hw
    · rw [others v fun same => other (h.apart _ _ _ _ v before found hw same)]
      exact h.busy w (List.mem_of_getElem? before) v hw
  · intro v low high idle
    rw [counter] at high
    by_cases mine : old.value = some v
    · apply finished v mine
      rcases value with same | none
      · refine absurd (same.trans mine) (idle (node, new) ?_)
        rw [writers]
        exact List.mem_of_getElem? (List.getElem?_set_self inside)
      · exact none
    · rw [others v mine]
      refine h.finished v low high fun w member => ?_
      obtain ⟨j, there⟩ := List.mem_iff_getElem?.mp member
      by_cases same : j = i
      · rw [same, found] at there
        rw [← Option.some.inj there]
        exact mine
      · apply idle w
        rw [writers]
        refine List.mem_of_getElem? (i := j) ?_
        rw [List.getElem?_set_ne (Ne.symm same), there]
  · rw [counter]
    exact fresh
  · intro joined
    rw [main] at joined
    exact absurd (h.joined joined _ (List.mem_of_getElem? found)) running

/-- Nothing is logged. -/
theorem Protocol.goes (h : Protocol s) (found : s.writers[i]? = some (node, old)) (running : old ≠ .exited)
    (writers : t.writers = s.writers.set i (node, new)) (main : t.main = s.main) (counter : t.counter = s.counter)
    (log : t.log = s.log) (value : new.value = old.value) (invoked : new.invoked = old.invoked) : Protocol t := by
  refine h.set found running writers main counter (Or.inl value) ?_ ?_ ?_ ?_ ?_
  · rw [log]
    exact h.known
  · rw [log]
    exact h.numbered
  · intro v _
    rw [log]
  · intro v busy
    rw [log, invoked]
    exact h.busy _ (List.mem_of_getElem? found) v (value ▸ busy)
  · intro v busy idle
    rw [value, busy] at idle
    cases idle

/-- A writer logs a line about its value. -/
theorem Protocol.logsAdd {clock : Clock} {eventType : String} {value : Int} {rest : List (String × Json)} (h : Protocol s)
    (found : s.writers[i]? = some (node, old)) (running : old ≠ .exited)
    (shape : rest = [] ∨ ∃ text, rest = [("error", .str text)]) (mine : old.value = some value)
    (next : new.value = old.value ∨ new.value = none)
    (busy : ∀ v, new.value = some v →
      linesOf v s.log ++ [⟨eventType, v, node⟩] = if new.invoked then [⟨"invoke", v, node⟩] else [])
    (finished : new.value = none → Finished (linesOf value s.log ++ [⟨eventType, value, node⟩]) value) :
    Protocol { s.logEvent clock eventType "add" (addFields value node ++ rest) with
      writers := s.writers.set i (node, new) } := by
  have line := @addLine_event clock eventType node value rest shape
  have appended : linesOf value (s.log ++ [event clock eventType "add" (addFields value node ++ rest)]) =
      linesOf value s.log ++ [⟨eventType, value, node⟩] := by
    rw [linesOf_append, line]
    simp
  have range := h.drawn _ (List.mem_of_getElem? found) value mine
  refine h.set found running rfl rfl rfl next ?_ ?_ ?_ ?_ ?_
  · intro e member add
    rcases List.mem_append.mp member with before | here
    · exact h.known e before add
    · rw [List.mem_singleton.mp here, line]
      rfl
  · intro l member
    rw [State.logEvent, List.filterMap_append] at member
    rcases List.mem_append.mp member with before | here
    · exact h.numbered l before
    · rw [List.filterMap_cons_some line, List.filterMap_nil, List.mem_singleton] at here
      rw [here]
      exact range
  · intro v other
    apply linesOf_other
    rintro l here same
    rw [line] at here
    rw [← Option.some.inj here] at same
    exact other (same ▸ mine)
  · intro v still
    have same : v = value := by
      rcases next with eq | none
      · rw [eq, mine] at still
        exact (Option.some.inj still).symm
      · rw [none] at still
        cases still
    subst same
    exact appended.trans (busy v still)
  · intro v old idle
    rw [mine] at old
    cases old
    show Finished (linesOf value (s.log ++ [_])) value
    rw [appended]
    exact finished idle

/-- A writer draws the next value. -/
theorem Protocol.draws (h : Protocol s) (found : s.writers[i]? = some (node, .next)) :
    Protocol { s with counter := s.counter + 1, writers := s.writers.set i (node, .invoke (s.counter + 1)) } := by
  have inside : i < s.writers.length := (List.getElem?_eq_some_iff.mp found).1
  have unused : linesOf (s.counter + 1) s.log = [] := by
    rw [linesOf, List.filter_eq_nil_iff]
    intro line member same
    have range := h.numbered line member
    have eq : line.value = s.counter + 1 := by simpa using same
    omega
  have older : ∀ w ∈ s.writers, w.2.value ≠ some ((s.counter : Int) + 1) := by
    intro w member same
    have range := h.drawn w member _ same
    omega
  constructor
  · exact h.known
  · intro w member v busy
    obtain ⟨j, there⟩ := List.mem_iff_getElem?.mp member
    rcases getElem?_set_cases there with ⟨-, rfl⟩ | ⟨-, before⟩
    · cases busy
      constructor
      · omega
      · push_cast
        omega
    · have range := h.drawn w (List.mem_of_getElem? before) v busy
      constructor
      · exact range.1
      · push_cast
        omega
  · intro j k w w' v atJ atK hw hw'
    rcases getElem?_set_cases atJ with ⟨rfl, rfl⟩ | ⟨-, before⟩ <;> rcases getElem?_set_cases atK with ⟨rfl, rfl⟩ | ⟨-, before'⟩
    · rfl
    · cases hw
      exact absurd hw' (older w' (List.mem_of_getElem? before'))
    · cases hw'
      exact absurd hw (older w (List.mem_of_getElem? before))
    · exact h.apart _ _ _ _ v before before' hw hw'
  · intro w member v busy
    obtain ⟨j, there⟩ := List.mem_iff_getElem?.mp member
    rcases getElem?_set_cases there with ⟨-, rfl⟩ | ⟨-, before⟩
    · cases busy
      exact unused
    · exact h.busy w (List.mem_of_getElem? before) v busy
  · intro v low high idle
    have before : v ≤ s.counter := by
      by_contra new
      have eq : v = s.counter + 1 := by
        have high : v ≤ ((s.counter + 1 : Nat) : Int) := high
        push_cast at high
        omega
      refine idle (node, .invoke (s.counter + 1)) (List.mem_of_getElem? (List.getElem?_set_self inside)) ?_
      rw [eq]
      rfl
    refine h.finished v low before fun w member => ?_
    obtain ⟨j, there⟩ := List.mem_iff_getElem?.mp member
    by_cases same : j = i
    · rw [same, found] at there
      cases there
      nofun
    · refine idle w (List.mem_of_getElem? (i := j) ?_)
      rw [List.getElem?_set_ne (Ne.symm same), there]
  · intro line member
    have range := h.numbered line member
    constructor
    · exact range.1
    · push_cast
      omega
  · intro joined
    cases h.joined joined _ (List.mem_of_getElem? found)

/-- A writer's step keeps the protocol, if `is_definite_failure` does not raise. -/
theorem Protocol.writer (definite : ∀ exc, (client.isDefiniteFailure exc).isSome) (h : Protocol s)
    (found : s.writers[i]? = some (node, old)) (moved : WriterStep client node s old new t) :
    Protocol { t with writers := t.writers.set i (node, new) } := by
  have running := moved.running
  cases moved with
  | idles before after =>
    rcases before with rfl | rfl <;> rcases after with rfl | rfl | rfl <;> exact h.goes found running rfl rfl rfl rfl rfl rfl
  | draws => exact h.draws found
  | @invokes value clock =>
    have nothing : linesOf value s.log = [] := h.busy _ (List.mem_of_getElem? found) value rfl
    have bare : ([] : List (String × Json)) = [] ∨ ∃ text, [] = [("error", Json.str text)] := Or.inl rfl
    refine h.logsAdd found running bare rfl (Or.inl rfl) ?_ nofun
    intro v busy
    cases busy
    rw [nothing]
    rfl
  | starts => exact h.goes found running rfl rfl rfl rfl rfl rfl
  | expires => exact h.goes found running rfl rfl rfl rfl rfl rfl
  | returns replied => exact h.goes found running rfl rfl rfl rfl rfl rfl
  | raises replied => exact h.goes found running rfl rfl rfl rfl rfl rfl
  | @completes value outcome eventType fields clock logs =>
    obtain ⟨⟨rest, rfl, shape⟩, -, type⟩ := completion_shape logs
    have invoked : linesOf value s.log = [⟨"invoke", value, node⟩] := h.busy _ (List.mem_of_getElem? found) value rfl
    refine h.logsAdd found running shape rfl (Or.inr rfl) nofun fun _ => ?_
    rw [invoked]
    exact ⟨node, eventType, type, rfl⟩
  | @dies value outcome logs =>
    have some := completion_isSome definite value node outcome
    rw [logs] at some
    cases some

/-- The adds, the counter and the writers are left alone. -/
theorem Protocol.quiet (h : Protocol s) (counter : t.counter = s.counter) (writers : t.writers = s.writers)
    (known : ∀ e ∈ t.log, isAdd e = true → (addLine e).isSome) (log : t.log.filterMap addLine = s.log.filterMap addLine)
    (joined : t.main.joined = true → s.main.joined = true ∨ ∀ w ∈ s.writers, w.2 = .exited) : Protocol t := by
  have lines : ∀ v, linesOf v t.log = linesOf v s.log := by
    intro v
    rw [linesOf, log, linesOf]
  constructor
  · exact known
  · rw [writers, counter]
    exact h.drawn
  · rw [writers]
    exact h.apart
  · intro w member v busy
    rw [lines]
    exact h.busy w (writers ▸ member) v busy
  · intro v low high idle
    rw [lines]
    exact h.finished v low (counter ▸ high) fun w member => idle w (writers ▸ member)
  · rw [log, counter]
    exact h.numbered
  · intro after
    rw [writers]
    rcases joined after with before | exited
    · exact h.joined before
    · exact exited

/-- The reader logs a line of its own. -/
theorem Protocol.logsRead {clock : Clock} {eventType : String} {fields : List (String × Json)} {main : Main ε} (h : Protocol s)
    (apart : Apart fields) (joined : s.main.joined = true) :
    Protocol { s.logEvent clock eventType "read" fields with main } := by
  obtain ⟨other, none⟩ := @isAdd_read clock eventType fields apart
  refine h.quiet rfl rfl ?_ ?_ fun _ => Or.inl joined
  · intro e member add
    rcases List.mem_append.mp member with before | here
    · exact h.known e before add
    · rw [List.mem_singleton.mp here, other] at add
      cases add
  · show (s.log ++ [_]).filterMap addLine = _
    rw [List.filterMap_append, List.filterMap_cons_none none, List.filterMap_nil, List.append_nil]

theorem Protocol.main {main : Main ε} (h : Protocol s) (moved : MainStep client s main t) : Protocol { t with main } := by
  cases moved with
  | @spawns node nodes here =>
    constructor
    · exact h.known
    · intro w member v busy
      rcases List.mem_append.mp member with before | new
      · exact h.drawn w before v busy
      · rw [List.mem_singleton.mp new] at busy
        cases busy
    · intro j k w w' v atJ atK hw hw'
      rcases Trace.getElem?_append_singleton atJ with before | ⟨-, rfl⟩
      · rcases Trace.getElem?_append_singleton atK with before' | ⟨-, rfl⟩
        · exact h.apart _ _ _ _ v before before' hw hw'
        · cases hw'
      · cases hw
    · intro w member v busy
      rcases List.mem_append.mp member with before | new
      · exact h.busy w before v busy
      · rw [List.mem_singleton.mp new] at busy
        cases busy
    · intro v low high idle
      exact h.finished v low high fun w member => idle w (List.mem_append_left _ member)
    · exact h.numbered
    · nofun
  | quiet log _ _ writers counter _ _ joined _ =>
    refine h.quiet counter writers ?_ (by rw [log]) joined
    show ∀ e ∈ t.log, _
    rw [log]
    exact h.known
  | invokes clock here => exact h.logsRead (by simp [Apart]) (by rw [here]; rfl)
  | starts here => exact h.quiet rfl rfl h.known rfl fun _ => Or.inl (by rw [here]; rfl)
  | takes here _ => exact h.quiet rfl rfl h.known rfl fun _ => Or.inl (by rw [here]; rfl)
  | @completes node outcome clock here => exact h.logsRead (apart_readCompletion client node outcome) (by rw [here]; rfl)

theorem Protocol.fresh (writersPerNode : Nat) : Protocol (start client writersPerNode) := by
  constructor
  · nofun
  · nofun
  · intro i j w w' v atI
    simp [start] at atI
  · nofun
  · intro v low high
    have none : v ≤ 0 := high
    omega
  · nofun
  · nofun

/-- Each move keeps the protocol. -/
theorem step_protocol (definite : ∀ exc, (client.isDefiniteFailure exc).isSome) (s : State ε) (m : Move ε) (t : State ε)
    (moved : step client s m = some t) (h : Protocol s) : Protocol t := by
  cases m with
  | writer i clock elapsed =>
    obtain ⟨node, old, new, u, found, goes, rfl⟩ := step_writer moved
    exact h.writer definite found (writerStep goes)
  | main clock elapsed =>
    obtain ⟨main, u, goes, rfl⟩ := step_main moved
    exact h.main (mainStep goes)
  | ends call reply =>
    rw [step, State.ends] at moved
    split at moved
    · cases moved
      exact h.quiet rfl rfl h.known rfl Or.inl
    · cases moved
  | stop =>
    cases moved
    exact h.quiet rfl rfl h.known rfl Or.inl

end Step

/-! ## The write phase -/

/-- `run_write_phase` has returned. -/
def Main.returned : Main ε → Bool
  | .spawn _ | .wait | .join | .drain | .joinPending _ | .clear => false
  | _ => true

theorem Main.joined_of_returned {main : Main ε} (returned : main.returned = true) : main.joined = true := by
  cases main <;> first | rfl | cases returned

section Run

variable {t : State ε} {writersPerNode : Nat} {moves : List (Move ε)}

/-- When the write phase has returned, and ever after, the lines about adds are those of the values
from 1 up to the counter: INVOKE and one completion for each, under one node. A call that ends later
adds no line. -/
theorem writePhase_protocol (definite : ∀ exc, (client.isDefiniteFailure exc).isSome)
    (ran : run client (start client writersPerNode) moves = some t) (returned : t.main.returned = true) :
    (∀ e ∈ t.log, isAdd e = true → ∃ line, addLine e = some line ∧ 1 ≤ line.value ∧ line.value ≤ t.counter) ∧
      (∀ v : Int, 1 ≤ v → v ≤ t.counter → Finished (linesOf v t.log) v) ∧
      ∀ call reply u, step client t (.ends call reply) = some u → u.log = t.log := by
  have h := Trace.run_invariant Protocol (step_protocol definite) ran (Protocol.fresh writersPerNode)
  refine ⟨?_, ?_, ?_⟩
  · intro e member add
    obtain ⟨line, found⟩ := Option.isSome_iff_exists.mp (h.known e member add)
    exact ⟨line, found, h.numbered line (List.mem_filterMap.mpr ⟨e, member, found⟩)⟩
  · intro v low high
    refine h.finished v low high fun w member => ?_
    rw [h.joined (Main.joined_of_returned returned) w member]
    nofun
  · intro call reply u ended
    rw [step, State.ends] at ended
    split at ended
    · cases ended
      rfl
    · cases ended

/-- Three values have been added in the one way or the other, the call for the third ending late. -/
theorem writePhase_threeAdds : ∃ t, run pgPair (start pgPair 1) threeAdds = some t ∧ t.counter = 3 ∧
    ∀ v : Int, 1 ≤ v → v ≤ 3 → Finished (linesOf v t.log) v := by
  have facts : (run pgPair (start pgPair 1) threeAdds).map (fun t => (t.main.returned, t.counter)) = some (true, 3) := by
    decide +kernel
  obtain ⟨t, ran, same⟩ := Option.map_eq_some_iff.mp facts
  simp only [Prod.mk.injEq] at same
  obtain ⟨-, finished, -⟩ := writePhase_protocol (fun _ => rfl) ran same.1
  rw [same.2] at finished
  exact ⟨t, ran, same.2, finished⟩

end Run

end FaultStorm.LoadGenerator
