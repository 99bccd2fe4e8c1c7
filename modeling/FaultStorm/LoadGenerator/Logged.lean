import FaultStorm.LoadGenerator.OpsLog
import FaultStorm.LoadGenerator.Steps

/-!
# The log and what happened

What the log says was invoked, acknowledged and read is what was handed to the client and what
reached the threads in time, up to the events that a thread is about to log. Once the writers are
joined there is none of theirs left.
-/

namespace FaultStorm.LoadGenerator

open Python Checker

variable {ε : Type} {client : DatabaseClient ε}

/-! ## What happened -/

/-- The value a call of an add was given. -/
def Event.handed : Event ε → Option Int
  | .starts _ (.add _ value) => some value
  | _ => none

def Event.acked : Event ε → Option Int
  | .acks value => some value
  | _ => none

def Event.read : Event ε → Option (Finset Int)
  | .reads values => some values
  | _ => none

/-- The values that were handed to the client. -/
def handed (trace : List (Event ε)) : Finset Int := (trace.filterMap Event.handed).toFinset

/-- The values whose add returned to its writer in time. -/
def acked (trace : List (Event ε)) : Finset Int := (trace.filterMap Event.acked).toFinset

/-- The snapshot of the last read that returned to the reader. -/
def lastRead (trace : List (Event ε)) : Option (Finset Int) := (trace.filterMap Event.read).getLast?

/-- The values of the logged adds of this type. -/
def logged (type : String) (log : List Json) : Finset Int := (log.filterMap (addOf type)).toFinset

/-- The last logged read that returned. -/
def loggedRead (log : List Json) : Option (Finset Atom) := (log.filterMap readOf).getLast?

section Append

variable {trace : List (Event ε)} {log : List Json}

theorem mem_handed_append (e : Event ε) (v : Int) : v ∈ handed (trace ++ [e]) ↔ v ∈ handed trace ∨ e.handed = some v := by
  simp [handed]

theorem mem_acked_append (e : Event ε) (v : Int) : v ∈ acked (trace ++ [e]) ↔ v ∈ acked trace ∨ e.acked = some v := by
  simp [acked]

theorem mem_logged_append (type : String) (e : Json) (v : Int) :
    v ∈ logged type (log ++ [e]) ↔ v ∈ logged type log ∨ addOf type e = some v := by
  simp [logged]

theorem getLast?_filterMap_append {α β : Type} (f : α → Option β) (l : List α) (a : α) :
    ((l ++ [a]).filterMap f).getLast? = (f a).or (l.filterMap f).getLast? := by
  rw [List.filterMap_append]
  cases here : f a with
  | none => simp [here]
  | some b => simp [here]

theorem lastRead_append (e : Event ε) : lastRead (trace ++ [e]) = e.read.or (lastRead trace) :=
  getLast?_filterMap_append Event.read trace e

theorem loggedRead_append (e : Json) : loggedRead (log ++ [e]) = (readOf e).or (loggedRead log) :=
  getLast?_filterMap_append readOf log e

theorem adds_eq (type : String) (log : List Json) : adds type log = numbers (logged type log) := by
  have values : adds type log = (log.filterMap fun e => (addOf type e).map fun z : Int => Atom.number z).toFinset := by
    unfold adds
    congr 2
    funext e
    cases addOf type e with
    | none => rfl
    | some z => rfl
  ext a
  simp only [values, numbers, logged, List.mem_toFinset, List.mem_filterMap, Finset.mem_image, Option.map_eq_some_iff]
  constructor
  · rintro ⟨e, there, v, found, rfl⟩
    exact ⟨v, ⟨e, there, found⟩, rfl⟩
  · rintro ⟨v, ⟨e, there, found⟩, rfl⟩
    exact ⟨e, there, v, found, rfl⟩

theorem number_injective : Function.Injective fun z : Int => Atom.number z := by
  intro y z same
  exact Int.cast_injective (Atom.number.inj same)

end Append

/-! ## The events of the threads -/

section Fields

variable {value : Int} {node : String}

theorem apart_addFields : Apart (addFields value node) := by
  simp [Apart, addFields]

theorem apart_error (error : String) : Apart (addFields value node ++ [("error", .str error)]) := by
  simp [Apart, addFields]

theorem given_addFields : given (addFields value node) "value" = some (.int value) := rfl

theorem given_error (error : String) :
    given (addFields value node ++ [("error", .str error)]) "value" = some (.int value) := rfl

/-- The fields of what `add` logs. -/
theorem completion_fields {outcome : Outcome ε} {eventType : String} {fields : List (String × Json)}
    (logs : completion client value node outcome = some (eventType, fields)) :
    Apart fields ∧ given fields "value" = some (.int value) ∧
      (eventType = "ok" ↔ ∃ values, outcome = .returned values) ∧ eventType ≠ "invoke" := by
  obtain ⟨⟨rest, rfl, shape⟩, ok, known⟩ := completion_shape logs
  have other : eventType ≠ "invoke" := by
    rintro rfl
    exact absurd known (by decide)
  rcases shape with rfl | ⟨text, rfl⟩
  · rw [List.append_nil]
    exact ⟨apart_addFields, given_addFields, ok, other⟩
  · exact ⟨apart_error text, given_error text, ok, other⟩

/-- What `read` logs when the call is over has the snapshot if the call returned, and no values otherwise. -/
theorem readCompletion_fields (client : DatabaseClient ε) (node : String) (outcome : Outcome ε) :
    (∃ values, outcome = .returned (some values) ∧ (readCompletion client node outcome).1 = "ok" ∧
        given (readCompletion client node outcome).2 "value" = some (.arr ((values.sort (· ≤ ·)).map .int))) ∨
      (∀ values, outcome ≠ .returned (some values)) ∧ (readCompletion client node outcome).1 ≠ "ok" ∧
        given (readCompletion client node outcome).2 "value" = none := by
  have fail : "fail" ≠ "ok" := by decide
  cases outcome with
  | returned values =>
    cases values with
    | none => exact Or.inr ⟨nofun, fail, rfl⟩
    | some values => exact Or.inl ⟨values, rfl, rfl, rfl⟩
  | timedOut => exact Or.inr ⟨nofun, fail, rfl⟩
  | raised exc => exact Or.inr ⟨nofun, fail, rfl⟩

end Fields

/-! ## The invariant -/

/-- The value of a writer that has logged INVOKE and not started its call. -/
def Writer.starting : Writer ε → Option Int
  | .start value => some value
  | _ => none

/-- The value of a writer whose add returned in time and that has not logged OK. -/
def Writer.acking : Writer ε → Option Int
  | .complete value (.returned _) => some value
  | _ => none

/-- The log says what happened. -/
structure Logged (s : State ε) : Prop where
  taken : ∀ e ∈ s.log, Taken e
  invokes : ∀ v, v ∈ logged "invoke" s.log ↔ v ∈ handed s.trace ∨ ∃ w ∈ s.writers, w.2.starting = some v
  acks : ∀ v, v ∈ acked s.trace ↔ v ∈ logged "ok" s.log ∨ ∃ w ∈ s.writers, w.2.acking = some v
  reads : (lastRead s.trace).map numbers = (s.main.unlogged.map numbers).or (loggedRead s.log)
  joined : s.main.joined = true → ∀ w ∈ s.writers, w.2 = .exited

section Step

variable {s t : State ε} {i : Nat} {node : String} {old new : Writer ε}

/-- A writer goes on, and the log and the trace grow with it. -/
theorem Logged.set (h : Logged s) (found : s.writers[i]? = some (node, old)) (running : old ≠ .exited)
    (writers : t.writers = s.writers.set i (node, new)) (main : t.main = s.main) (taken : ∀ e ∈ t.log, Taken e)
    (invokes : ∀ v, ∀ others : Prop, (v ∈ logged "invoke" s.log ↔ v ∈ handed s.trace ∨ old.starting = some v ∨ others) →
      (v ∈ logged "invoke" t.log ↔ v ∈ handed t.trace ∨ new.starting = some v ∨ others))
    (acks : ∀ v, ∀ others : Prop, (v ∈ acked s.trace ↔ v ∈ logged "ok" s.log ∨ old.acking = some v ∨ others) →
      (v ∈ acked t.trace ↔ v ∈ logged "ok" t.log ∨ new.acking = some v ∨ others))
    (reads : lastRead t.trace = lastRead s.trace ∧ loggedRead t.log = loggedRead s.log) : Logged t := by
  constructor
  · exact taken
  · intro v
    have sides := exists_mem_set found (node, new) fun w => w.2.starting = some v
    have before := h.invokes v
    rw [sides.1] at before
    rw [writers, sides.2]
    exact invokes v _ before
  · intro v
    have sides := exists_mem_set found (node, new) fun w => w.2.acking = some v
    have before := h.acks v
    rw [sides.1] at before
    rw [writers, sides.2]
    exact acks v _ before
  · rw [reads.1, reads.2, main]
    exact h.reads
  · intro joined
    rw [main] at joined
    exact absurd (h.joined joined _ (List.mem_of_getElem? found)) running

/-- A writer goes on and nothing is logged and nothing happens. -/
theorem Logged.goes (h : Logged s) (found : s.writers[i]? = some (node, old)) (running : old ≠ .exited)
    (writers : t.writers = s.writers.set i (node, new)) (main : t.main = s.main) (log : t.log = s.log)
    (trace : t.trace = s.trace) (starting : new.starting = old.starting) (acking : new.acking = old.acking) : Logged t := by
  refine h.set found running writers main (by rw [log]; exact h.taken) ?_ ?_ (by rw [log, trace]; exact ⟨rfl, rfl⟩)
  · intro v others before
    rw [log, trace, starting]
    exact before
  · intro v others before
    rw [log, trace, acking]
    exact before

theorem Taken.add {clock : Clock} {eventType : String} {fields : List (String × Json)} {value : Int} (apart : Apart fields)
    (about : given fields "value" = some (.int value)) : Taken (event clock eventType "add" fields) :=
  ⟨⟨_, rfl⟩, fun _ => scan_add apart about⟩

/-- A writer logs an event about its value. -/
theorem Logged.logsAdd {clock : Clock} {eventType : String} {fields : List (String × Json)} {value : Int} (h : Logged s)
    (found : s.writers[i]? = some (node, old)) (running : old ≠ .exited) (apart : Apart fields)
    (about : given fields "value" = some (.int value))
    (invokes : new.starting = if eventType = "invoke" then some value else none) (idle : old.starting = none)
    (acks : old.acking = if eventType = "ok" then some value else none) (done : new.acking = none) :
    Logged { s.logEvent clock eventType "add" fields with writers := s.writers.set i (node, new) } := by
  have added : ∀ type v, v ∈ logged type (s.log ++ [event clock eventType "add" fields]) ↔
      v ∈ logged type s.log ∨ (if eventType = type then some value else none) = some v := by
    intro type v
    rw [mem_logged_append, addOf_event apart about]
  refine h.set found running rfl rfl ?_ ?_ ?_ ?_
  · intro e member
    rcases List.mem_append.mp member with earlier | here
    · exact h.taken e earlier
    · rw [List.mem_singleton.mp here]
      exact Taken.add apart about
  · intro v others before
    show v ∈ logged "invoke" (s.log ++ [_]) ↔ v ∈ handed s.trace ∨ _
    rw [added, before, invokes, idle]
    simp only [reduceCtorEq, false_or]
    tauto
  · intro v others before
    show v ∈ acked s.trace ↔ v ∈ logged "ok" (s.log ++ [_]) ∨ _
    rw [added, before, acks, done]
    simp only [reduceCtorEq, false_or]
    tauto
  · refine ⟨rfl, ?_⟩
    show loggedRead (s.log ++ [_]) = _
    rw [loggedRead_append, readOf_add apart]
    rfl

/-- A writer's step keeps the log true, if what a call raised is an `Exception`. -/
theorem Logged.writer (h : Logged s)
    (exceptions : ∀ call exc, s.reply call = some (.raised exc) → client.isException exc = true)
    (found : s.writers[i]? = some (node, old)) (moved : WriterStep client node s old new t) :
    Logged { t with writers := t.writers.set i (node, new) } := by
  have running := moved.running
  cases moved with
  | idles before after =>
    rcases before with rfl | rfl <;> rcases after with rfl | rfl | rfl <;> exact h.goes found running rfl rfl rfl rfl rfl rfl
  | draws => exact h.goes found running rfl rfl rfl rfl rfl rfl
  | invokes clock => exact h.logsAdd found running apart_addFields given_addFields rfl rfl rfl rfl
  | starts =>
    refine h.set found running rfl rfl h.taken ?_ ?_ ?_
    · intro v others before
      show v ∈ logged "invoke" s.log ↔ v ∈ handed (s.trace ++ [_]) ∨ _
      rw [before, mem_handed_append]
      simp only [Event.handed, Writer.starting, reduceCtorEq, false_or]
      tauto
    · intro v others before
      show v ∈ acked (s.trace ++ [_]) ↔ v ∈ logged "ok" s.log ∨ _
      rw [mem_acked_append, before]
      simp only [Event.acked, Writer.acking, reduceCtorEq, false_or, or_false]
    · refine ⟨?_, rfl⟩
      show lastRead (s.trace ++ [_]) = _
      rw [lastRead_append]
      rfl
  | expires => exact h.goes found running rfl rfl rfl rfl rfl rfl
  | returns replied =>
    refine h.set found running rfl rfl h.taken ?_ ?_ ?_
    · intro v others before
      show v ∈ logged "invoke" s.log ↔ v ∈ handed (s.trace ++ [_]) ∨ _
      rw [before, mem_handed_append]
      simp only [Event.handed, Writer.starting, reduceCtorEq, false_or, or_false]
    · intro v others before
      show v ∈ acked (s.trace ++ [_]) ↔ v ∈ logged "ok" s.log ∨ _
      rw [mem_acked_append, before]
      simp only [Event.acked, Writer.acking, reduceCtorEq, false_or]
      tauto
    · refine ⟨?_, rfl⟩
      show lastRead (s.trace ++ [_]) = _
      rw [lastRead_append]
      rfl
  | @raises value call exc replied =>
    have caught : (wrapper client (.raised exc)).outcome = .raised exc := by
      rw [wrapper, if_pos (exceptions call exc replied)]
      rfl
    rw [caught]
    exact h.goes found running rfl rfl rfl rfl rfl rfl
  | @completes value outcome eventType fields clock logs =>
    obtain ⟨apart, about, ok, other⟩ := completion_fields logs
    refine h.logsAdd found running apart about ?_ rfl ?_ rfl
    · rw [if_neg other]
      rfl
    · by_cases acks : eventType = "ok"
      · obtain ⟨values, rfl⟩ := ok.mp acks
        rw [if_pos acks]
        rfl
      · rw [if_neg acks]
        cases outcome with
        | returned values => exact absurd (ok.mpr ⟨values, rfl⟩) acks
        | timedOut => rfl
        | raised exc => rfl
  | @dies value outcome logs =>
    refine h.goes found running rfl rfl rfl rfl rfl ?_
    cases outcome with
    | returned values => cases logs
    | timedOut => rfl
    | raised exc => rfl

/-- The main thread or a call goes on, and nothing is logged and nothing of the threads happens. -/
theorem Logged.quiet (h : Logged s) (log : t.log = s.log) (invokes : handed t.trace = handed s.trace)
    (acks : acked t.trace = acked s.trace) (reads : lastRead t.trace = lastRead s.trace) (writers : t.writers = s.writers)
    (unlogged : t.main.unlogged = s.main.unlogged)
    (joined : t.main.joined = true → s.main.joined = true ∨ ∀ w ∈ s.writers, w.2 = .exited) : Logged t := by
  constructor
  · rw [log]
    exact h.taken
  · intro v
    rw [log, invokes, writers]
    exact h.invokes v
  · intro v
    rw [log, acks, writers]
    exact h.acks v
  · rw [log, reads, unlogged]
    exact h.reads
  · intro after
    rw [writers]
    rcases joined after with before | exited
    · exact h.joined before
    · exact exited

theorem Logged.ends {call : Nat} {reply : Reply ε} (h : Logged s) (moved : s.ends call reply = some t) : Logged t := by
  unfold State.ends at moved
  split at moved
  · cases moved
    refine h.quiet rfl ?_ ?_ ?_ rfl rfl Or.inl
    · ext v
      rw [mem_handed_append]
      simp [Event.handed]
    · ext v
      rw [mem_acked_append]
      simp [Event.acked]
    · rw [lastRead_append]
      rfl
  · cases moved

/-- The reader logs an event. -/
theorem Logged.logsRead {clock : Clock} {eventType : String} {fields : List (String × Json)} {main : Main ε} (h : Logged s)
    (apart : Apart fields)
    (values : given fields "value" = none ∨
      ∃ values : Finset Int, given fields "value" = some (.arr ((values.sort (· ≤ ·)).map .int)))
    (joined : s.main.joined = true) (done : main.unlogged = none)
    (reads : readOf (event clock eventType "read" fields) = s.main.unlogged.map numbers) :
    Logged { s.logEvent clock eventType "read" fields with main } := by
  have nothing : ∀ type v, v ∈ logged type (s.log ++ [event clock eventType "read" fields]) ↔ v ∈ logged type s.log := by
    intro type v
    rw [mem_logged_append, addOf_read apart]
    simp only [reduceCtorEq, or_false]
  constructor
  · intro e member
    rcases List.mem_append.mp member with earlier | here
    · exact h.taken e earlier
    · rw [List.mem_singleton.mp here]
      exact ⟨⟨_, rfl⟩, fun _ => scan_read apart values⟩
  · intro v
    exact (nothing "invoke" v).trans (h.invokes v)
  · intro v
    exact (h.acks v).trans (or_congr_left (nothing "ok" v).symm)
  · show (lastRead s.trace).map numbers = (main.unlogged.map numbers).or (loggedRead (s.log ++ [_]))
    rw [loggedRead_append, reads, done, h.reads]
    rfl
  · intro _
    exact h.joined joined

/-- A step of the main thread keeps the log true. -/
theorem Logged.main {main : Main ε} (h : Logged s) (moved : MainStep client s main t) : Logged { t with main } := by
  cases moved with
  | @spawns node nodes here =>
    constructor
    · exact h.taken
    · intro v
      show _ ↔ _ ∨ ∃ w ∈ s.writers ++ [(node, .test)], _
      rw [h.invokes]
      simp [Writer.starting]
    · intro v
      show _ ↔ _ ∨ ∃ w ∈ s.writers ++ [(node, .test)], _
      rw [h.acks]
      simp [Writer.acking]
    · have reads := h.reads
      rw [here] at reads
      exact reads
    · nofun
  | quiet log trace _ writers _ unlogged _ joined _ =>
    exact h.quiet log (by rw [trace]) (by rw [trace]) (by rw [trace]) writers (unlogged.2.trans unlogged.1.symm) joined
  | @invokes node clock here =>
    have apart : Apart [("node", .str node)] := by simp [Apart]
    refine h.logsRead apart (Or.inl rfl) (by rw [here]; rfl) rfl ?_
    rw [here, readOf_other apart (by decide)]
    rfl
  | starts here =>
    refine h.quiet rfl ?_ ?_ ?_ rfl (by rw [here]; rfl) fun _ => Or.inl (by rw [here]; rfl)
    · ext v
      show v ∈ handed (s.trace ++ [_]) ↔ _
      rw [mem_handed_append]
      simp [Event.handed]
    · ext v
      show v ∈ acked (s.trace ++ [_]) ↔ _
      rw [mem_acked_append]
      simp [Event.acked]
    · show lastRead (s.trace ++ [_]) = _
      rw [lastRead_append]
      rfl
  | takes here replied =>
    constructor
    · exact h.taken
    · intro v
      show v ∈ logged "invoke" s.log ↔ v ∈ handed (s.trace ++ [_]) ∨ ∃ w ∈ s.writers, _
      rw [h.invokes, mem_handed_append]
      simp [Event.handed]
    · intro v
      show v ∈ acked (s.trace ++ [_]) ↔ v ∈ logged "ok" s.log ∨ ∃ w ∈ s.writers, _
      rw [mem_acked_append, h.acks]
      simp [Event.acked]
    · show (lastRead (s.trace ++ [_])).map numbers = _
      rw [lastRead_append]
      rfl
    · intro _
      exact h.joined (by rw [here]; rfl)
  | @completes node outcome clock here =>
    have apart := apart_readCompletion client node outcome
    rcases readCompletion_fields client node outcome with ⟨values, returned, ok, about⟩ | ⟨other, ok, about⟩
    · refine h.logsRead apart (Or.inr ⟨values, about⟩) (by rw [here]; rfl) rfl ?_
      rw [here, ok, readOf_ok apart about, returned]
      rfl
    · refine h.logsRead apart (Or.inl about) (by rw [here]; rfl) rfl ?_
      rw [here, readOf_other apart ok]
      cases outcome with
      | returned values =>
        cases values with
        | none => rfl
        | some values => exact absurd rfl (other values)
      | timedOut => rfl
      | raised exc => rfl

end Step

end FaultStorm.LoadGenerator
