import FaultStorm.LoadGenerator

/-!
# What a step does

A writer's step is a case of `WriterStep`. The steps of the main thread fall into a few kinds: it
starts a writer, logs an event of a read, starts a read, takes the snapshot of a read, or does none
of these.
-/

namespace FaultStorm.LoadGenerator

open Python

variable {ε : Type} {client : DatabaseClient ε} {s t : State ε}

/-- An element of a list of which one was replaced. -/
theorem getElem?_set_cases {α : Type} {l : List α} {i j : Nat} {new a : α} (there : (l.set i new)[j]? = some a) :
    j = i ∧ a = new ∨ j ≠ i ∧ l[j]? = some a := by
  rw [List.getElem?_set] at there
  by_cases same : i = j
  · rw [if_pos same] at there
    split at there
    · exact Or.inl ⟨same.symm, (Option.some.inj there).symm⟩
    · cases there
  · rw [if_neg same] at there
    exact Or.inr ⟨Ne.symm same, there⟩

/-- What holds of an element of a list before and after another one takes its place. -/
theorem exists_mem_set {α : Type} {l : List α} {i : Nat} {old : α} (found : l[i]? = some old) (new : α) (P : α → Prop) :
    ((∃ a ∈ l, P a) ↔ P old ∨ ∃ j, j ≠ i ∧ ∃ a, l[j]? = some a ∧ P a) ∧
      ((∃ a ∈ l.set i new, P a) ↔ P new ∨ ∃ j, j ≠ i ∧ ∃ a, l[j]? = some a ∧ P a) := by
  obtain ⟨inside, rfl⟩ := List.getElem?_eq_some_iff.mp found
  have sides : ∀ new, (∃ a ∈ l.set i new, P a) ↔ P new ∨ ∃ j, j ≠ i ∧ ∃ a, l[j]? = some a ∧ P a := by
    intro new
    constructor
    · rintro ⟨a, member, holds⟩
      obtain ⟨j, there⟩ := List.mem_iff_getElem?.mp member
      rcases getElem?_set_cases there with ⟨-, rfl⟩ | ⟨other, before⟩
      · exact Or.inl holds
      · exact Or.inr ⟨j, other, a, before, holds⟩
    · rintro (holds | ⟨j, other, a, there, holds⟩)
      · exact ⟨new, List.mem_of_getElem? (List.getElem?_set_self inside), holds⟩
      · refine ⟨a, List.mem_of_getElem? (i := j) ?_, holds⟩
        rw [List.getElem?_set_ne (Ne.symm other), there]
  have old := sides l[i]
  rw [List.set_getElem_self] at old
  exact ⟨old, sides new⟩

theorem step_writer {i : Nat} {clock : Clock} {elapsed : Bool} (moved : step client s (.writer i clock elapsed) = some t) :
    ∃ node old new u, s.writers[i]? = some (node, old) ∧ stepWriter client node clock elapsed s old = some (new, u) ∧
      t = { u with writers := u.writers.set i (node, new) } := by
  rw [step] at moved
  cases found : s.writers[i]? with
  | none =>
    rw [found] at moved
    cases moved
  | some w =>
    obtain ⟨node, old⟩ := w
    rw [found] at moved
    cases goes : stepWriter client node clock elapsed s old with
    | none =>
      simp [goes] at moved
    | some r =>
      obtain ⟨new, u⟩ := r
      simp only [goes, bind, Option.bind_some, pure, Option.some.injEq] at moved
      exact ⟨node, old, new, u, rfl, goes, moved.symm⟩

theorem step_main {clock : Clock} {elapsed : Bool} (moved : step client s (.main clock elapsed) = some t) :
    ∃ main u, stepMain client clock elapsed s s.main = some (main, u) ∧ t = { u with main } := by
  rw [step] at moved
  cases goes : stepMain client clock elapsed s s.main with
  | none =>
    rw [goes] at moved
    cases moved
  | some r =>
    rw [goes] at moved
    exact ⟨r.1, r.2, rfl, (Option.some.inj moved).symm⟩

/-- The steps of a writer of `node`. -/
inductive WriterStep (client : DatabaseClient ε) (node : String) (s : State ε) : Writer ε → Writer ε → State ε → Prop
  | idles {old new : Writer ε} (before : old = .test ∨ old = .pause) (after : new = .exited ∨ new = .next ∨ new = .test) :
      WriterStep client node s old new s
  | draws : WriterStep client node s .next (.invoke (s.counter + 1)) { s with counter := s.counter + 1 }
  | invokes {value : Int} (clock : Clock) :
      WriterStep client node s (.invoke value) (.start value) (s.logEvent clock "invoke" "add" (addFields value node))
  | starts {value : Int} :
      WriterStep client node s (.start value) (.await value s.calls.length) (s.call (.add node value))
  | expires {value : Int} {call : Nat} :
      WriterStep client node s (.await value call) (.complete value .timedOut) (s.abandon call)
  | returns {value : Int} {call : Nat} {values : Finset Int} (replied : s.reply call = some (.returned values)) :
      WriterStep client node s (.await value call) (.complete value (.returned (some values))) (s.happens (.acks value))
  | raises {value : Int} {call : Nat} {exc : ε} (replied : s.reply call = some (.raised exc)) :
      WriterStep client node s (.await value call) (.complete value (wrapper client (.raised exc)).outcome) s
  | completes {value : Int} {outcome : Outcome ε} {eventType : String} {fields : List (String × Json)} (clock : Clock)
      (logs : completion client value node outcome = some (eventType, fields)) :
      WriterStep client node s (.complete value outcome) .pause (s.logEvent clock eventType "add" fields)
  | dies {value : Int} {outcome : Outcome ε} (logs : completion client value node outcome = none) :
      WriterStep client node s (.complete value outcome) .exited s

theorem writerStep {node : String} {clock : Clock} {elapsed : Bool} {old new : Writer ε}
    (moved : stepWriter client node clock elapsed s old = some (new, t)) : WriterStep client node s old new t := by
  cases old with
  | test =>
    cases moved
    by_cases stopped : s.stopped = true
    · rw [if_pos stopped]
      exact .idles (Or.inl rfl) (Or.inl rfl)
    · rw [if_neg stopped]
      exact .idles (Or.inl rfl) (Or.inr (Or.inl rfl))
  | next =>
    cases moved
    exact .draws
  | invoke value =>
    cases moved
    exact .invokes clock
  | start value =>
    cases moved
    exact .starts
  | await value call =>
    rw [stepWriter] at moved
    by_cases late : elapsed = true
    · rw [if_pos late] at moved
      cases moved
      exact .expires
    rw [if_neg late] at moved
    cases replied : s.reply call with
    | none =>
      rw [replied] at moved
      cases moved
    | some reply =>
      rw [replied] at moved
      cases reply with
      | returned values =>
        cases moved
        exact .returns replied
      | raised exc =>
        cases moved
        exact .raises replied
  | complete value outcome =>
    rw [stepWriter] at moved
    cases logs : completion client value node outcome with
    | none =>
      rw [logs] at moved
      cases moved
      exact .dies logs
    | some line =>
      rw [logs] at moved
      cases moved
      exact .completes clock logs
  | pause =>
    rw [stepWriter] at moved
    by_cases late : elapsed = true
    · rw [if_pos late] at moved
      cases moved
      exact .idles (Or.inr rfl) (Or.inr (Or.inr rfl))
    rw [if_neg late] at moved
    by_cases stopped : s.stopped = true
    · rw [if_pos stopped] at moved
      cases moved
      exact .idles (Or.inr rfl) (Or.inl rfl)
    · rw [if_neg stopped] at moved
      cases moved
  | exited => cases moved

/-- A writer's step leaves the other threads where they are. -/
theorem WriterStep.frame {node : String} {old new : Writer ε} (moved : WriterStep client node s old new t) :
    t.writers = s.writers ∧ t.main = s.main := by
  cases moved <;> exact ⟨rfl, rfl⟩

theorem WriterStep.running {node : String} {old new : Writer ε} (moved : WriterStep client node s old new t) :
    old ≠ .exited := by
  cases moved with
  | idles before after => rcases before with rfl | rfl <;> simp
  | _ => simp

/-- What `add` logs is about its value, and says OK if and only if the call returned. -/
theorem completion_shape {value : Int} {node : String} {outcome : Outcome ε} {eventType : String}
    {fields : List (String × Json)} (logs : completion client value node outcome = some (eventType, fields)) :
    (∃ rest, fields = addFields value node ++ rest ∧ (rest = [] ∨ ∃ text, rest = [("error", .str text)])) ∧
      (eventType = "ok" ↔ ∃ values, outcome = .returned values) ∧ eventType ∈ ["ok", "fail", "info"] := by
  have error : ∀ text, ∃ rest, addFields value node ++ [("error", .str text)] = addFields value node ++ rest ∧
      (rest = [] ∨ ∃ text, rest = [("error", Json.str text)]) :=
    fun text => ⟨_, rfl, Or.inr ⟨text, rfl⟩⟩
  cases outcome with
  | returned values =>
    cases logs
    exact ⟨⟨[], (List.append_nil _).symm, Or.inl rfl⟩, ⟨fun _ => ⟨values, rfl⟩, fun _ => rfl⟩, by decide⟩
  | timedOut =>
    cases logs
    exact ⟨error _, ⟨fun ok => absurd ok (by decide), nofun⟩, by decide⟩
  | raised exc =>
    rw [completion] at logs
    by_cases timeout : client.isTimeoutError exc = true
    · rw [if_pos timeout] at logs
      cases logs
      exact ⟨error _, ⟨fun ok => absurd ok (by decide), nofun⟩, by decide⟩
    rw [if_neg timeout] at logs
    cases definite : client.isDefiniteFailure exc with
    | none =>
      rw [definite] at logs
      cases logs
    | some failure =>
      rw [definite] at logs
      cases failure with
      | true =>
        cases logs
        exact ⟨error _, ⟨fun ok => absurd ok (by decide), nofun⟩, by decide⟩
      | false =>
        cases logs
        exact ⟨error _, ⟨fun ok => absurd ok (by decide), nofun⟩, by decide⟩

/-- `add` logs a completion, if `is_definite_failure` does not raise. -/
theorem completion_isSome (definite : ∀ exc, (client.isDefiniteFailure exc).isSome) (value : Int) (node : String)
    (outcome : Outcome ε) : (completion client value node outcome).isSome := by
  cases outcome with
  | raised exc =>
    rw [completion]
    split
    · rfl
    obtain ⟨failure, known⟩ := Option.isSome_iff_exists.mp (definite exc)
    rw [known]
    cases failure <;> rfl
  | _ => rfl

/-- The snapshot of a reader that has not logged it. -/
def Main.unlogged : Main ε → Option (Finset Int)
  | .readComplete _ (.returned (some values)) => some values
  | _ => none

/-- The writers have been joined. -/
def Main.joined : Main ε → Bool
  | .spawn _ | .wait | .join => false
  | _ => true

/-- The steps of the main thread. -/
inductive MainStep (client : DatabaseClient ε) (s : State ε) : Main ε → State ε → Prop
  | spawns {node : String} {nodes : List String} (here : s.main = .spawn (node :: nodes)) :
      MainStep client s (.spawn nodes) { s with writers := s.writers ++ [(node, .test)] }
  | quiet {main : Main ε} {t : State ε} (log : t.log = s.log) (trace : t.trace = s.trace) (calls : t.calls = s.calls)
      (writers : t.writers = s.writers) (counter : t.counter = s.counter)
      (unlogged : s.main.unlogged = none ∧ main.unlogged = none) (next : ∀ node c, main ≠ .readAwait node c)
      (joined : main.joined = true → s.main.joined = true ∨ ∀ w ∈ s.writers, w.2 = .exited)
      (unjoined : main.joined = false → s.main.joined = false) : MainStep client s main t
  | invokes {node : String} (clock : Clock) (here : s.main = .readInvoke node) :
      MainStep client s (.readStart node) (s.logEvent clock "invoke" "read" [("node", .str node)])
  | starts {node : String} (here : s.main = .readStart node) :
      MainStep client s (.readAwait node s.calls.length) (s.call (.read node))
  | takes {node : String} {call : Nat} {values : Finset Int} (here : s.main = .readAwait node call)
      (replied : s.reply call = some (.returned values)) :
      MainStep client s (.readComplete node (.returned (some values))) (s.happens (.reads values))
  | completes {node : String} {outcome : Outcome ε} (clock : Clock) (here : s.main = .readComplete node outcome) :
      MainStep client s .readPause
        (s.logEvent clock (readCompletion client node outcome).1 "read" (readCompletion client node outcome).2)

/-- A step that changes nothing but the stop event, the pending threads or the next node, once the
writers are joined. -/
theorem MainStep.idle {old main : Main ε} (here : s.main = old) (log : t.log = s.log) (trace : t.trace = s.trace)
    (calls : t.calls = s.calls) (writers : t.writers = s.writers) (counter : t.counter = s.counter)
    (unlogged : old.unlogged = none ∧ main.unlogged = none) (next : ∀ node c, main ≠ .readAwait node c)
    (joined : old.joined = true) (still : main.joined = true) : MainStep client s main t := by
  subst here
  refine .quiet log trace calls writers counter unlogged next (fun _ => Or.inl joined) fun early => ?_
  rw [still] at early
  cases early

theorem mainStep {clock : Clock} {elapsed : Bool} {main : Main ε}
    (moved : stepMain client clock elapsed s s.main = some (main, t)) : MainStep client s main t := by
  cases here : s.main with
  | spawn nodes =>
    rw [here] at moved
    cases nodes with
    | nil =>
      cases moved
      exact .quiet rfl rfl rfl rfl rfl (by rw [here]; exact ⟨rfl, rfl⟩) nofun nofun fun _ => by rw [here]; rfl
    | cons node nodes =>
      cases moved
      exact .spawns here
  | wait =>
    rw [here, stepMain] at moved
    split at moved
    · cases moved
      exact .quiet rfl rfl rfl rfl rfl (by rw [here]; exact ⟨rfl, rfl⟩) nofun nofun fun _ => by rw [here]; rfl
    · cases moved
  | join =>
    rw [here, stepMain] at moved
    split at moved
    · rename_i exited
      cases moved
      refine .quiet rfl rfl rfl rfl rfl (by rw [here]; exact ⟨rfl, rfl⟩) nofun ?_ nofun
      refine fun _ => Or.inr fun w member => ?_
      have there := exited w member
      split at there
      · assumption
      · cases there
    · cases moved
  | drain =>
    rw [here] at moved
    cases moved
    exact .idle here rfl rfl rfl rfl rfl ⟨rfl, rfl⟩ nofun rfl rfl
  | joinPending calls =>
    rw [here] at moved
    cases calls with
    | nil =>
      cases moved
      exact .idle here rfl rfl rfl rfl rfl ⟨rfl, rfl⟩ nofun rfl rfl
    | cons call calls =>
      rw [stepMain] at moved
      split at moved
      · cases moved
        exact .idle here rfl rfl rfl rfl rfl ⟨rfl, rfl⟩ nofun rfl rfl
      · cases moved
  | clear =>
    rw [here] at moved
    cases moved
    exact .idle here rfl rfl rfl rfl rfl ⟨rfl, rfl⟩ nofun rfl rfl
  | readTest =>
    rw [here, stepMain] at moved
    cases moved
    by_cases elapses : elapsed = true ∨ s.stopped = true
    · rw [if_pos elapses]
      exact .idle here rfl rfl rfl rfl rfl ⟨rfl, rfl⟩ nofun rfl rfl
    · rw [if_neg elapses]
      exact .idle here rfl rfl rfl rfl rfl ⟨rfl, rfl⟩ nofun rfl rfl
  | readNode =>
    rw [here, stepMain] at moved
    split at moved
    · cases moved
      exact .idle here rfl rfl rfl rfl rfl ⟨rfl, rfl⟩ nofun rfl rfl
    · cases moved
      exact .idle here rfl rfl rfl rfl rfl ⟨rfl, rfl⟩ nofun rfl rfl
  | readInvoke node =>
    rw [here] at moved
    cases moved
    exact .invokes clock here
  | readStart node =>
    rw [here] at moved
    cases moved
    exact .starts here
  | readAwait node call =>
    rw [here, stepMain] at moved
    by_cases late : elapsed = true
    · rw [if_pos late] at moved
      cases moved
      exact .idle here rfl rfl rfl rfl rfl ⟨rfl, rfl⟩ nofun rfl rfl
    rw [if_neg late] at moved
    cases replied : s.reply call with
    | none =>
      rw [replied] at moved
      cases moved
    | some reply =>
      rw [replied] at moved
      cases reply with
      | returned values =>
        cases moved
        exact .takes here replied
      | raised exc =>
        cases moved
        refine .idle here rfl rfl rfl rfl rfl ⟨rfl, ?_⟩ nofun rfl rfl
        rw [wrapper]
        split <;> rfl
  | readComplete node outcome =>
    rw [here] at moved
    cases moved
    exact .completes clock here
  | readPause =>
    rw [here, stepMain] at moved
    by_cases late : elapsed = true
    · rw [if_pos late] at moved
      cases moved
      exact .idle here rfl rfl rfl rfl rfl ⟨rfl, rfl⟩ nofun rfl rfl
    rw [if_neg late] at moved
    by_cases stopped : s.stopped = true
    · rw [if_pos stopped] at moved
      cases moved
      exact .idle here rfl rfl rfl rfl rfl ⟨rfl, rfl⟩ nofun rfl rfl
    · rw [if_neg stopped] at moved
      cases moved
  | ended =>
    rw [here] at moved
    cases moved

/-- The steps of the main thread, one for each of its places and what may happen there. -/
inductive MainMove (client : DatabaseClient ε) (clock : Clock) (elapsed : Bool) (s : State ε) : Main ε → Main ε → State ε → Prop
  | spawned : MainMove client clock elapsed s (.spawn []) .wait s
  | spawns {node : String} {nodes : List String} :
      MainMove client clock elapsed s (.spawn (node :: nodes)) (.spawn nodes) { s with writers := s.writers ++ [(node, .test)] }
  | stops (due : elapsed = true ∨ s.stopped = true) :
      MainMove client clock elapsed s .wait .join { s with stopped := true }
  | joins (exited : ∀ w ∈ s.writers, w.2 = .exited) : MainMove client clock elapsed s .join .drain s
  | takesOver : MainMove client clock elapsed s .drain (.joinPending s.pending) { s with pending := [] }
  | drained : MainMove client clock elapsed s (.joinPending []) .clear s
  | drains {call : Nat} {calls : List Nat} (due : elapsed = true ∨ (s.reply call).isSome) :
      MainMove client clock elapsed s (.joinPending (call :: calls)) (.joinPending calls) s
  | clears : MainMove client clock elapsed s .clear .readTest { s with stopped := false }
  | ends (due : elapsed = true ∨ s.stopped = true) : MainMove client clock elapsed s .readTest .ended s
  | reads (on : ¬ (elapsed = true ∨ s.stopped = true)) : MainMove client clock elapsed s .readTest .readNode s
  | takesNode {node : String} (mine : client.dbNodes[s.nodeIndex % client.dbNodes.length]? = some node) :
      MainMove client clock elapsed s .readNode (.readInvoke node) { s with nodeIndex := s.nodeIndex + 1 }
  | noNode (none : client.dbNodes[s.nodeIndex % client.dbNodes.length]? = none) :
      MainMove client clock elapsed s .readNode .ended s
  | invokes {node : String} : MainMove client clock elapsed s (.readInvoke node) (.readStart node)
      (s.logEvent clock "invoke" "read" [("node", .str node)])
  | starts {node : String} : MainMove client clock elapsed s (.readStart node) (.readAwait node s.calls.length)
      (s.call (.read node))
  | expires {node : String} {call : Nat} (late : elapsed = true) :
      MainMove client clock elapsed s (.readAwait node call) (.readComplete node .timedOut) (s.abandon call)
  | returns {node : String} {call : Nat} {values : Finset Int} (replied : s.reply call = some (.returned values)) :
      MainMove client clock elapsed s (.readAwait node call) (.readComplete node (wrapper client (.returned values)).outcome)
        (s.happens (.reads values))
  | raises {node : String} {call : Nat} {exc : ε} (replied : s.reply call = some (.raised exc)) :
      MainMove client clock elapsed s (.readAwait node call) (.readComplete node (wrapper client (.raised exc)).outcome) s
  | completes {node : String} {outcome : Outcome ε} : MainMove client clock elapsed s (.readComplete node outcome) .readPause
      (s.logEvent clock (readCompletion client node outcome).1 "read" (readCompletion client node outcome).2)
  | rested (late : elapsed = true) : MainMove client clock elapsed s .readPause .readTest s
  | quits (stopped : s.stopped = true) : MainMove client clock elapsed s .readPause .ended s

theorem mainMove {clock : Clock} {elapsed : Bool} {old main : Main ε}
    (moved : stepMain client clock elapsed s old = some (main, t)) : MainMove client clock elapsed s old main t := by
  cases old with
  | spawn nodes => cases nodes <;> cases moved <;> constructor
  | wait =>
    rw [stepMain] at moved
    split at moved <;> cases moved
    rename_i due
    exact .stops due
  | join =>
    rw [stepMain] at moved
    split at moved <;> cases moved
    rename_i exited
    refine .joins fun w member => ?_
    have there := exited w member
    split at there
    · assumption
    · cases there
  | drain =>
    cases moved
    exact .takesOver
  | joinPending calls =>
    cases calls with
    | nil =>
      cases moved
      exact .drained
    | cons call calls =>
      rw [stepMain] at moved
      split at moved <;> cases moved
      rename_i due
      exact .drains due
  | clear =>
    cases moved
    exact .clears
  | readTest =>
    cases moved
    by_cases due : elapsed = true ∨ s.stopped = true
    · rw [if_pos due]
      exact .ends due
    · rw [if_neg due]
      exact .reads due
  | readNode =>
    rw [stepMain] at moved
    split at moved <;> cases moved
    · rename_i mine
      exact .takesNode mine
    · rename_i none
      exact .noNode none
  | readInvoke node =>
    cases moved
    exact .invokes
  | readStart node =>
    cases moved
    exact .starts
  | readAwait node call =>
    rw [stepMain] at moved
    by_cases late : elapsed = true
    · rw [if_pos late] at moved
      cases moved
      exact .expires late
    rw [if_neg late] at moved
    split at moved <;> cases moved
    · rename_i replied
      exact .returns replied
    · rename_i replied
      exact .raises replied
  | readComplete node outcome =>
    cases moved
    exact .completes
  | readPause =>
    rw [stepMain] at moved
    by_cases late : elapsed = true
    · rw [if_pos late] at moved
      cases moved
      exact .rested late
    rw [if_neg late] at moved
    by_cases stopped : s.stopped = true
    · rw [if_pos stopped] at moved
      cases moved
      exact .quits stopped
    · rw [if_neg stopped] at moved
      cases moved
  | ended => cases moved

/-- The writer that a move lets go on. -/
def Move.mover : Move ε → Option Nat
  | .writer i _ _ => some i
  | _ => none

/-- A writer stays where it is while others go on. -/
theorem step_stays {m : Move ε} {i : Nat} {w : String × Writer ε} (other : m.mover ≠ some i)
    (moved : step client s m = some t) (there : s.writers[i]? = some w) : t.writers[i]? = some w := by
  cases m with
  | writer j clock elapsed =>
    obtain ⟨node, old, new, u, found, goes, rfl⟩ := step_writer moved
    show (u.writers.set j (node, new))[i]? = some w
    rw [(writerStep goes).frame.1, List.getElem?_set_ne fun same => other (congrArg some same), there]
  | main clock elapsed =>
    obtain ⟨main, u, goes, rfl⟩ := step_main moved
    cases mainStep goes with
    | spawns here =>
      show (s.writers ++ _)[i]? = some w
      rw [List.getElem?_append_left (List.getElem?_eq_some_iff.mp there).1, there]
    | quiet _ _ _ writers _ _ _ _ _ =>
      show u.writers[i]? = some w
      rw [writers, there]
    | _ => exact there
  | ends call reply =>
    rw [step, State.ends] at moved
    split at moved
    · cases moved
      exact there
    · cases moved
  | stop =>
    cases moved
    exact there

theorem run_stays {moves : List (Move ε)} {i : Nat} {w : String × Writer ε} (others : ∀ m ∈ moves, m.mover ≠ some i)
    (ran : run client s moves = some t) (there : s.writers[i]? = some w) : t.writers[i]? = some w := by
  induction moves generalizing s with
  | nil =>
    cases ran
    exact there
  | cons m moves ih =>
    rw [run, List.foldlM_cons] at ran
    cases first : step client s m with
    | none =>
      rw [first] at ran
      cases ran
    | some u =>
      rw [first] at ran
      have still := step_stays (others m List.mem_cons_self) first there
      exact ih (fun m member => others m (List.mem_cons_of_mem _ member)) ran still

/-! ## A run -/

/-- A clock that stands still. -/
def still : Clock := ⟨⟨false, 1, [⟨5, by decide⟩], none, Or.inl (List.cons_ne_nil _ _)⟩, ""⟩

/-- One node, whose client raises nothing. -/
def oneNode : DatabaseClient Empty where
  dbNodes := ["pg0"]
  isException := nofun
  isTimeoutError := nofun
  isDefiniteFailure := nofun
  str := nofun

/-- What a client may raise. -/
inductive DbError
  | refused
  | broken
  | timeout
  deriving DecidableEq

def DbError.text : DbError → String
  | .refused => "connection refused"
  | .broken => "server closed the connection"
  | .timeout => "timed out"

/-- Two nodes, whose client knows that nothing was written where the connection was refused. -/
def pgPair : DatabaseClient DbError where
  dbNodes := ["pg1", "pg2"]
  isException _ := true
  isTimeoutError exc := exc == .timeout
  isDefiniteFailure exc := some (exc == .refused)
  str := DbError.text

/-- Steps of the main thread and of a writer, none of which waits. -/
def mains (n : Nat) : List (Move DbError) := List.replicate n (.main still false)

def writes (i n : Nat) : List (Move DbError) := List.replicate n (.writer i still false)

/-- Two writers that wait for a call each. -/
def inFlight : List (Move DbError) := mains 3 ++ writes 0 4 ++ writes 1 4

/-- The first value is added, the second refused, and the third times out: its call ends after the
write phase, and its value is read with the first. -/
def threeAdds : List (Move DbError) :=
  List.flatten
    [inFlight, [.ends 0 (.returned ∅), .ends 1 (.raised .refused)], writes 1 1, writes 0 2, writes 1 1,
     [.writer 0 still true], writes 0 4, [.writer 0 still true, .main still true], writes 1 1, writes 0 2,
     mains 2, [.main still true], mains 2, [.ends 2 (.returned ∅)], mains 4, [.ends 3 (.returned {1, 3})], mains 2,
     [.main still true, .main still true]]

end FaultStorm.LoadGenerator
