import FaultStorm.Python.Json
import Mathlib.Data.Finset.Sort

/-!
# The load generator

The write phase and the read phase as a machine: a move lets one thread take its next step, lets the
thread of a client call end, or sets the stop event. What the database does, when a wait runs out
and what the clocks show are choices of the moves. A call whose caller stopped waiting goes on.
-/

namespace FaultStorm

open Python

/-- What the load generator takes from its `DatabaseClient`. -/
structure DatabaseClient (ε : Type) where
  /-- `get_db_nodes()` -/
  dbNodes : List String
  /-- `isinstance(exc, Exception)` -/
  isException : ε → Bool
  /-- `isinstance(exc, TimeoutError)` -/
  isTimeoutError : ε → Bool
  /-- `is_definite_failure(exc)`, unless it raises itself -/
  isDefiniteFailure : ε → Option Bool
  /-- `str(exc)` -/
  str : ε → String

namespace LoadGenerator

variable {ε : Type}

/-- A call of the client. -/
inductive Request
  | add (node : String) (value : Int)
  | read (node : String)
  deriving DecidableEq

/-- How a call ends; an add returns nothing that is looked at. -/
inductive Reply (ε : Type)
  | returned (values : Finset Int)
  | raised (exc : ε)
  deriving DecidableEq

structure Call (ε : Type) where
  request : Request
  reply : Option (Reply ε)
  deriving DecidableEq

/-! ## `_run_with_timeout` -/

/-- `result_holder`. -/
structure Holder (ε : Type) where
  result : Option (Finset Int)
  error : Option ε

/-- What `wrapper` leaves in the holder. -/
def wrapper (client : DatabaseClient ε) : Reply ε → Holder ε
  | .returned values => ⟨some values, none⟩
  | .raised exc => if client.isException exc then ⟨none, some exc⟩ else ⟨none, none⟩

/-- What `_run_with_timeout` comes to. -/
inductive Outcome (ε : Type)
  | returned (values : Option (Finset Int))
  | timedOut
  | raised (exc : ε)
  deriving DecidableEq

/-- What the caller takes out of the holder. -/
def Holder.outcome (holder : Holder ε) : Outcome ε :=
  match holder.error with
  | some exc => .raised exc
  | none => .returned holder.result

/-! ## The threads -/

/-- Where a writer thread is. -/
inductive Writer (ε : Type)
  /-- `while not self._stop_event.is_set()` -/
  | test
  /-- `_get_next_value` -/
  | next
  /-- logs INVOKE -/
  | invoke (value : Int)
  /-- `t.start()` -/
  | start (value : Int)
  /-- `done_event.wait` -/
  | await (value : Int) (call : Nat)
  /-- logs OK, FAIL or INFO -/
  | complete (value : Int) (outcome : Outcome ε)
  /-- `self._stop_event.wait(self.config.add_interval)` -/
  | pause
  | exited
  deriving DecidableEq

/-- Where the main thread is. -/
inductive Main (ε : Type)
  /-- writers still to start -/
  | spawn (nodes : List String)
  /-- `self._stop_event.wait(duration)`, and sets the event -/
  | wait
  /-- joins the writers -/
  | join
  /-- takes over the pending threads -/
  | drain
  /-- joins them -/
  | joinPending (calls : List Nat)
  /-- `self._stop_event.clear()` -/
  | clear
  /-- the condition of the read loop -/
  | readTest
  /-- `_get_next_node` -/
  | readNode
  /-- logs INVOKE -/
  | readInvoke (node : String)
  /-- `t.start()` -/
  | readStart (node : String)
  /-- `done_event.wait` -/
  | readAwait (node : String) (call : Nat)
  /-- logs OK or FAIL -/
  | readComplete (node : String) (outcome : Outcome ε)
  /-- `self._stop_event.wait(self.config.read_interval)` -/
  | readPause
  | ended
  deriving DecidableEq

/-- What passes between the load generator and the database, and what reaches the threads in time. -/
inductive Event (ε : Type)
  | starts (call : Nat) (request : Request)
  | ends (call : Nat) (reply : Reply ε)
  | acks (value : Int)
  | reads (values : Finset Int)
  deriving DecidableEq

structure State (ε : Type) where
  counter : Nat
  nodeIndex : Nat
  stopped : Bool
  /-- `_pending_threads` -/
  pending : List Nat
  /-- the events of the operations log, a line each -/
  log : List Json
  /-- the calls that were started, with their threads' ends -/
  calls : List (Call ε)
  /-- the writers that were started, with their nodes -/
  writers : List (String × Writer ε)
  main : Main ε
  /-- what has happened, for the statements about it -/
  trace : List (Event ε)

/-- A fresh load generator whose write phase begins. -/
def start (client : DatabaseClient ε) (writersPerNode : Nat) : State ε where
  counter := 0
  nodeIndex := 0
  stopped := false
  pending := []
  log := []
  calls := []
  writers := []
  main := .spawn (client.dbNodes.flatMap (List.replicate writersPerNode))
  trace := []

/-- What `time` says. -/
structure Clock where
  timestamp : FloatLit
  prettyTs : String

/-- The event of `_log_event`. -/
def event (clock : Clock) (eventType action : String) (fields : List (String × Json)) : Json :=
  .obj ([("type", .str eventType), ("action", .str action), ("timestamp", .float clock.timestamp),
    ("pretty_ts", .str clock.prettyTs)] ++ fields)

namespace State

def logEvent (s : State ε) (clock : Clock) (eventType action : String) (fields : List (String × Json)) : State ε :=
  { s with log := s.log ++ [event clock eventType action fields] }

/-- The text of the operations log. -/
def text (s : State ε) : List Char := s.log.flatMap fun e => Json.dumps e ++ ['\n']

/-- Start the thread of a call. -/
def call (s : State ε) (request : Request) : State ε :=
  { s with
    calls := s.calls ++ [⟨request, none⟩]
    trace := s.trace ++ [.starts s.calls.length request] }

/-- How a call ended, if it did. -/
def reply (s : State ε) (call : Nat) : Option (Reply ε) := s.calls[call]?.bind Call.reply

/-- The thread of a call ends. -/
def ends (s : State ε) (call : Nat) (reply : Reply ε) : Option (State ε) :=
  match s.calls[call]? with
  | some ⟨request, none⟩ => some
    { s with
      calls := s.calls.set call ⟨request, some reply⟩
      trace := s.trace ++ [.ends call reply] }
  | _ => none

/-- The wait for a call runs out. -/
def abandon (s : State ε) (call : Nat) : State ε := { s with pending := s.pending ++ [call] }

def happens (s : State ε) (e : Event ε) : State ε := { s with trace := s.trace ++ [e] }

end State

/-! ## `add` -/

/-- The fields of an event of an add. -/
def addFields (value : Int) (node : String) : List (String × Json) := [("value", .int value), ("node", .str node)]

/-- What `add` logs when the call is over; nothing if `is_definite_failure` raises. -/
def completion (client : DatabaseClient ε) (value : Int) (node : String) : Outcome ε → Option (String × List (String × Json))
  | .returned _ => some ("ok", addFields value node)
  | .timedOut => some ("info", addFields value node ++ [("error", .str "timeout")])
  | .raised exc =>
    if client.isTimeoutError exc then some ("info", addFields value node ++ [("error", .str "timeout")])
    else match client.isDefiniteFailure exc with
      | some true => some ("fail", addFields value node ++ [("error", .str (client.str exc))])
      | some false => some ("info", addFields value node ++ [("error", .str (client.str exc))])
      | none => none

/-- A step of the writer thread of `node`; `elapsed` tells that its wait has run out. -/
def stepWriter (client : DatabaseClient ε) (node : String) (clock : Clock) (elapsed : Bool) (s : State ε) :
    Writer ε → Option (Writer ε × State ε)
  | .test => some (if s.stopped then .exited else .next, s)
  | .next => some (.invoke (s.counter + 1), { s with counter := s.counter + 1 })
  | .invoke value => some (.start value, s.logEvent clock "invoke" "add" (addFields value node))
  | .start value => some (.await value s.calls.length, s.call (.add node value))
  | .await value call =>
    if elapsed then some (.complete value .timedOut, s.abandon call)
    else match s.reply call with
      | some (.returned values) =>
        some (.complete value (wrapper client (.returned values)).outcome, s.happens (.acks value))
      | some (.raised exc) => some (.complete value (wrapper client (.raised exc)).outcome, s)
      | none => none
  | .complete value outcome => match completion client value node outcome with
    | some (eventType, fields) => some (.pause, s.logEvent clock eventType "add" fields)
    | none => some (.exited, s)
  | .pause => if elapsed then some (.test, s) else if s.stopped then some (.exited, s) else none
  | .exited => none

/-! ## `read` -/

/-- What `read` logs when the call is over. -/
def readCompletion (client : DatabaseClient ε) (node : String) : Outcome ε → String × List (String × Json)
  | .returned (some values) => ("ok", [("value", .arr ((values.sort (· ≤ ·)).map .int)), ("node", .str node)])
  | .returned none => ("fail", [("node", .str node), ("error", .str "'NoneType' object is not iterable")])
  | .timedOut => ("fail", [("node", .str node), ("error", .str "timeout")])
  | .raised exc =>
    ("fail", [("node", .str node), ("error", .str (if client.isTimeoutError exc then "timeout" else client.str exc))])

/-- A step of the main thread. Without a node `_get_next_node` divides by zero, which ends the read
phase. -/
def stepMain (client : DatabaseClient ε) (clock : Clock) (elapsed : Bool) (s : State ε) :
    Main ε → Option (Main ε × State ε)
  | .spawn [] => some (.wait, s)
  | .spawn (node :: nodes) => some (.spawn nodes, { s with writers := s.writers ++ [(node, .test)] })
  | .wait => if elapsed ∨ s.stopped then some (.join, { s with stopped := true }) else none
  | .join => if ∀ w ∈ s.writers, w.2 matches .exited then some (.drain, s) else none
  | .drain => some (.joinPending s.pending, { s with pending := [] })
  | .joinPending [] => some (.clear, s)
  | .joinPending (call :: calls) =>
    if elapsed ∨ (s.reply call).isSome then some (.joinPending calls, s) else none
  | .clear => some (.readTest, { s with stopped := false })
  | .readTest => some (if elapsed ∨ s.stopped then .ended else .readNode, s)
  | .readNode => match client.dbNodes[s.nodeIndex % client.dbNodes.length]? with
    | some node => some (.readInvoke node, { s with nodeIndex := s.nodeIndex + 1 })
    | none => some (.ended, s)
  | .readInvoke node => some (.readStart node, s.logEvent clock "invoke" "read" [("node", .str node)])
  | .readStart node => some (.readAwait node s.calls.length, s.call (.read node))
  | .readAwait node call =>
    if elapsed then some (.readComplete node .timedOut, s.abandon call)
    else match s.reply call with
      | some (.returned values) =>
        some (.readComplete node (wrapper client (.returned values)).outcome, s.happens (.reads values))
      | some (.raised exc) => some (.readComplete node (wrapper client (.raised exc)).outcome, s)
      | none => none
  | .readComplete node outcome =>
    let (eventType, fields) := readCompletion client node outcome
    some (.readPause, s.logEvent clock eventType "read" fields)
  | .readPause => if elapsed then some (.readTest, s) else if s.stopped then some (.ended, s) else none
  | .ended => none

/-! ## The machine -/

inductive Move (ε : Type)
  | writer (i : Nat) (clock : Clock) (elapsed : Bool)
  | main (clock : Clock) (elapsed : Bool)
  /-- the thread of a call ends -/
  | ends (call : Nat) (reply : Reply ε)
  /-- `stop()` -/
  | stop

/-- The machine after a move, if the move is possible. -/
def step (client : DatabaseClient ε) (s : State ε) : Move ε → Option (State ε)
  | .writer i clock elapsed => do
    let (node, w) ← s.writers[i]?
    let (w, s) ← stepWriter client node clock elapsed s w
    return { s with writers := s.writers.set i (node, w) }
  | .main clock elapsed => do
    let (main, s) ← stepMain client clock elapsed s s.main
    return { s with main }
  | .ends call reply => s.ends call reply
  | .stop => some { s with stopped := true }

def run (client : DatabaseClient ε) (s : State ε) (moves : List (Move ε)) : Option (State ε) :=
  moves.foldlM (step client) s

end LoadGenerator

end FaultStorm
