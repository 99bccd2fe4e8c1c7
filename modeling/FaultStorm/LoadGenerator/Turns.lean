import FaultStorm.LoadGenerator.Logged
import FaultStorm.LoadGenerator.Protocol

/-!
# The reads, in turn

The lines about reads follow those about adds. The reader asks one node after the other, and round
again: it logs INVOKE, starts a call, and logs what came of that call before it goes on to the next
node.
-/

namespace FaultStorm.LoadGenerator

open Python Checker

variable {ε : Type} {client : DatabaseClient ε}

/-- The node of the `i`-th read. -/
def turn (client : DatabaseClient ε) (i : Nat) : Option String := client.dbNodes[i % client.dbNodes.length]?

/-- What the reader takes from the call of its read: that the wait ran out, or how the call ended. -/
def Came (client : DatabaseClient ε) (call : Option (Call ε)) (node : String) (outcome : Outcome ε) : Prop :=
  outcome = .timedOut ∨ ∃ reply, call = some ⟨.read node, some reply⟩ ∧ outcome = (wrapper client reply).outcome

/-- These are the calls of the reads and the lines about them, two for each. -/
structure InTurn (client : DatabaseClient ε) (gets : List (Call ε)) (reads : List Json) : Prop where
  asks : ∀ i e, reads[2 * i]? = some e →
    ∃ clock node, turn client i = some node ∧ e = event clock "invoke" "read" [("node", .str node)]
  answers : ∀ i e, reads[2 * i + 1]? = some e → ∃ clock node outcome, turn client i = some node ∧
    Came client gets[i]? node outcome ∧
      e = event clock (readCompletion client node outcome).1 "read" (readCompletion client node outcome).2
  calls : ∀ i call, gets[i]? = some call → ∃ node, turn client i = some node ∧ call.request = .read node

section InTurn

variable {gets : List (Call ε)} {reads : List Json} {node : String}

theorem InTurn.nil : InTurn client [] [] := ⟨nofun, nofun, nofun⟩

theorem InTurn.ask (h : InTurn client gets reads) {k : Nat} (even : reads.length = 2 * k) (mine : turn client k = some node)
    (clock : Clock) : InTurn client gets (reads ++ [event clock "invoke" "read" [("node", .str node)]]) := by
  constructor
  · intro i e found
    rcases Trace.getElem?_append_singleton found with before | ⟨last, rfl⟩
    · exact h.asks i e before
    · have same : i = k := by omega
      exact ⟨clock, node, same ▸ mine, rfl⟩
  · intro i e found
    rcases Trace.getElem?_append_singleton found with before | ⟨last, -⟩
    · exact h.answers i e before
    · omega
  · exact h.calls

theorem InTurn.answer (h : InTurn client gets reads) {k : Nat} {outcome : Outcome ε} (odd : reads.length = 2 * k + 1)
    (mine : turn client k = some node) (came : Came client gets[k]? node outcome) (clock : Clock) :
    InTurn client gets
      (reads ++ [event clock (readCompletion client node outcome).1 "read" (readCompletion client node outcome).2]) := by
  constructor
  · intro i e found
    rcases Trace.getElem?_append_singleton found with before | ⟨last, -⟩
    · exact h.asks i e before
    · omega
  · intro i e found
    rcases Trace.getElem?_append_singleton found with before | ⟨last, rfl⟩
    · exact h.answers i e before
    · have same : i = k := by omega
      subst same
      exact ⟨clock, node, outcome, mine, came, rfl⟩
  · exact h.calls

/-- What came of a call is not forgotten when more calls are made. -/
theorem Came.append {i : Nat} {outcome : Outcome ε} (came : Came client gets[i]? node outcome) (more : List (Call ε)) :
    Came client (gets ++ more)[i]? node outcome := by
  rcases came with late | ⟨reply, found, rfl⟩
  · exact Or.inl late
  · refine Or.inr ⟨reply, ?_, rfl⟩
    rw [List.getElem?_append_left (List.getElem?_eq_some_iff.mp found).1, found]

/-- Nor when another call ends. -/
theorem Came.set {i j : Nat} {outcome : Outcome ε} {request : Request} {call : Call ε}
    (came : Came client gets[i]? node outcome) (running : gets[j]? = some ⟨request, none⟩) :
    Came client (gets.set j call)[i]? node outcome := by
  rcases came with late | ⟨reply, found, rfl⟩
  · exact Or.inl late
  · refine Or.inr ⟨reply, ?_, rfl⟩
    rw [List.getElem?_set_ne, found]
    rintro rfl
    rw [running] at found
    cases found

theorem InTurn.start (h : InTurn client gets reads) (mine : turn client gets.length = some node) :
    InTurn client (gets ++ [⟨.read node, none⟩]) reads := by
  constructor
  · exact h.asks
  · intro i e found
    obtain ⟨clock, node', outcome, there, came, shape⟩ := h.answers i e found
    exact ⟨clock, node', outcome, there, came.append _, shape⟩
  · intro i call found
    rcases Trace.getElem?_append_singleton found with before | ⟨rfl, rfl⟩
    · exact h.calls i call before
    · exact ⟨node, mine, rfl⟩

theorem InTurn.ends (h : InTurn client gets reads) {j : Nat} {request : Request} {reply : Reply ε}
    (running : gets[j]? = some ⟨request, none⟩) : InTurn client (gets.set j ⟨request, some reply⟩) reads := by
  constructor
  · exact h.asks
  · intro i e found
    obtain ⟨clock, node', outcome, there, came, shape⟩ := h.answers i e found
    exact ⟨clock, node', outcome, there, came.set running, shape⟩
  · intro i call found
    rcases getElem?_set_cases found with ⟨rfl, rfl⟩ | ⟨-, before⟩
    · have same := h.calls _ _ running
      exact same
    · exact h.calls i call before

end InTurn

/-- Where the read in hand stands, after `nodeIndex` nodes were taken. -/
def Hand (client : DatabaseClient ε) (nodeIndex : Nat) (adds gets : List (Call ε)) (reads : List Json) : Main ε → Prop
  | .readInvoke node =>
    nodeIndex = gets.length + 1 ∧ reads.length = 2 * gets.length ∧ turn client gets.length = some node
  | .readStart node =>
    nodeIndex = gets.length + 1 ∧ reads.length = 2 * gets.length + 1 ∧ turn client gets.length = some node
  | .readAwait node call => ∃ k, gets.length = k + 1 ∧ nodeIndex = k + 1 ∧ reads.length = 2 * k + 1 ∧
    turn client k = some node ∧ call = adds.length + k
  | .readComplete node outcome => ∃ k, gets.length = k + 1 ∧ nodeIndex = k + 1 ∧ reads.length = 2 * k + 1 ∧
    turn client k = some node ∧ Came client gets[k]? node outcome
  | _ => nodeIndex = gets.length ∧ reads.length = 2 * gets.length

/-- The log and the calls, split where the reads begin. -/
structure Turns (client : DatabaseClient ε) (s : State ε) (writes reads : List Json) (adds gets : List (Call ε)) : Prop where
  log : s.log = writes ++ reads
  calls : s.calls = adds ++ gets
  written : ∀ e ∈ writes, isAdd e = true
  added : ∀ call ∈ adds, ∃ node value, call.request = .add node value
  inTurn : InTurn client gets reads
  hand : Hand client s.nodeIndex adds gets reads s.main
  early : s.main.joined = false → reads = [] ∧ gets = []
  joined : s.main.joined = true → ∀ w ∈ s.writers, w.2 = .exited

def TurnsOf (client : DatabaseClient ε) (s : State ε) : Prop :=
  ∃ writes reads adds gets, Turns client s writes reads adds gets

section Step

variable {s t : State ε} {writes reads : List Json} {adds gets : List (Call ε)}

theorem isAdd_event {clock : Clock} {eventType : String} {fields : List (String × Json)} (apart : Apart fields) :
    isAdd (event clock eventType "add" fields) = true := by
  rw [event_eq, isAdd, isText_action apart]
  rfl

theorem WriterStep.nodeIndex {node : String} {old new : Writer ε} (moved : WriterStep client node s old new t) :
    t.nodeIndex = s.nodeIndex := by
  cases moved <;> rfl

/-- A writer adds to the log and the calls before the reads begin. -/
theorem Turns.writer {i : Nat} {node : String} {old new : Writer ε} (h : Turns client s writes reads adds gets)
    (found : s.writers[i]? = some (node, old)) (moved : WriterStep client node s old new t) :
    TurnsOf client { t with writers := t.writers.set i (node, new) } := by
  have unjoined : s.main.joined = false := by
    rw [← Bool.not_eq_true]
    intro joined
    exact moved.running (h.joined joined _ (List.mem_of_getElem? found))
  obtain ⟨rfl, rfl⟩ := h.early unjoined
  have grows : ∀ (log : List Json) (calls : List (Call ε)), t.log = s.log ++ log → t.calls = s.calls ++ calls →
      (∀ e ∈ log, isAdd e = true) → (∀ call ∈ calls, ∃ node value, call.request = .add node value) →
      TurnsOf client { t with writers := t.writers.set i (node, new) } := by
    intro log calls logs starts isAdds areAdds
    refine ⟨writes ++ log, [], adds ++ calls, [], ?_, ?_, ?_, ?_, .nil, ?_, fun _ => ⟨rfl, rfl⟩, ?_⟩
    · show t.log = _
      rw [logs, h.log, List.append_nil, List.append_nil]
    · show t.calls = _
      rw [starts, h.calls, List.append_nil, List.append_nil]
    · intro e member
      exact (List.mem_append.mp member).elim (h.written e) (isAdds e)
    · intro call member
      exact (List.mem_append.mp member).elim (h.added call) (areAdds call)
    · have hand := h.hand
      show Hand client t.nodeIndex (adds ++ calls) [] [] t.main
      rw [moved.nodeIndex, moved.frame.2]
      cases here : s.main <;> rw [here] at unjoined hand <;> first | exact hand | cases unjoined
    · intro joined
      change t.main.joined = true at joined
      rw [moved.frame.2, unjoined] at joined
      cases joined
  have logs : ∀ {clock : Clock} {eventType : String} {fields : List (String × Json)}, Apart fields →
      t = s.logEvent clock eventType "add" fields → TurnsOf client { t with writers := t.writers.set i (node, new) } := by
    intro clock eventType fields apart same
    refine grows [event clock eventType "add" fields] [] ?_ ?_ ?_ ?_
    · rw [same]
      rfl
    · rw [same]
      exact (List.append_nil _).symm
    · intro e member
      rw [List.mem_singleton.mp member]
      exact isAdd_event apart
    · exact List.forall_mem_nil _
  have idles : t.log = s.log → t.calls = s.calls → TurnsOf client { t with writers := t.writers.set i (node, new) } := by
    intro log calls
    refine grows [] [] ?_ ?_ (List.forall_mem_nil _) (List.forall_mem_nil _)
    · rw [log, List.append_nil]
    · rw [calls, List.append_nil]
  cases moved with
  | invokes clock => exact logs apart_addFields rfl
  | completes clock completes => exact logs (completion_fields completes).1 rfl
  | @starts value =>
    refine grows [] [⟨.add node value, none⟩] (List.append_nil _).symm rfl (List.forall_mem_nil _) ?_
    intro call member
    rw [List.mem_singleton.mp member]
    exact ⟨node, value, rfl⟩
  | _ => exact idles rfl rfl

/-- The log, the calls and the nodes taken are left alone, between two reads. -/
theorem Turns.idle {old main : Main ε} (h : Turns client s writes reads adds gets) (here : s.main = old)
    (log : t.log = s.log) (calls : t.calls = s.calls) (nodeIndex : t.nodeIndex = s.nodeIndex)
    (hand : Hand client s.nodeIndex adds gets reads old → Hand client s.nodeIndex adds gets reads main)
    (early : main.joined = false → old.joined = false) (joined : main.joined = true → ∀ w ∈ t.writers, w.2 = .exited) :
    TurnsOf client { t with main } := by
  subst here
  refine ⟨writes, reads, adds, gets, log.trans h.log, calls.trans h.calls, h.written, h.added, h.inTurn, ?_, ?_, joined⟩
  · show Hand client t.nodeIndex adds gets reads main
    rw [nodeIndex]
    exact hand h.hand
  · exact fun unjoined => h.early (early unjoined)

/-- The reader logs a line. -/
theorem Turns.logs {clock : Clock} {eventType : String} {fields : List (String × Json)} {main : Main ε}
    (h : Turns client s writes reads adds gets) (joined : s.main.joined = true) (after : main.joined = true)
    (inTurn : InTurn client gets (reads ++ [event clock eventType "read" fields]))
    (hand : Hand client s.nodeIndex adds gets (reads ++ [event clock eventType "read" fields]) main) :
    TurnsOf client { s.logEvent clock eventType "read" fields with main } := by
  refine ⟨writes, _, adds, gets, ?_, h.calls, h.written, h.added, inTurn, hand, ?_, fun _ => h.joined joined⟩
  · show s.log ++ _ = _
    rw [h.log, List.append_assoc]
  · intro unjoined
    change main.joined = false at unjoined
    rw [after] at unjoined
    cases unjoined

/-- The reader takes what came of its read. -/
theorem Turns.takes {node : String} {call : Nat} {outcome : Outcome ε} (h : Turns client s writes reads adds gets)
    (here : s.main = .readAwait node call) (log : t.log = s.log) (calls : t.calls = s.calls)
    (nodeIndex : t.nodeIndex = s.nodeIndex) (writers : t.writers = s.writers)
    (came : outcome = .timedOut ∨ ∃ reply, s.reply call = some reply ∧ outcome = (wrapper client reply).outcome) :
    TurnsOf client { t with main := .readComplete node outcome } := by
  have joined : ∀ w ∈ t.writers, w.2 = .exited := by
    rw [writers]
    exact h.joined (by rw [here]; rfl)
  refine h.idle here log calls nodeIndex ?_ (fun unjoined => by cases unjoined) fun _ => joined
  rintro ⟨k, length, index, odd, mine, rfl⟩
  refine ⟨k, length, index, odd, mine, ?_⟩
  rcases came with late | ⟨reply, replied, rfl⟩
  · exact Or.inl late
  refine Or.inr ⟨reply, ?_, rfl⟩
  have inside : k < gets.length := by omega
  obtain ⟨asked, turned, request⟩ := h.inTurn.calls k _ (List.getElem?_eq_getElem inside)
  rw [mine] at turned
  cases turned
  rw [State.reply, h.calls, List.getElem?_append_right (Nat.le_add_right _ _), Nat.add_sub_cancel_left,
    List.getElem?_eq_getElem inside, Option.bind_some] at replied
  rw [List.getElem?_eq_getElem inside, ← request, ← replied]

theorem Turns.main {clock : Clock} {elapsed : Bool} {main : Main ε} (h : Turns client s writes reads adds gets)
    (moved : MainMove client clock elapsed s s.main main t) : TurnsOf client { t with main } := by
  have hand := h.hand
  have quiet : ∀ {old : Main ε}, s.main = old → old.joined = true → main.joined = true → t = s →
      (Hand client s.nodeIndex adds gets reads old → Hand client s.nodeIndex adds gets reads main) →
      TurnsOf client { t with main } := by
    intro old here joined after same hand
    subst here same
    refine h.idle rfl rfl rfl rfl hand (fun unjoined => ?_) fun _ => h.joined joined
    rw [after] at unjoined
    cases unjoined
  generalize here : s.main = old at moved hand
  cases moved with
  | spawned => exact h.idle here rfl rfl rfl id (fun _ => rfl) fun joined => by cases joined
  | spawns => exact h.idle here rfl rfl rfl id (fun _ => rfl) fun joined => by cases joined
  | stops due => exact h.idle here rfl rfl rfl id (fun _ => rfl) fun joined => by cases joined
  | joins exited => exact h.idle here rfl rfl rfl id (fun unjoined => by cases unjoined) fun _ => exited
  | takesOver =>
    exact h.idle here rfl rfl rfl id (fun unjoined => by cases unjoined) fun _ => h.joined (by rw [here]; rfl)
  | drained => exact quiet here rfl rfl rfl id
  | drains due => exact quiet here rfl rfl rfl id
  | clears =>
    exact h.idle here rfl rfl rfl id (fun unjoined => by cases unjoined) fun _ => h.joined (by rw [here]; rfl)
  | ends due => exact quiet here rfl rfl rfl id
  | reads on => exact quiet here rfl rfl rfl id
  | takesNode mine =>
    obtain ⟨index, even⟩ := hand
    refine ⟨writes, reads, adds, gets, h.log, h.calls, h.written, h.added, h.inTurn, ⟨congrArg (· + 1) index, even, ?_⟩,
      (fun unjoined => by cases unjoined), fun _ => h.joined (by rw [here]; rfl)⟩
    rw [turn, ← index]
    exact mine
  | noNode none => exact quiet here rfl rfl rfl id
  | invokes =>
    obtain ⟨index, even, mine⟩ := hand
    refine h.logs (by rw [here]; rfl) rfl (h.inTurn.ask even mine clock) ⟨index, ?_, mine⟩
    rw [List.length_append, even]
    rfl
  | @starts node =>
    obtain ⟨index, odd, mine⟩ := hand
    refine ⟨writes, reads, adds, gets ++ [⟨.read node, none⟩], h.log, ?_, h.written, h.added, h.inTurn.start mine,
      ⟨gets.length, List.length_append, index, odd, mine, ?_⟩, (fun unjoined => by cases unjoined),
      fun _ => h.joined (by rw [here]; rfl)⟩
    · show s.calls ++ _ = _
      rw [h.calls, List.append_assoc]
    · rw [h.calls, List.length_append]
  | expires late => exact h.takes here rfl rfl rfl rfl (Or.inl rfl)
  | returns replied => exact h.takes here rfl rfl rfl rfl (Or.inr ⟨_, replied, rfl⟩)
  | raises replied => exact h.takes here rfl rfl rfl rfl (Or.inr ⟨_, replied, rfl⟩)
  | completes =>
    obtain ⟨k, length, index, odd, mine, came⟩ := hand
    refine h.logs (by rw [here]; rfl) rfl (h.inTurn.answer odd mine came clock) ⟨index.trans length.symm, ?_⟩
    rw [List.length_append, odd, length]
    rfl
  | rested late => exact quiet here rfl rfl rfl id
  | quits stopped => exact quiet here rfl rfl rfl id

/-- A call that ends keeps its place. -/
theorem Turns.ends {call : Nat} {reply : Reply ε} (h : Turns client s writes reads adds gets)
    (moved : s.ends call reply = some t) : TurnsOf client t := by
  unfold State.ends at moved
  split at moved
  · rename_i request found
    cases moved
    by_cases before : call < adds.length
    · have split : s.calls.set call ⟨request, some reply⟩ = adds.set call ⟨request, some reply⟩ ++ gets := by
        rw [h.calls, List.set_append_left _ _ before]
      refine ⟨writes, reads, _, gets, h.log, split, h.written, ?_, h.inTurn, ?_, h.early, h.joined⟩
      · intro c member
        rcases List.mem_or_eq_of_mem_set member with old | rfl
        · exact h.added c old
        · rw [h.calls, List.getElem?_append_left before] at found
          have same := h.added _ (List.mem_of_getElem? found)
          exact same
      · have hand := h.hand
        show Hand client s.nodeIndex _ gets reads s.main
        cases here : s.main with
        | readAwait node c =>
          rw [here] at hand
          obtain ⟨k, length, index, odd, mine, place⟩ := hand
          exact ⟨k, length, index, odd, mine, by rw [List.length_set]; exact place⟩
        | _ =>
          rw [here] at hand
          exact hand
    · rw [Nat.not_lt] at before
      rw [h.calls, List.getElem?_append_right before] at found
      have split : s.calls.set call ⟨request, some reply⟩ =
          adds ++ gets.set (call - adds.length) ⟨request, some reply⟩ := by
        rw [h.calls, List.set_append_right _ _ before]
      refine ⟨writes, reads, adds, _, h.log, split, h.written, h.added, h.inTurn.ends found, ?_, ?_, h.joined⟩
      · have hand := h.hand
        show Hand client s.nodeIndex adds _ reads s.main
        cases here : s.main with
        | readComplete node outcome =>
          rw [here] at hand
          obtain ⟨k, length, index, odd, mine, came⟩ := hand
          exact ⟨k, (List.length_set).trans length, index, odd, mine, came.set found⟩
        | _ =>
          rw [here] at hand
          simpa only [Hand, List.length_set] using hand
      · intro unjoined
        obtain ⟨none, rfl⟩ := h.early unjoined
        exact ⟨none, rfl⟩
  · cases moved

/-- Each move keeps the order of the reads. -/
theorem step_turns (s : State ε) (m : Move ε) (t : State ε) (moved : step client s m = some t) :
    TurnsOf client s → TurnsOf client t := by
  rintro ⟨writes, reads, adds, gets, h⟩
  cases m with
  | writer i clock elapsed =>
    obtain ⟨node, old, new, u, found, goes, rfl⟩ := step_writer moved
    exact h.writer found (writerStep goes)
  | main clock elapsed =>
    obtain ⟨main, u, goes, rfl⟩ := step_main moved
    exact h.main (mainMove goes)
  | ends call reply => exact h.ends moved
  | stop =>
    cases moved
    exact ⟨writes, reads, adds, gets, h.log, h.calls, h.written, h.added, h.inTurn, h.hand, h.early, h.joined⟩

theorem TurnsOf.fresh (writersPerNode : Nat) : TurnsOf client (start client writersPerNode) :=
  ⟨[], [], [], [], rfl, rfl, List.forall_mem_nil _, List.forall_mem_nil _, .nil, ⟨rfl, rfl⟩, fun _ => ⟨rfl, rfl⟩,
    fun _ => List.forall_mem_nil _⟩

/-- At most the lines of the read in hand are missing. -/
theorem Hand.length {nodeIndex : Nat} {main : Main ε} (hand : Hand client nodeIndex adds gets reads main) :
    reads.length ≤ 2 * gets.length + 1 ∧ 2 * gets.length ≤ reads.length + 1 := by
  cases main with
  | readInvoke node => have even := hand.2.1; omega
  | readStart node => have odd := hand.2.1; omega
  | readAwait node call => obtain ⟨k, length, -, odd, -⟩ := hand; omega
  | readComplete node outcome => obtain ⟨k, length, -, odd, -⟩ := hand; omega
  | _ => have even := hand.2; omega

end Step

section Run

variable {t : State ε} {writersPerNode : Nat} {moves : List (Move ε)}

/-- In every run the log and the calls are those of the adds, and after them those of the reads. The
`i`-th read asks the nodes in turn; its two lines are INVOKE and what came of the `i`-th call. When the
phase is over no line is missing. -/
theorem readPhase_inTurn (ran : run client (start client writersPerNode) moves = some t) :
    ∃ writes reads adds gets, t.log = writes ++ reads ∧ t.calls = adds ++ gets ∧ (∀ e ∈ writes, isAdd e = true) ∧
      (∀ call ∈ adds, ∃ node value, call.request = .add node value) ∧ InTurn client gets reads ∧
      reads.length ≤ 2 * gets.length + 1 ∧ 2 * gets.length ≤ reads.length + 1 ∧
      (t.main = .ended → reads.length = 2 * gets.length) := by
  obtain ⟨writes, reads, adds, gets, h⟩ := Trace.run_invariant (TurnsOf client) step_turns ran (.fresh writersPerNode)
  obtain ⟨least, most⟩ := h.hand.length
  refine ⟨writes, reads, adds, gets, h.log, h.calls, h.written, h.added, h.inTurn, least, most, fun ended => ?_⟩
  have hand := h.hand
  rw [ended] at hand
  exact hand.2

/-- Two nodes, whose client raises nothing. -/
def twoNodes : DatabaseClient Empty := { oneNode with dbNodes := ["pg0", "pg1"] }

/-- Nothing is added. The first read is late, and the second returns. -/
def lateThenRead : List (Move Empty) :=
  [.main still false, .main still true] ++ List.replicate 8 (.main still false) ++
    [.main still true, .main still false, .main still true] ++ List.replicate 4 (.main still false) ++
    [.ends 1 (.returned ∅), .main still false, .main still false, .main still true, .main still true]

/-- The log is two lines of a read on `pg0` and two of one on `pg1`. -/
theorem lateThenRead_inTurn : ∃ t, run twoNodes (start twoNodes 0) lateThenRead = some t ∧ t.log.length = 4 ∧
    InTurn twoNodes t.calls t.log := by
  have facts : (run twoNodes (start twoNodes 0) lateThenRead).map
      (fun t => (t.log.length, t.log.all (!isAdd ·), t.calls.map Call.request)) = some (4, true, [.read "pg0", .read "pg1"]) := by
    decide +kernel
  obtain ⟨t, ran, same⟩ := Option.map_eq_some_iff.mp facts
  simp only [Prod.mk.injEq] at same
  obtain ⟨length, noAdd, requests⟩ := same
  obtain ⟨writes, reads, adds, gets, log, calls, written, added, inTurn, -⟩ := readPhase_inTurn ran
  have noWrite : writes = [] := by
    rw [List.eq_nil_iff_forall_not_mem]
    intro e member
    have none := List.all_eq_true.mp noAdd e (log ▸ List.mem_append_left _ member)
    rw [written e member] at none
    cases none
  have noCall : adds = [] := by
    rw [List.eq_nil_iff_forall_not_mem]
    intro call member
    obtain ⟨node, value, request⟩ := added call member
    have asked : call.request ∈ t.calls.map Call.request := List.mem_map_of_mem (calls ▸ List.mem_append_left _ member)
    rw [requests, request] at asked
    simp at asked
  refine ⟨t, ran, length, ?_⟩
  rw [log, calls, noWrite, noCall]
  exact inTurn

end Run

end FaultStorm.LoadGenerator
