import FaultStorm.LoadGenerator.Protocol

/-!
# The stop event ends a phase

Once the stop event is set, every move but another `stop()` brings the phase closer to its end:
each thread has only so many steps to its end, and each call ends once. `rank` counts them.
-/

namespace FaultStorm.LoadGenerator

open Python

variable {ε : Type} {client : DatabaseClient ε} {s t : State ε}

/-- The steps that a writer has at most before it sees the stop event, and what they start. -/
def Writer.rank : Writer ε → Nat
  | .exited => 0
  | .test => 1
  | .pause => 2
  | .complete _ _ => 3
  | .await _ _ => 5
  | .start _ => 7
  | .invoke _ => 8
  | .next => 9

/-- The same of the main thread, in either phase. -/
def Main.rank : Main ε → Nat
  | .spawn nodes => 2 * nodes.length + 6
  | .wait => 5
  | .join => 4
  | .drain => 3
  | .joinPending calls => calls.length + 2
  | .clear => 1
  | .readNode => 9
  | .readInvoke _ => 8
  | .readStart _ => 7
  | .readAwait _ _ => 5
  | .readComplete _ _ => 3
  | .readPause => 2
  | .readTest => 1
  | .ended => 0

def writersRank (writers : List (String × Writer ε)) : Nat := (writers.map fun w => w.2.rank).sum

/-- The calls that have not ended. -/
def openCalls (calls : List (Call ε)) : Nat := calls.countP (·.reply.isNone)

def rank (s : State ε) : Nat := writersRank s.writers + openCalls s.calls + s.pending.length + s.main.rank

/-- The phase of the state is over. -/
def Left (s t : State ε) : Prop := if s.main.returned then t.main = .ended else t.main.returned = true

def Move.isStop : Move ε → Bool
  | .stop => true
  | _ => false

section Rank

theorem writersRank_set {writers : List (String × Writer ε)} {i : Nat} {node : String} {old new : Writer ε}
    (found : writers[i]? = some (node, old)) :
    writersRank (writers.set i (node, new)) + old.rank = writersRank writers + new.rank := by
  induction writers generalizing i with
  | nil => cases found
  | cons w writers ih =>
    cases i with
    | zero =>
      cases found
      simp only [writersRank, List.set_cons_zero, List.map_cons, List.sum_cons]
      omega
    | succ i =>
      have rest := ih found
      simp only [writersRank, List.set_cons_succ, List.map_cons, List.sum_cons] at rest ⊢
      omega

theorem openCalls_call (request : Request) : openCalls (s.call request).calls = openCalls s.calls + 1 := by
  simp [openCalls, State.call]

/-- A call that ends is open no more. -/
theorem rank_ends {call : Nat} {reply : Reply ε} (moved : s.ends call reply = some t) : rank t + 1 = rank s := by
  rw [State.ends] at moved
  split at moved
  · rename_i request found
    cases moved
    obtain ⟨inside, here⟩ := List.getElem?_eq_some_iff.mp found
    have opened : 0 < openCalls s.calls := by
      rw [openCalls, List.countP_pos_iff]
      exact ⟨_, List.mem_of_getElem? found, rfl⟩
    have closed : openCalls (s.calls.set call ⟨request, some reply⟩) = openCalls s.calls - 1 := by
      rw [openCalls, List.countP_set inside, here]
      rfl
    simp only [rank, closed]
    omega
  · cases moved

/-- A writer's step takes it closer to its end, unless it takes its next value. -/
theorem rank_writer {i : Nat} {node : String} {old new : Writer ε} (stopped : s.stopped = true)
    (found : s.writers[i]? = some (node, old)) {clock : Clock} {elapsed : Bool}
    (moved : stepWriter client node clock elapsed s old = some (new, t)) :
    rank { t with writers := t.writers.set i (node, new) } + 1 ≤ rank s := by
  have frame := (writerStep moved).frame
  have sum : writersRank (s.writers.set i (node, new)) + old.rank = writersRank s.writers + new.rank := writersRank_set found
  have close : openCalls t.calls + t.pending.length + new.rank + 1 ≤ openCalls s.calls + s.pending.length + old.rank := by
    cases old with
    | test =>
      rw [stepWriter, if_pos stopped] at moved
      cases moved
      exact Nat.le_refl _
    | next =>
      cases moved
      exact Nat.le_refl _
    | invoke value =>
      cases moved
      exact Nat.le_refl _
    | start value =>
      cases moved
      rw [openCalls_call]
      simp only [State.call, Writer.rank]
      omega
    | await value call =>
      rw [stepWriter] at moved
      split at moved
      · cases moved
        simp only [State.abandon, List.length_append, List.length_singleton, Writer.rank]
        omega
      · split at moved
        · cases moved
          simp only [State.happens, Writer.rank]
          omega
        · cases moved
          simp only [Writer.rank]
          omega
        · cases moved
    | complete value outcome =>
      rw [stepWriter] at moved
      split at moved
      · cases moved
        exact Nat.le_refl _
      · cases moved
        simp only [Writer.rank]
        omega
    | pause =>
      rw [stepWriter, if_pos stopped] at moved
      split at moved
      · cases moved
        exact Nat.le_refl _
      · cases moved
        simp only [Writer.rank]
        omega
    | exited => cases moved
  show writersRank (t.writers.set i (node, new)) + openCalls t.calls + t.pending.length + t.main.rank + 1 ≤ rank s
  rw [frame.1, frame.2, rank]
  omega

/-- The main thread's step takes it closer to the end of its phase, or there. -/
theorem rank_main {clock : Clock} {elapsed : Bool} {main : Main ε} (stopped : s.stopped = true)
    (moved : MainMove client clock elapsed s s.main main t) :
    Left s { t with main } ∨ (t.stopped = true ∧ main.returned = s.main.returned) ∧ rank { t with main } + 1 ≤ rank s := by
  have closer : t.stopped = true → main.returned = s.main.returned →
      writersRank t.writers + openCalls t.calls + t.pending.length + main.rank + 1 ≤
        writersRank s.writers + openCalls s.calls + s.pending.length + s.main.rank →
      Left s { t with main } ∨ (t.stopped = true ∧ main.returned = s.main.returned) ∧ rank { t with main } + 1 ≤ rank s :=
    fun stop phase less => Or.inr ⟨⟨stop, phase⟩, less⟩
  generalize here : s.main = old at moved closer
  cases moved with
  | spawns =>
    refine closer stopped rfl ?_
    simp only [writersRank, List.map_append, List.map_singleton, List.sum_append, List.sum_singleton, Writer.rank,
      Main.rank, List.length_cons]
    omega
  | stops due => exact closer rfl rfl (Nat.le_refl _)
  | takesOver =>
    refine closer stopped rfl ?_
    simp only [Main.rank, List.length_nil]
    omega
  | clears =>
    refine Or.inl ?_
    rw [Left, here]
    rfl
  | reads on => exact absurd (Or.inr stopped) on
  | noNode none =>
    refine closer stopped rfl ?_
    simp only [Main.rank]
    omega
  | starts =>
    refine closer stopped rfl ?_
    rw [openCalls_call]
    simp only [State.call, Main.rank]
    omega
  | expires late =>
    refine closer stopped rfl ?_
    simp only [State.abandon, List.length_append, List.length_singleton, Main.rank]
    omega
  | returns replied =>
    refine closer stopped rfl ?_
    simp only [State.happens, Main.rank]
    omega
  | raises replied =>
    refine closer stopped rfl ?_
    simp only [Main.rank]
    omega
  | quits due =>
    refine closer stopped rfl ?_
    simp only [Main.rank]
    omega
  | _ => exact closer stopped rfl (Nat.le_refl _)

end Rank

/-! ## Every move -/

section Moves

variable {origin : State ε} {m : Move ε}

theorem Left.congr (left : Left origin s) (same : t.main = s.main) : Left origin t := by
  unfold Left at left ⊢
  rw [same]
  exact left

/-- `run_write_phase` has returned for good. -/
theorem returned_main {clock : Clock} {elapsed : Bool} {old main : Main ε} (returned : old.returned = true)
    (moved : MainMove client clock elapsed s old main t) : main.returned = true := by
  cases moved <;> first | rfl | cases returned

/-- A phase that is over stays so. -/
theorem step_left (moved : step client s m = some t) (left : Left origin s) : Left origin t := by
  cases m with
  | writer i clock elapsed =>
    obtain ⟨node, old, new, u, found, goes, rfl⟩ := step_writer moved
    exact left.congr (writerStep goes).frame.2
  | main clock elapsed =>
    obtain ⟨main, u, goes, rfl⟩ := step_main moved
    unfold Left at left ⊢
    split
    · rename_i phase
      rw [if_pos phase] at left
      rw [left] at goes
      cases goes
    · rename_i phase
      rw [if_neg phase] at left
      exact returned_main left (mainMove goes)
  | ends call reply =>
    refine left.congr ?_
    rw [step, State.ends] at moved
    split at moved <;> cases moved
    rfl
  | stop =>
    cases moved
    exact left

/-- The stop event is set, and the phase is still that of the origin. -/
def Stopping (origin s : State ε) : Prop := s.stopped = true ∧ s.main.returned = origin.main.returned

/-- A move of a phase that is stopping. -/
theorem step_stopping (moved : step client s m = some t) (stopping : Stopping origin s) :
    Left origin t ∨ Stopping origin t ∧ rank t + (if ! m.isStop then 1 else 0) ≤ rank s := by
  obtain ⟨stopped, phase⟩ := stopping
  cases m with
  | writer i clock elapsed =>
    obtain ⟨node, old, new, u, found, goes, rfl⟩ := step_writer moved
    have main := (writerStep goes).frame.2
    refine Or.inr ⟨⟨?_, main ▸ phase⟩, rank_writer stopped found goes⟩
    have same : u.stopped = s.stopped := by
      cases writerStep goes <;> rfl
    exact same.trans stopped
  | main clock elapsed =>
    obtain ⟨main, u, goes, rfl⟩ := step_main moved
    rcases rank_main stopped (mainMove goes) with left | ⟨⟨still, same⟩, lower⟩
    · refine Or.inl ?_
      unfold Left at left ⊢
      rw [← phase]
      exact left
    · exact Or.inr ⟨⟨still, same.trans phase⟩, lower⟩
  | ends call reply =>
    have lower := rank_ends moved
    refine Or.inr ⟨?_, lower.le⟩
    rw [step, State.ends] at moved
    split at moved <;> cases moved
    exact ⟨stopped, phase⟩
  | stop =>
    cases moved
    exact Or.inr ⟨⟨rfl, phase⟩, Nat.le_refl _⟩

/-- A writer whose wait has run out goes on, wherever it is. -/
theorem exists_stepWriter {w : Writer ε} (running : w ≠ .exited) (node : String) (clock : Clock) (s : State ε) :
    ∃ r, stepWriter client node clock true s w = some r := by
  cases w with
  | complete value outcome =>
    rw [stepWriter]
    split <;> exact ⟨_, rfl⟩
  | exited => exact absurd rfl running
  | _ => exact ⟨_, rfl⟩

/-- Before the end there is always a move. -/
theorem exists_step (unended : s.main ≠ .ended) : ∃ m t, m.isStop = false ∧ step client s m = some t := by
  have main : ∀ {r}, stepMain client still true s s.main = some r → ∃ m t, m.isStop = false ∧ step client s m = some t := by
    intro r goes
    refine ⟨.main still true, { r.2 with main := r.1 }, rfl, ?_⟩
    rw [step, goes]
    rfl
  by_cases waits : s.main = .join ∧ ∃ w ∈ s.writers, w.2 ≠ .exited
  · obtain ⟨-, ⟨node, w⟩, member, running⟩ := waits
    obtain ⟨i, found⟩ := List.mem_iff_getElem?.mp member
    obtain ⟨r, goes⟩ := @exists_stepWriter _ client _ running node still s
    refine ⟨.writer i still true, { r.2 with writers := r.2.writers.set i (node, r.1) }, rfl, ?_⟩
    rw [step, found]
    simp only [goes, bind, Option.bind_some, pure]
  · suffices moves : ∃ r, stepMain client still true s s.main = some r by
      obtain ⟨r, goes⟩ := moves
      exact main goes
    cases here : s.main with
    | spawn nodes => cases nodes <;> exact ⟨_, rfl⟩
    | join =>
      refine ⟨_, if_pos fun w member => ?_⟩
      have done : w.2 = .exited := by
        by_contra running
        exact waits ⟨here, w, member, running⟩
      rw [done]
    | joinPending calls => cases calls <;> exact ⟨_, rfl⟩
    | readNode =>
      rw [stepMain]
      split <;> exact ⟨_, rfl⟩
    | ended => exact absurd here unended
    | _ => exact ⟨_, rfl⟩

end Moves

/-- Once the stop event is set there is always a move until the phase is over, and it is over after at
most `rank` moves of the threads, in whatever order they come and however the calls end. -/
theorem stop_ends_phase (stopped : s.stopped = true) (unended : s.main ≠ .ended) :
    (∃ m t, m.isStop = false ∧ step client s m = some t) ∧
      ∀ moves t, run client s moves = some t → rank s < moves.countP (! ·.isStop) → Left s t := by
  refine ⟨exists_step unended, fun moves t ran long => ?_⟩
  have ends := Trace.run_rank (Stopping s) (Left s) rank (! ·.isStop)
    (fun _ _ _ moved stopping => step_stopping moved stopping) (fun _ _ _ moved left => step_left moved left) ran
    ⟨stopped, rfl⟩
  rcases ends with left | ⟨-, bound⟩
  · exact left
  · omega

/-- A write phase that is stopped while its two writers wait for their calls. -/
theorem inFlight_ends : ∃ s, run pgPair (start pgPair 1) (inFlight ++ [.stop]) = some s ∧
    s.calls = [⟨.add "pg1" 1, none⟩, ⟨.add "pg2" 2, none⟩] ∧ rank s = 17 ∧
    (∃ m t, m.isStop = false ∧ step pgPair s m = some t) ∧
      ∀ moves t, run pgPair s moves = some t → 17 < moves.countP (! ·.isStop) → t.main.returned = true := by
  have facts : (run pgPair (start pgPair 1) (inFlight ++ [.stop])).map
      (fun s => (s.calls, rank s, s.stopped, s.main.returned)) =
        some ([⟨.add "pg1" 1, none⟩, ⟨.add "pg2" 2, none⟩], 17, true, false) := by
    decide +kernel
  obtain ⟨s, ran, same⟩ := Option.map_eq_some_iff.mp facts
  simp only [Prod.mk.injEq] at same
  obtain ⟨calls, bound, stopped, writing⟩ := same
  have unended : s.main ≠ .ended := by
    intro ended
    rw [ended] at writing
    cases writing
  obtain ⟨moves, ends⟩ := @stop_ends_phase _ pgPair s stopped unended
  refine ⟨s, ran, calls, bound, moves, fun more t went long => ?_⟩
  have left := ends more t went (bound ▸ long)
  rw [Left, writing] at left
  exact left

end FaultStorm.LoadGenerator
