import FaultStorm.LoadGenerator.Protocol

/-!
# What is left of the writes when the reads begin

A call whose caller stopped waiting goes on, and its write may land at any later time.
`drain_pending` joins the threads of these calls. So an add that still runs when the write phase
has returned is one for which a join has run out.
-/

namespace FaultStorm.LoadGenerator

open Python

variable {ε : Type} {client : DatabaseClient ε} {s t u : State ε} {moves : List (Move ε)} {c : Nat}

/-- The call is one of `add` that has not ended. -/
def Running (s : State ε) (c : Nat) : Prop := ∃ node value, s.calls[c]? = some ⟨.add node value, none⟩

/-- `drain_pending` waited for the call until the timeout of the join, and it had not ended. -/
def GivenUp (client : DatabaseClient ε) (start : State ε) (moves : List (Move ε)) (c : Nat) : Prop :=
  ∃ before clock after u calls, moves = before ++ .main clock true :: after ∧ run client start before = some u ∧
    u.main = .joinPending (c :: calls) ∧ u.reply c = none

theorem GivenUp.append {start : State ε} (h : GivenUp client start moves c) (m : Move ε) :
    GivenUp client start (moves ++ [m]) c := by
  obtain ⟨before, clock, after, u, calls, split, reached, here, silent⟩ := h
  refine ⟨before, clock, after ++ [m], u, calls, ?_, reached, here, silent⟩
  rw [split, List.append_assoc, List.cons_append]

/-- The main thread has not yet taken over the pending threads. -/
def Main.undrained : Main ε → Bool
  | .spawn _ | .wait | .join | .drain => true
  | _ => false

/-- The calls that `drain_pending` is still to join. -/
def Main.draining : Main ε → List Nat
  | .joinPending calls => calls
  | _ => []

theorem Main.settled {main : Main ε} (returned : main.returned = true) : main.undrained = false ∧ main.draining = [] := by
  cases main <;> first | exact ⟨rfl, rfl⟩ | cases returned

/-- Somebody waits, or will wait, for the call, or did until it was given up. -/
def Owed (given : Nat → Prop) (s : State ε) (c : Nat) : Prop :=
  (∃ w ∈ s.writers, ∃ value, w.2 = .await value c) ∨ (c ∈ s.pending ∧ s.main.undrained = true) ∨
    c ∈ s.main.draining ∨ given c

/-- Nothing is lost of the adds that run. -/
structure Accounted (given : Nat → Prop) (s : State ε) : Prop where
  owed : ∀ c, Running s c → Owed given s c
  joined : s.main.joined = true → ∀ w ∈ s.writers, w.2 = .exited

section Step

variable {given : Nat → Prop} {i : Nat} {node : String} {old new : Writer ε}

theorem Running.reply (h : Running s c) : s.reply c = none := by
  obtain ⟨node, value, found⟩ := h
  rw [State.reply, found]
  rfl

theorem Running.lt (h : Running s c) : c < s.calls.length := by
  obtain ⟨node, value, found⟩ := h
  exact (List.getElem?_eq_some_iff.mp found).1

/-- A call that is started is the only new one. -/
theorem Running.call {request : Request} (h : Running (s.call request) c) :
    Running s c ∨ c = s.calls.length ∧ ∃ node value, request = .add node value := by
  obtain ⟨node, value, found⟩ := h
  rcases Trace.getElem?_append_singleton found with old | ⟨rfl, same⟩
  · exact Or.inl ⟨node, value, old⟩
  · cases same
    exact Or.inr ⟨rfl, node, value, rfl⟩

/-- A writer that did not wait for the call, or has put it among the pending ones, goes on. -/
theorem Owed.set (h : Owed given s c) (found : s.writers[i]? = some (node, old)) (writers : t.writers = s.writers)
    (main : t.main = s.main) (pending : s.pending ⊆ t.pending)
    (awaited : ∀ value, old = .await value c → c ∈ t.pending ∧ s.main.undrained = true) :
    Owed given { t with writers := t.writers.set i (node, new) } c := by
  rcases h with waits | ⟨member, undrained⟩ | draining | given
  · obtain ⟨before, after⟩ := exists_mem_set found (node, new) fun w => ∃ value, w.2 = .await value c
    rcases before.mp waits with ⟨value, here⟩ | other
    · obtain ⟨member, undrained⟩ := awaited value here
      exact Or.inr (Or.inl ⟨member, main.symm ▸ undrained⟩)
    · refine Or.inl ?_
      show ∃ w ∈ t.writers.set i (node, new), _
      rw [writers]
      exact after.mpr (Or.inr other)
  · exact Or.inr (Or.inl ⟨pending member, main.symm ▸ undrained⟩)
  · exact Or.inr (Or.inr (Or.inl (main.symm ▸ draining)))
  · exact Or.inr (Or.inr (Or.inr given))

theorem Accounted.writer (h : Accounted given s) (found : s.writers[i]? = some (node, old))
    (moved : WriterStep client node s old new t) : Accounted given { t with writers := t.writers.set i (node, new) } := by
  obtain ⟨writers, main⟩ := moved.frame
  have unjoined : s.main.joined = false := by
    by_contra joined
    exact moved.running (h.joined (by simpa using joined) _ (List.mem_of_getElem? found))
  have undrained : s.main.undrained = true := by
    cases here : s.main <;> rw [here] at unjoined <;> first | rfl | cases unjoined
  have goes : ∀ c, Running s c → s.pending ⊆ t.pending → (∀ value, old = .await value c → c ∈ t.pending) →
      Owed given { t with writers := t.writers.set i (node, new) } c := fun c running pending awaited =>
    (h.owed c running).set found writers main pending fun value here => ⟨awaited value here, undrained⟩
  refine ⟨fun c running => ?_, fun joined => ?_⟩
  · cases moved with
    | idles before after => exact goes c running (List.Subset.refl _) (by rcases before with rfl | rfl <;> simp)
    | draws => exact goes c running (List.Subset.refl _) (by simp)
    | invokes clock => exact goes c running (List.Subset.refl _) (by simp)
    | starts =>
      rcases Running.call running with old | ⟨rfl, -⟩
      · exact goes c old (List.Subset.refl _) (by simp)
      · refine Or.inl ⟨_, List.mem_of_getElem? (List.getElem?_set_self ?_), _, rfl⟩
        exact (List.getElem?_eq_some_iff.mp found).1
    | expires =>
      refine goes c running (List.subset_append_left _ _) ?_
      rintro value ⟨⟩
      exact List.mem_append_right _ List.mem_cons_self
    | returns replied =>
      refine goes c running (List.Subset.refl _) ?_
      rintro value ⟨⟩
      exact absurd (running.reply.symm.trans replied) (Option.some_ne_none _).symm
    | raises replied =>
      refine goes c running (List.Subset.refl _) ?_
      rintro value ⟨⟩
      exact absurd (running.reply.symm.trans replied) (Option.some_ne_none _).symm
    | completes clock logs => exact goes c running (List.Subset.refl _) (by simp)
    | dies logs => exact goes c running (List.Subset.refl _) (by simp)
  · have same : t.main.joined = true := joined
    rw [main, unjoined] at same
    cases same

/-- The main thread goes on, and what is owed stays so. -/
theorem Accounted.goes {main : Main ε} (h : Accounted given s) (running : ∀ c, Running t c → Running s c)
    (writers : t.writers = s.writers) (pending : s.main.undrained = true → ∀ c ∈ s.pending, Running t c →
      (c ∈ t.pending ∧ main.undrained = true) ∨ c ∈ main.draining)
    (draining : ∀ c ∈ s.main.draining, Running t c → c ∈ main.draining ∨ given c)
    (joined : main.joined = true → s.main.joined = true ∨ ∀ w ∈ s.writers, w.2 = .exited) :
    Accounted given { t with main } := by
  refine ⟨fun c still => ?_, fun after => ?_⟩
  · have still : Running t c := still
    rcases h.owed c (running c still) with waits | ⟨member, undrained⟩ | left | done
    · exact Or.inl (writers.symm ▸ waits)
    · rcases pending undrained c member still with here | later
      · exact Or.inr (Or.inl here)
      · exact Or.inr (Or.inr (Or.inl later))
    · rcases draining c left still with here | done
      · exact Or.inr (Or.inr (Or.inl here))
      · exact Or.inr (Or.inr (Or.inr done))
    · exact Or.inr (Or.inr (Or.inr done))
  · show ∀ w ∈ t.writers, _
    rw [writers]
    rcases joined after with before | exited
    · exact h.joined before
    · exact exited

/-- A step of the main thread that waits for no thread and starts none. -/
theorem Accounted.idle {old main : Main ε} (h : Accounted given s) (here : s.main = old) (calls : t.calls = s.calls)
    (writers : t.writers = s.writers) (pending : t.pending = s.pending)
    (undrained : old.undrained = true → main.undrained = true) (draining : old.draining = [])
    (joined : main.joined = true → old.joined = true ∨ ∀ w ∈ s.writers, w.2 = .exited) :
    Accounted given { t with main } := by
  subst here
  refine h.goes (fun c => ?_) writers (fun before c member _ => ?_) (fun c left _ => ?_) joined
  · unfold Running
    rw [calls]
    exact id
  · exact Or.inl ⟨pending.symm ▸ member, undrained before⟩
  · rw [draining] at left
    cases left

/-- The calls for which this step stops waiting. -/
def Overdue (s : State ε) (elapsed : Bool) (c : Nat) : Prop :=
  elapsed = true ∧ ∃ calls, s.main = .joinPending (c :: calls) ∧ s.reply c = none

theorem Accounted.weaken {given' : Nat → Prop} (h : Accounted given s) (more : ∀ c, given c → given' c) : Accounted given' s := by
  refine ⟨fun c running => ?_, h.joined⟩
  rcases h.owed c running with waits | pending | left | done
  · exact Or.inl waits
  · exact Or.inr (Or.inl pending)
  · exact Or.inr (Or.inr (Or.inl left))
  · exact Or.inr (Or.inr (Or.inr (more c done)))

theorem Accounted.main {clock : Clock} {elapsed : Bool} {main : Main ε} (h : Accounted given s)
    (moved : MainMove client clock elapsed s s.main main t) :
    Accounted (fun c => given c ∨ Overdue s elapsed c) { t with main } := by
  have h : Accounted (fun c => given c ∨ Overdue s elapsed c) s := h.weaken fun c => Or.inl
  generalize here : s.main = old at moved
  -- once the pending threads are taken over no add is put among them
  have apart : old.undrained = false → old.draining = [] → old.joined = true →
      (∀ c, Running t c → Running s c) → t.writers = s.writers →
      Accounted (fun c => given c ∨ Overdue s elapsed c) { t with main } := by
    intro settled none joined running writers
    refine h.goes running writers (fun undrained => ?_) (fun c left _ => ?_) fun _ => ?_
    · rw [here, settled] at undrained
      cases undrained
    · rw [here, none] at left
      cases left
    · rw [here]
      exact Or.inl joined
  cases moved with
  | spawned => exact h.idle here rfl rfl rfl (fun _ => rfl) rfl (by simp [Main.joined])
  | spawns =>
    refine ⟨fun c running => ?_, by simp [Main.joined]⟩
    rcases h.owed c running with ⟨w, member, waits⟩ | ⟨member, -⟩ | left | done
    · exact Or.inl ⟨w, List.mem_append_left _ member, waits⟩
    · exact Or.inr (Or.inl ⟨member, rfl⟩)
    · rw [here] at left
      cases left
    · exact Or.inr (Or.inr (Or.inr done))
  | stops due => exact h.idle here rfl rfl rfl (fun _ => rfl) rfl (by simp [Main.joined])
  | joins exited => exact h.idle here rfl rfl rfl (fun _ => rfl) rfl fun _ => Or.inr exited
  | takesOver =>
    refine h.goes (fun c => id) rfl (fun _ c member _ => Or.inr member) (fun c left _ => ?_) fun _ => ?_
    · rw [here] at left
      cases left
    · rw [here]
      exact Or.inl rfl
  | drained => exact h.idle here rfl rfl rfl (by simp [Main.undrained]) rfl fun _ => Or.inl rfl
  | @drains call calls due =>
    refine h.goes (fun c => id) rfl (fun undrained => ?_) (fun c left running => ?_) fun _ => ?_
    · rw [here] at undrained
      cases undrained
    · rw [here] at left
      rcases List.mem_cons.mp left with rfl | later
      · have silent := running.reply
        rw [silent] at due
        have elapses : elapsed = true := by simpa using due
        exact Or.inr (Or.inr ⟨elapses, calls, here, silent⟩)
      · exact Or.inl later
    · rw [here]
      exact Or.inl rfl
  | starts =>
    refine apart rfl rfl rfl (fun c running => ?_) rfl
    rcases running.call with old | ⟨-, node, value, same⟩
    · exact old
    · cases same
  | _ => exact apart rfl rfl rfl (fun c running => running) rfl

theorem Accounted.ends {call : Nat} {reply : Reply ε} (h : Accounted given s) (moved : s.ends call reply = some t) :
    Accounted given t := by
  rw [State.ends] at moved
  split at moved
  · cases moved
    refine ⟨fun c running => h.owed c ?_, h.joined⟩
    obtain ⟨node, value, found⟩ := running
    rcases getElem?_set_cases found with ⟨-, same⟩ | ⟨-, before⟩
    · cases same
    · exact ⟨node, value, before⟩
  · cases moved

end Step

/-! ## Runs -/

section Run

variable {writersPerNode : Nat}

theorem run_accounted (ran : run client (start client writersPerNode) moves = some t) :
    Accounted (GivenUp client (start client writersPerNode) moves) t := by
  refine Trace.run_history (fun moves s => Accounted (GivenUp client (start client writersPerNode) moves) s) ?_ ?_ ran
  · refine ⟨fun c running => ?_, by simp [Main.joined, start]⟩
    obtain ⟨node, value, found⟩ := running
    cases found
  · intro done u m v reached moved h
    have later : ∀ c, GivenUp client (start client writersPerNode) done c →
        GivenUp client (start client writersPerNode) (done ++ [m]) c := fun c given => given.append m
    cases m with
    | writer i clock elapsed =>
      obtain ⟨node, old, new, w, found, goes, rfl⟩ := step_writer moved
      exact (h.writer found (writerStep goes)).weaken later
    | main clock elapsed =>
      obtain ⟨main, w, goes, rfl⟩ := step_main moved
      refine (h.main (mainMove goes)).weaken fun c given => ?_
      rcases given with given | ⟨rfl, calls, here, silent⟩
      · exact later c given
      · exact ⟨done, clock, [], u, calls, rfl, reached, here, silent⟩
    | ends call reply => exact (h.ends moved).weaken later
    | stop =>
      cases moved
      exact Accounted.weaken ⟨h.owed, h.joined⟩ later

/-- When the write phase has returned, and ever after, an add that still runs is one that
`drain_pending` has given up on: it waited for its thread until the timeout of the join. -/
theorem writePhase_drains (ran : run client (start client writersPerNode) moves = some t)
    (returned : t.main.returned = true) {c : Nat} {node : String} {value : Int}
    (running : t.calls[c]? = some ⟨.add node value, none⟩) : GivenUp client (start client writersPerNode) moves c := by
  have h := run_accounted ran
  have joined := Main.joined_of_returned returned
  obtain ⟨drained, settled⟩ := Main.settled returned
  rcases h.owed c ⟨node, value, running⟩ with ⟨w, member, value, waits⟩ | ⟨-, undrained⟩ | left | given
  · rw [h.joined joined w member] at waits
    cases waits
  · rw [drained] at undrained
    cases undrained
  · rw [settled] at left
    cases left
  · exact given

/-- An add whose caller stops waiting, and whose thread outlasts the join. -/
def outlasts : List (Move Empty) :=
  List.replicate 2 (.main still false) ++ List.replicate 4 (.writer 0 still false) ++
    [.writer 0 still true, .writer 0 still false, .main still true, .writer 0 still false] ++
    List.replicate 2 (.main still false) ++ [.main still true] ++ List.replicate 2 (.main still false)

theorem outlasts_given_up : ∃ t, run oneNode (start oneNode 1) outlasts = some t ∧
    t.calls[0]? = some ⟨.add "pg0" 1, none⟩ ∧ GivenUp oneNode (start oneNode 1) outlasts 0 := by
  have facts : (run oneNode (start oneNode 1) outlasts).map (fun t => (t.main.returned, t.calls[0]?)) =
      some (true, some ⟨.add "pg0" 1, none⟩) := by
    decide +kernel
  obtain ⟨t, ran, same⟩ := Option.map_eq_some_iff.mp facts
  simp only [Prod.mk.injEq] at same
  exact ⟨t, ran, same.2, writePhase_drains ran same.1 same.2⟩

end Run

end FaultStorm.LoadGenerator
