import FaultStorm.LoadGenerator.Served

/-!
# The verdict on a run

The checker, on the log of a write phase and a read phase, against what happened in the run.
-/

namespace FaultStorm.LoadGenerator

open Python Checker

variable {ε : Type} {client : DatabaseClient ε} {s t : State ε}

/-- The log and the trace say the same after a step, if the client raises `Exception`s only. -/
theorem step_keeps (exceptions : ∀ exc, client.isException exc = true) (s : State ε) (m : Move ε) (t : State ε)
    (moved : step client s m = some t) (h : Logged s ∧ Served s) : Logged t ∧ Served t := by
  obtain ⟨log, calls⟩ := h
  cases m with
  | writer i clock elapsed =>
    obtain ⟨node, old, new, u, found, goes, rfl⟩ := step_writer moved
    have unjoined : s.main.joined = false := by
      rw [Bool.eq_false_iff]
      intro joined
      have exited : old = .exited := log.joined joined _ (List.mem_of_getElem? found)
      rw [exited] at goes
      cases goes
    exact ⟨log.writer (fun _ exc _ => exceptions exc) found (writerStep goes), calls.writer unjoined found (writerStep goes)⟩
  | main clock elapsed =>
    obtain ⟨main, u, goes, rfl⟩ := step_main moved
    exact ⟨log.main (mainStep goes), calls.main (mainStep goes)⟩
  | ends call reply => exact ⟨log.ends moved, calls.ends moved⟩
  | stop =>
    cases moved
    exact ⟨log.quiet rfl rfl rfl rfl rfl rfl Or.inl,
      calls.quiet rfl rfl (fun w member _ _ _ => member) (fun _ _ here => here) id⟩

theorem Logged.fresh (writersPerNode : Nat) : Logged (start client writersPerNode) := by
  constructor
  · exact List.forall_mem_nil _
  · intro v
    simp [LoadGenerator.start, logged, handed]
  · intro v
    simp [LoadGenerator.start, logged, LoadGenerator.acked]
  · rfl
  · intro joined
    cases joined

/-! ## Databases -/

/-- A read returns every value whose add had returned when the read was started. -/
def Keeps (trace : List (Event ε)) : Prop :=
  ∀ before mid after call node values,
    trace = before ++ .starts call (.read node) :: mid ++ .ends call (.returned values) :: after →
      ∀ v, Added before v → v ∈ values

/-- A read returns only values that were handed to the client before. -/
def InventsNothing (trace : List (Event ε)) : Prop :=
  ∀ before mid after call node values,
    trace = before ++ .starts call (.read node) :: mid ++ .ends call (.returned values) :: after →
      ∀ v ∈ values, v ∈ handed (before ++ .starts call (.read node) :: mid)

/-! ## The verdict -/

theorem mem_numbers {values : Finset Int} {v : Int} : .number v ∈ numbers values ↔ v ∈ values := by
  rw [numbers]
  constructor
  · intro image
    obtain ⟨w, there, same⟩ := Finset.mem_image.mp image
    exact number_injective same ▸ there
  · exact Finset.mem_image_of_mem _

theorem numbers_sdiff (a b : Finset Int) : numbers a \ numbers b = numbers (a \ b) :=
  (Finset.image_sdiff a b number_injective).symm

theorem numbers_subset {a b : Finset Int} : numbers a ⊆ numbers b ↔ a ⊆ b :=
  Finset.image_subset_image_iff number_injective

section Run

variable {writersPerNode : Nat} {moves : List (Move ε)}

/-- At the end of a run the log says exactly what happened. -/
theorem logged_end (exceptions : ∀ exc, client.isException exc = true)
    (ran : run client (start client writersPerNode) moves = some t) (ended : t.main = .ended) :
    Checker.invoked t.text = numbers (handed t.trace) ∧ Checker.acked t.text = numbers (acked t.trace) ∧
      Checker.lastRead t.text = (lastRead t.trace).map numbers ∧ (∀ e ∈ t.log, Taken e) ∧ Served t := by
  obtain ⟨log, served⟩ := Trace.run_invariant (fun s => Logged s ∧ Served s) (step_keeps exceptions) ran
    ⟨Logged.fresh writersPerNode, Served.fresh writersPerNode⟩
  have exited := log.joined (by rw [ended]; rfl)
  have text : ops t.text = t.log := ops_lines fun e member => (log.taken e member).object
  refine ⟨?_, ?_, ?_, log.taken, served⟩
  · rw [Checker.invoked, text, adds_eq]
    congr 1
    ext v
    rw [log.invokes]
    refine or_iff_left ?_
    rintro ⟨w, member, starting⟩
    rw [exited w member] at starting
    cases starting
  · rw [Checker.acked, text, adds_eq]
    congr 1
    ext v
    rw [log.acks]
    refine (or_iff_left ?_).symm
    rintro ⟨w, member, acking⟩
    rw [exited w member] at acking
    cases acking
  · have reads := log.reads
    rw [ended] at reads
    rw [Checker.lastRead, text]
    exact reads.symm

/-- The verdict on a run: it is valid if and only if a read returned, and the last one that did has
every acknowledged value and no value that was not handed to the client. A database that keeps what
it acknowledged and invents nothing is not reported; one that loses an acknowledged value is. -/
theorem checkConsistency_run (exceptions : ∀ exc, client.isException exc = true)
    (ran : run client (start client writersPerNode) moves = some t) (ended : t.main = .ended) :
    ∃ result, checkConsistency t.text = .ok result ∧
      (result.valid = true ↔ ∃ S, lastRead t.trace = some S ∧ acked t.trace ⊆ S ∧ S ⊆ handed t.trace) ∧
      (∀ S, lastRead t.trace = some S →
        result.lost = numbers (acked t.trace \ S) ∧ result.unexpected = numbers (S \ handed t.trace)) ∧
      (Keeps t.trace → InventsNothing t.trace →
        result.lost = ∅ ∧ result.unexpected = ∅ ∧ (result.valid = true ↔ (lastRead t.trace).isSome)) ∧
      ∀ S, lastRead t.trace = some S → ∀ v ∈ acked t.trace, v ∉ S → result.valid = false ∧ .number v ∈ result.lost := by
  obtain ⟨invokes, acks, reads, taken, served⟩ := logged_end exceptions ran ended
  obtain ⟨result, checked⟩ := checkConsistency_taken taken
  change checkConsistency t.text = .ok result at checked
  refine ⟨result, checked, ?_⟩
  cases last : lastRead t.trace with
  | none =>
    rw [last] at reads
    obtain ⟨invalid, lost, unexpected⟩ := verdict_unread checked reads
    refine ⟨?_, nofun, fun _ _ => ⟨lost, unexpected, ?_⟩, nofun⟩
    · rw [invalid]
      exact iff_of_false nofun (by rintro ⟨S, read, -⟩; cases read)
    · rw [invalid]
      exact iff_of_false nofun nofun
  | some S =>
    rw [last] at reads
    have decided := verdict checked reads
    have lost : result.lost = numbers (acked t.trace \ S) := by rw [decided.lost, acks, numbers_sdiff]
    have unexpected : result.unexpected = numbers (S \ handed t.trace) := by
      rw [decided.unexpected, invokes, numbers_sdiff]
    have valid : result.valid = true ↔ acked t.trace ⊆ S ∧ S ⊆ handed t.trace := by
      rw [decided.valid, acks, invokes, numbers_subset, numbers_subset]
    refine ⟨?_, ?_, ?_, ?_⟩
    · rw [valid]
      constructor
      · exact fun good => ⟨S, rfl, good⟩
      · rintro ⟨S', same, good⟩
        rw [Option.some.inj same]
        exact good
    · rintro S' ⟨⟩
      exact ⟨lost, unexpected⟩
    · intro keeps honest
      obtain ⟨before, mid, after, call, node, split, added⟩ := served.reads S last
      have kept : acked t.trace ⊆ S := fun v member => keeps before mid after call node S split v (added v member)
      have known : S ⊆ handed t.trace := by
        intro v member
        have early := honest before mid after call node S split v member
        rw [split, handed, List.filterMap_append, List.mem_toFinset]
        exact List.mem_append_left _ (List.mem_toFinset.mp early)
      refine ⟨?_, ?_, iff_of_true (valid.mpr ⟨kept, known⟩) rfl⟩
      · rw [lost, Finset.sdiff_eq_empty_iff_subset.mpr kept]
        rfl
      · rw [unexpected, Finset.sdiff_eq_empty_iff_subset.mpr known]
        rfl
    · rintro S' ⟨⟩ v member gone
      refine ⟨?_, ?_⟩
      · rw [Bool.eq_false_iff]
        intro good
        exact gone ((valid.mp good).1 member)
      · rw [lost, mem_numbers]
        exact Finset.mem_sdiff.mpr ⟨member, gone⟩

end Run

section Example

/-- A read that returns the value of a call that was given up, and not the one that was refused, is
consistent with the log. -/
theorem checkConsistency_threeAdds : ∃ t result, run pgPair (start pgPair 1) threeAdds = some t ∧
    checkConsistency t.text = .ok result ∧ result.valid = true := by
  have facts : (run pgPair (start pgPair 1) threeAdds).map
      (fun t => (t.main, lastRead t.trace, acked t.trace, handed t.trace)) =
        some (.ended, some {1, 3}, {1}, {1, 2, 3}) := by
    decide +kernel
  obtain ⟨t, ran, same⟩ := Option.map_eq_some_iff.mp facts
  simp only [Prod.mk.injEq] at same
  obtain ⟨ended, read, acks, handed⟩ := same
  obtain ⟨result, checked, valid, -⟩ := checkConsistency_run (fun _ => rfl) ran ended
  refine ⟨t, result, ran, checked, valid.mpr ⟨{1, 3}, read, ?_, ?_⟩⟩
  · rw [acks]
    decide
  · rw [handed]
    decide

end Example

end FaultStorm.LoadGenerator
