import FaultStorm.LoadGenerator.Logged
import FaultStorm.Trace.Runs

/-!
# The calls and their replies

An add that was acknowledged was started and has returned, and a read that returned was started
when all the acknowledged adds had returned: the reader starts after the writers were joined.
-/

namespace FaultStorm.LoadGenerator

open Python Checker

variable {ε : Type} {client : DatabaseClient ε} {trace : List (Event ε)} {s t : State ε}

/-- An add of the value was started and has returned. -/
def Added (trace : List (Event ε)) (value : Int) : Prop :=
  ∃ call node values, .starts call (.add node value) ∈ trace ∧ .ends call (.returned values) ∈ trace

/-- A read that returned this snapshot was started when all the acknowledged adds had returned. -/
def Snapshot (trace : List (Event ε)) (values : Finset Int) : Prop :=
  ∃ before mid after call node,
    trace = before ++ .starts call (.read node) :: mid ++ .ends call (.returned values) :: after ∧
      ∀ v ∈ acked trace, Added before v

theorem Added.append {v : Int} (h : Added trace v) (e : Event ε) : Added (trace ++ [e]) v := by
  obtain ⟨call, node, values, started, ended⟩ := h
  exact ⟨call, node, values, List.mem_append_left _ started, List.mem_append_left _ ended⟩

theorem acked_append_other {e : Event ε} (other : e.acked = none) : acked (trace ++ [e]) = acked trace := by
  ext v
  rw [mem_acked_append, other]
  simp

theorem Snapshot.append {values : Finset Int} {e : Event ε} (h : Snapshot trace values) (other : e.acked = none) :
    Snapshot (trace ++ [e]) values := by
  obtain ⟨before, mid, after, call, node, split, added⟩ := h
  refine ⟨before, mid, after ++ [e], call, node, ?_, ?_⟩
  · rw [split]
    simp
  · rw [acked_append_other other]
    exact added

/-- The trace has the calls and their replies. -/
structure Served (s : State ε) : Prop where
  replies : ∀ c r, s.reply c = some r → .ends c r ∈ s.trace
  ended : ∀ c r, .ends c r ∈ s.trace → c < s.calls.length
  awaits : ∀ w ∈ s.writers, ∀ v c, w.2 = .await v c → .starts c (.add w.1 v) ∈ s.trace
  added : ∀ v ∈ acked s.trace, Added s.trace v
  awaited : ∀ node c, s.main = .readAwait node c → ∃ before mid, s.trace = before ++ .starts c (.read node) :: mid ∧
    (∀ r, .ends c r ∉ before) ∧ ∀ v ∈ acked s.trace, Added before v
  reads : ∀ S, lastRead s.trace = some S → Snapshot s.trace S
  late : s.main.joined = false → lastRead s.trace = none

theorem Served.fresh (writersPerNode : Nat) : Served (start client writersPerNode) := by
  constructor
  · intro c r replied
    simp [start, State.reply] at replied
  · nofun
  · nofun
  · nofun
  · nofun
  · nofun
  · exact fun _ => rfl

/-- Nothing happens. -/
theorem Served.quiet (h : Served s) (calls : t.calls = s.calls) (trace : t.trace = s.trace)
    (awaits : ∀ w ∈ t.writers, ∀ v c, w.2 = .await v c → w ∈ s.writers)
    (main : ∀ node c, t.main = .readAwait node c → s.main = .readAwait node c)
    (joined : t.main.joined = false → s.main.joined = false) : Served t := by
  constructor
  · intro c r replied
    rw [State.reply, calls] at replied
    rw [trace]
    exact h.replies c r replied
  · rw [trace, calls]
    exact h.ended
  · intro w member v c here
    rw [trace]
    exact h.awaits w (awaits w member v c here) v c here
  · rw [trace]
    exact h.added
  · intro node c here
    rw [trace]
    exact h.awaited node c (main node c here)
  · rw [trace]
    exact h.reads
  · intro early
    rw [trace]
    exact h.late (joined early)

/-- A call is started, or ends. -/
theorem Served.calls {e : Event ε} (h : Served s) (trace : t.trace = s.trace ++ [e]) (silent : e.acked = none ∧ e.read = none)
    (replies : ∀ c r, t.reply c = some r → s.reply c = some r ∨ e = .ends c r)
    (ended : ∀ c r, e = .ends c r → c < t.calls.length) (length : s.calls.length ≤ t.calls.length)
    (awaits : ∀ w ∈ t.writers, ∀ v c, w.2 = .await v c → w ∈ s.writers ∨ e = .starts c (.add w.1 v))
    (awaited : ∀ node c, t.main = .readAwait node c → s.main = .readAwait node c ∨
      e = .starts c (.read node) ∧ c = s.calls.length)
    (joined : t.main.joined = false → s.main.joined = false) : Served t := by
  have acks : acked t.trace = acked s.trace := by rw [trace, acked_append_other silent.1]
  have last : lastRead t.trace = lastRead s.trace := by rw [trace, lastRead_append, silent.2, Option.none_or]
  constructor
  · intro c r replied
    rw [trace]
    rcases replies c r replied with before | rfl
    · exact List.mem_append_left _ (h.replies c r before)
    · exact List.mem_append_right _ List.mem_cons_self
  · intro c r member
    rw [trace] at member
    rcases List.mem_append.mp member with before | here
    · exact (h.ended c r before).trans_le length
    · exact ended c r (List.mem_singleton.mp here).symm
  · intro w member v c here
    rw [trace]
    rcases awaits w member v c here with before | rfl
    · exact List.mem_append_left _ (h.awaits w before v c here)
    · exact List.mem_append_right _ List.mem_cons_self
  · intro v member
    rw [acks] at member
    rw [trace]
    exact (h.added v member).append e
  · intro node c here
    rw [acks, trace]
    rcases awaited node c here with before | ⟨rfl, rfl⟩
    · obtain ⟨earlier, mid, split, unended, added⟩ := h.awaited node c before
      refine ⟨earlier, mid ++ [e], ?_, unended, added⟩
      rw [split]
      simp
    · refine ⟨s.trace, [], rfl, fun r member => ?_, h.added⟩
      exact absurd (h.ended _ r member) (Nat.lt_irrefl _)
  · intro S read
    rw [last] at read
    rw [trace]
    exact (h.reads S read).append silent.1
  · intro early
    rw [last]
    exact h.late (joined early)

/-- An add that has returned is acknowledged before the writers are joined. -/
theorem Served.acks {value : Int} {writers : List (String × Writer ε)} (h : Served s) (added : Added s.trace value)
    (unjoined : s.main.joined = false) (trace : t.trace = s.trace ++ [.acks value])
    (rest : t = { s with writers, trace := t.trace })
    (awaits : ∀ w ∈ writers, ∀ v c, w.2 = .await v c → w ∈ s.writers) : Served t := by
  have last : lastRead t.trace = none := by
    rw [trace, lastRead_append]
    exact h.late unjoined
  have main : t.main = s.main := by rw [rest]
  constructor
  · intro c r replied
    rw [rest] at replied
    rw [trace]
    exact List.mem_append_left _ (h.replies c r replied)
  · intro c r member
    rw [trace] at member
    rw [rest]
    rcases List.mem_append.mp member with before | here
    · exact h.ended c r before
    · cases List.mem_singleton.mp here
  · intro w member v c here
    rw [rest] at member
    rw [trace]
    exact List.mem_append_left _ (h.awaits w (awaits w member v c here) v c here)
  · intro v member
    rw [trace, mem_acked_append] at member
    rw [trace]
    rcases member with before | here
    · exact (h.added v before).append _
    · rw [← Option.some.inj here]
      exact added.append _
  · intro node c here
    rw [main] at here
    rw [here] at unjoined
    cases unjoined
  · intro S read
    rw [last] at read
    cases read
  · exact fun _ => last

theorem Served.ends {call : Nat} {reply : Reply ε} (h : Served s) (moved : s.ends call reply = some t) : Served t := by
  unfold State.ends at moved
  split at moved
  · rename_i request found
    cases moved
    have inside : call < s.calls.length := (List.getElem?_eq_some_iff.mp found).1
    refine h.calls rfl ⟨rfl, rfl⟩ ?_ ?_ ?_ ?_ ?_ fun early => early
    · intro c r replied
      by_cases same : c = call
      · rw [same, State.reply, List.getElem?_set_self inside] at replied
        rw [same, ← Option.some.inj replied]
        exact Or.inr rfl
      · rw [State.reply, List.getElem?_set_ne (Ne.symm same)] at replied
        exact Or.inl replied
    · intro c r same
      cases same
      rw [List.length_set]
      exact inside
    · rw [List.length_set]
    · exact fun w member v c _ => Or.inl member
    · exact fun node c here => Or.inl here
  · cases moved

/-- A writer that does not wait for a new call. -/
theorem mem_of_mem_set {i : Nat} {node : String} {ws : List (String × Writer ε)} {new : Writer ε} {w : String × Writer ε}
    {v : Int} {c : Nat} (member : w ∈ ws.set i (node, new)) (here : w.2 = .await v c) (other : new ≠ .await v c) :
    w ∈ ws := by
  rcases List.mem_or_eq_of_mem_set member with before | rfl
  · exact before
  · exact absurd here other

theorem reply_call {c : Nat} {r : Reply ε} {request : Request} (replied : (s.call request).reply c = some r) :
    s.reply c = some r := by
  have calls : (s.calls ++ [⟨request, none⟩])[c]?.bind Call.reply = some r := replied
  rcases Nat.lt_or_ge c s.calls.length with before | after
  · rw [List.getElem?_append_left before] at calls
    exact calls
  · rw [List.getElem?_append_right after] at calls
    cases position : c - s.calls.length with
    | zero =>
      rw [position] at calls
      cases calls
    | succ n =>
      rw [position] at calls
      cases calls

/-- A writer's step keeps the trace true, as long as the writers are not joined. -/
theorem Served.writer {i : Nat} {node : String} {old new : Writer ε} (h : Served s) (unjoined : s.main.joined = false)
    (found : s.writers[i]? = some (node, old)) (moved : WriterStep client node s old new t) :
    Served { t with writers := t.writers.set i (node, new) } := by
  -- but for a new call, no writer starts to wait
  have quiet : ∀ {u : State ε}, u.calls = s.calls → u.trace = s.trace → u.main = s.main → u.writers = s.writers →
      (∀ v c, new ≠ .await v c) → Served { u with writers := u.writers.set i (node, new) } := by
    intro u calls trace main writers other
    refine h.quiet calls trace (fun w member v c here => ?_) (fun _ _ here => main ▸ here) fun early => main ▸ early
    exact mem_of_mem_set (writers ▸ member) here (other v c)
  cases moved with
  | idles before after =>
    apply quiet rfl rfl rfl rfl
    rcases after with rfl | rfl | rfl <;> nofun
  | draws => exact quiet rfl rfl rfl rfl nofun
  | invokes clock => exact quiet rfl rfl rfl rfl nofun
  | starts =>
    refine h.calls rfl ⟨rfl, rfl⟩ ?_ nofun ?_ ?_ (fun node c here => Or.inl here) id
    · exact fun c r replied => Or.inl (reply_call replied)
    · show _ ≤ (s.calls ++ [_]).length
      rw [List.length_append]
      omega
    · intro w member v c here
      rcases List.mem_or_eq_of_mem_set member with before | rfl
      · exact Or.inl before
      · cases here
        exact Or.inr rfl
  | expires => exact quiet rfl rfl rfl rfl nofun
  | @returns value call values replied =>
    have added : Added s.trace value :=
      ⟨call, node, values, h.awaits _ (List.mem_of_getElem? found) value call rfl, h.replies call _ replied⟩
    exact h.acks added unjoined rfl rfl fun w member v c here => mem_of_mem_set member here nofun
  | raises replied => exact quiet rfl rfl rfl rfl nofun
  | completes clock logs => exact quiet rfl rfl rfl rfl nofun
  | dies logs => exact quiet rfl rfl rfl rfl nofun

/-- The reader takes a snapshot. -/
theorem Served.snapshot {node : String} {call : Nat} {values : Finset Int} {main : Main ε} (h : Served s)
    (here : s.main = .readAwait node call) (replied : s.reply call = some (.returned values))
    (next : ∀ node c, main ≠ .readAwait node c) (joined : main.joined = true) :
    Served { s.happens (.reads values) with main } := by
  have acks : acked (s.trace ++ [.reads values]) = acked s.trace := acked_append_other rfl
  constructor
  · exact fun c r replied => List.mem_append_left _ (h.replies c r replied)
  · intro c r member
    rcases List.mem_append.mp member with before | here
    · exact h.ended c r before
    · cases List.mem_singleton.mp here
  · exact fun w member v c here => List.mem_append_left _ (h.awaits w member v c here)
  · intro v member
    show Added (s.trace ++ [_]) v
    exact (h.added v (acks ▸ member)).append _
  · exact fun node c here => absurd here (next node c)
  · intro S read
    have last : lastRead (s.trace ++ [.reads values]) = some S := read
    rw [lastRead_append] at last
    cases last
    obtain ⟨before, mid, split, unended, added⟩ := h.awaited node call here
    have behind : .ends call (.returned values) ∈ mid := by
      have member := h.replies call _ replied
      rw [split] at member
      rcases List.mem_append.mp member with early | late
      · exact absurd early (unended _)
      · rcases List.mem_cons.mp late with same | later
        · cases same
        · exact later
    obtain ⟨mid, after, rfl⟩ := List.append_of_mem behind
    refine ⟨before, mid, after ++ [.reads values], call, node, ?_, ?_⟩
    · show s.trace ++ [_] = _
      rw [split]
      simp
    · exact fun v member => added v (acks ▸ member)
  · intro early
    rw [joined] at early
    cases early

/-- A step of the main thread keeps the trace true. -/
theorem Served.main {main : Main ε} (h : Served s) (moved : MainStep client s main t) : Served { t with main } := by
  have same : ∀ w ∈ s.writers, ∀ v c, w.2 = .await v c → w ∈ s.writers := fun w member _ _ _ => member
  cases moved with
  | spawns here =>
    refine h.quiet rfl rfl (fun w member v c await => ?_) nofun fun _ => by rw [here]; rfl
    rcases List.mem_append.mp member with before | new
    · exact before
    · rw [List.mem_singleton.mp new] at await
      cases await
  | quiet _ trace calls writers _ _ next _ unjoined =>
    exact h.quiet calls trace (writers ▸ same) (fun node c await => absurd await (next node c)) unjoined
  | invokes clock here => exact h.quiet rfl rfl same nofun nofun
  | starts here =>
    refine h.calls rfl ⟨rfl, rfl⟩ (fun c r replied => Or.inl (reply_call replied)) nofun ?_
      (fun w member v c _ => Or.inl member) ?_ nofun
    · show _ ≤ (s.calls ++ [_]).length
      rw [List.length_append]
      omega
    · intro node' c await
      cases await
      exact Or.inr ⟨rfl, rfl⟩
  | takes here replied => exact h.snapshot here replied nofun rfl
  | completes clock here => exact h.quiet rfl rfl same nofun nofun

end FaultStorm.LoadGenerator
