import Mathlib.Data.List.Induction

/-!
# Runs of a machine

A machine whose step may be refused runs through a list of moves. What every step keeps holds at
the end of the run, also where it is about the moves that were made, and a rank that every move
lowers bounds the moves that can be made.
-/

namespace Trace

variable {σ α : Type} {step : σ → α → Option σ} {s t : σ} {moves : List α}

/-- What each step keeps, a run keeps. -/
theorem run_invariant (Inv : σ → Prop) (kept : ∀ s a t, step s a = some t → Inv s → Inv t)
    (ran : moves.foldlM step s = some t) (init : Inv s) : Inv t := by
  induction moves generalizing s with
  | nil =>
    cases ran
    exact init
  | cons a moves ih =>
    rw [List.foldlM_cons] at ran
    cases first : step s a with
    | none =>
      rw [first] at ran
      cases ran
    | some u =>
      rw [first] at ran
      exact ih ran (kept s a u first init)

theorem run_concat (moves : List α) (a : α) : (moves ++ [a]).foldlM step s = (moves.foldlM step s).bind (step · a) := by
  rw [List.foldlM_append]
  cases moves.foldlM step s with
  | none => rfl
  | some u => exact bind_pure (step u a)

/-- What each step keeps of the moves made and the state, a run keeps. -/
theorem run_history (Inv : List α → σ → Prop) (init : Inv [] s)
    (kept : ∀ done u a v, done.foldlM step s = some u → step u a = some v → Inv done u → Inv (done ++ [a]) v)
    (ran : moves.foldlM step s = some t) : Inv moves t := by
  induction moves using List.reverseRecOn generalizing t with
  | nil =>
    cases ran
    exact init
  | append_singleton done a ih =>
    rw [run_concat] at ran
    obtain ⟨u, before, last⟩ := Option.bind_eq_some_iff.mp ran
    exact kept done u a t before last (ih before)

/-- While the machine is busy, the moves that count lower its rank and no other raises it. So it has
made no more of them than its rank was, or it is done. -/
theorem run_rank (busy done : σ → Prop) (rank : σ → Nat) (counts : α → Bool)
    (goes : ∀ s a t, step s a = some t → busy s → done t ∨ busy t ∧ rank t + (if counts a then 1 else 0) ≤ rank s)
    (stays : ∀ s a t, step s a = some t → done s → done t) (ran : moves.foldlM step s = some t) (begins : busy s) :
    done t ∨ busy t ∧ rank t + moves.countP counts ≤ rank s := by
  induction moves generalizing s with
  | nil =>
    cases ran
    exact Or.inr ⟨begins, Nat.le_refl _⟩
  | cons a moves ih =>
    rw [List.foldlM_cons] at ran
    obtain ⟨u, first, later⟩ := Option.bind_eq_some_iff.mp ran
    rcases goes s a u first begins with finished | ⟨still, lower⟩
    · exact Or.inl (run_invariant done stays later finished)
    rcases ih later still with finished | ⟨still, lowers⟩
    · exact Or.inl finished
    · refine Or.inr ⟨still, ?_⟩
      rw [List.countP_cons]
      omega

end Trace
