import Mathlib.Order.Basic

/-!
# Procedures that may raise

A `Proc σ ε α` reads and writes a state `σ` and ends by returning an `α` or by raising an
`ε`. Whatever it changed before it raised stays changed, as in Python. Contracts are
`Triple`s with one postcondition for a return and one for a raise; `Keeps` is the
invariant form. Nothing here depends on a particular state or exception type.
-/

namespace Python

/-- A procedure over the state `σ`: it returns an `α` or raises an `ε`, and the state it
had reached is kept in both cases. -/
abbrev Proc (σ ε α : Type) := ExceptT ε (StateM σ) α

namespace Proc

variable {σ τ ε α β γ : Type}

/-- How the procedure ends when it is started in `s`, and the state it leaves. -/
def exec (m : Proc σ ε α) (s : σ) : Except ε α × σ := StateT.run (ExceptT.run m) s

@[simp] theorem exec_pure (a : α) (s : σ) : exec (pure a : Proc σ ε α) s = (.ok a, s) := rfl

@[simp] theorem exec_throw (e : ε) (s : σ) : exec (throw e : Proc σ ε α) s = (.error e, s) := rfl

@[simp] theorem exec_get (s : σ) : exec (get : Proc σ ε σ) s = (.ok s, s) := rfl

@[simp] theorem exec_set (s t : σ) : exec (set t : Proc σ ε PUnit) s = (.ok ⟨⟩, t) := rfl

@[simp] theorem exec_modify (f : σ → σ) (s : σ) :
    exec (modify f : Proc σ ε PUnit) s = (.ok ⟨⟩, f s) := rfl

/-- Sequencing: a raise in the first part skips the second. -/
theorem exec_bind (m : Proc σ ε α) (f : α → Proc σ ε β) (s : σ) :
    exec (m >>= f) s = match exec m s with
      | (.ok a, t) => exec (f a) t
      | (.error e, t) => (.error e, t) := by
  simp only [exec, ExceptT.run_bind, StateT.run_bind]
  rcases StateT.run (ExceptT.run m) s with ⟨_ | _, _⟩ <;> rfl

theorem exec_bind_ok {m : Proc σ ε α} {f : α → Proc σ ε β} {s t : σ} {a : α}
    (first : exec m s = (.ok a, t)) : exec (m >>= f) s = exec (f a) t := by
  rw [exec_bind, first]

theorem exec_bind_error {m : Proc σ ε α} {f : α → Proc σ ε β} {s t : σ} {e : ε}
    (first : exec m s = (.error e, t)) : exec (m >>= f) s = (.error e, t) := by
  rw [exec_bind, first]

@[simp] theorem exec_map (f : α → β) (m : Proc σ ε α) (s : σ) :
    exec (f <$> m) s = ((exec m s).1.map f, (exec m s).2) := by
  simp only [exec, ExceptT.run_map, StateT.run_map]
  rcases StateT.run (ExceptT.run m) s with ⟨_ | _, _⟩ <;> rfl

/-- `try: m`, with the exception, if any, as the result. -/
def attempt (m : Proc σ ε Unit) : Proc σ ε (Option ε) := fun s =>
  match exec m s with
  | (.ok _, t) => (.ok none, t)
  | (.error e, t) => (.ok (some e), t)

theorem exec_attempt (m : Proc σ ε Unit) (s : σ) :
    exec (attempt m) s = (.ok (match (exec m s).1 with | .ok _ => none | .error e => some e), (exec m s).2) := by
  show attempt m s = _
  unfold attempt
  rcases exec m s with ⟨_ | _, _⟩ <;> rfl

theorem exec_attempt_ok {m : Proc σ ε Unit} {s t : σ} (ran : exec m s = (.ok (), t)) :
    exec (attempt m) s = (.ok none, t) := by
  rw [exec_attempt, ran]

theorem exec_attempt_error {m : Proc σ ε Unit} {s t : σ} {e : ε} (ran : exec m s = (.error e, t)) :
    exec (attempt m) s = (.ok (some e), t) := by
  rw [exec_attempt, ran]

/-- `try: m` `except Exception: pass`. -/
def swallow (m : Proc σ ε Unit) : Proc σ ε Unit := do
  let _ ← attempt m

theorem exec_swallow (m : Proc σ ε Unit) (s : σ) : exec (swallow m) s = (.ok (), (exec m s).2) := by
  rw [swallow, exec_bind_ok (exec_attempt m s)]
  rfl

/-- `try: return m` `except Exception: return None`. -/
def orNone (m : Proc σ ε α) : Proc σ ε (Option α) := fun s =>
  match exec m s with
  | (.ok a, t) => (.ok (some a), t)
  | (.error _, t) => (.ok none, t)

theorem exec_orNone_ok {m : Proc σ ε α} {s t : σ} {a : α} (ran : exec m s = (.ok a, t)) :
    exec (orNone m) s = (.ok (some a), t) := by
  show orNone m s = _
  rw [orNone, ran]

theorem exec_orNone_error {m : Proc σ ε α} {s t : σ} {e : ε} (ran : exec m s = (.error e, t)) :
    exec (orNone m) s = (.ok none, t) := by
  show orNone m s = _
  rw [orNone, ran]

/-- `try: return m` `except E: return None`, for the exceptions in `E`. -/
def catching (E : ε → Bool) (m : Proc σ ε α) : Proc σ ε (Option α) := fun s =>
  match exec m s with
  | (.ok a, t) => (.ok (some a), t)
  | (.error e, t) => (if E e then .ok none else .error e, t)

theorem exec_catching_ok {E : ε → Bool} {m : Proc σ ε α} {s t : σ} {a : α} (ran : exec m s = (.ok a, t)) :
    exec (catching E m) s = (.ok (some a), t) := by
  show catching E m s = _
  rw [catching, ran]

theorem exec_catching_error {E : ε → Bool} {m : Proc σ ε α} {s t : σ} {e : ε} (ran : exec m s = (.error e, t)) :
    exec (catching E m) s = (if E e then .ok none else .error e, t) := by
  show catching E m s = _
  rw [catching, ran]

/-- `try: m` `finally: final`, for a `final` that does not raise. -/
def ensuring (m : Proc σ ε α) (final : σ → σ) : Proc σ ε α := fun s =>
  let (result, t) := exec m s
  (result, final t)

@[simp] theorem exec_ensuring (m : Proc σ ε α) (final : σ → σ) (s : σ) :
    exec (ensuring m final) s = ((exec m s).1, final (exec m s).2) := rfl

/-- `try: m` `finally: final`. -/
def tryFinally (m : Proc σ ε α) (final : Proc σ ε Unit) : Proc σ ε α := fun s =>
  let (result, t) := exec m s
  match exec final t with
  | (.ok _, u) => (result, u)
  | (.error e, u) => (.error e, u)

theorem exec_tryFinally {m : Proc σ ε α} {final : Proc σ ε Unit} {s u : σ}
    (ended : exec final (exec m s).2 = (.ok (), u)) : exec (tryFinally m final) s = ((exec m s).1, u) := by
  show tryFinally m final s = _
  unfold tryFinally
  rcases ran : exec m s with ⟨result, t⟩
  rw [ran] at ended
  dsimp only at ended ⊢
  rw [ended]

/-- Run a procedure on the part of the state that `view` reads and `put` writes back. -/
def focus (view : σ → τ) (put : σ → τ → σ) (m : Proc τ ε α) : Proc σ ε α := fun s =>
  let (result, t) := exec m (view s)
  (result, put s t)

@[simp] theorem exec_focus (view : σ → τ) (put : σ → τ → σ) (m : Proc τ ε α) (s : σ) :
    exec (focus view put m) s = ((exec m (view s)).1, put s (exec m (view s)).2) := rfl

/-- `for a in l: body a`. -/
def forEach (l : List α) (body : α → Proc σ ε Unit) : Proc σ ε Unit :=
  match l with
  | [] => pure ()
  | a :: rest => do
    body a
    forEach rest body

@[simp] theorem forEach_nil (body : α → Proc σ ε Unit) : forEach [] body = pure () := rfl

theorem forEach_cons (a : α) (l : List α) (body : α → Proc σ ε Unit) :
    forEach (a :: l) body = (do body a; forEach l body) := rfl

theorem forEach_singleton (a : α) (body : α → Proc σ ε Unit) : forEach [a] body = body a := by
  rw [forEach_cons, forEach_nil, bind_pure_unit]

theorem forEach_append (l k : List α) (body : α → Proc σ ε Unit) :
    forEach (l ++ k) body = (do forEach l body; forEach k body) := by
  induction l with
  | nil => rfl
  | cons a l ih => rw [List.cons_append, forEach_cons, forEach_cons, ih, bind_assoc]

theorem forEach_map (l : List α) (f : α → β) (body : β → Proc σ ε Unit) :
    forEach (l.map f) body = forEach l fun a => body (f a) := by
  induction l with
  | nil => rfl
  | cons a l ih => rw [List.map_cons, forEach_cons, forEach_cons, ih]

/-- A loop raises if and only if it has done some of its elements and raises at the next one. -/
theorem exec_forEach_error_iff {body : α → Proc σ ε Unit} {l : List α} {s t : σ} {e : ε} :
    exec (forEach l body) s = (.error e, t) ↔ ∃ done a rest u, l = done ++ a :: rest ∧
      exec (forEach done body) s = (.ok (), u) ∧ exec (body a) u = (.error e, t) := by
  induction l generalizing s with
  | nil =>
    constructor
    · intro raised
      cases raised
    · rintro ⟨done, a, rest, u, split, -⟩
      exact absurd split.symm (List.append_ne_nil_of_right_ne_nil done (List.cons_ne_nil a rest))
  | cons b l ih =>
    rcases first : exec (body b) s with ⟨exc | _, u⟩
    · rw [forEach_cons, exec_bind_error first]
      constructor
      · rintro ⟨⟩
        exact ⟨[], b, l, s, rfl, rfl, first⟩
      · rintro ⟨_ | ⟨c, done⟩, a, rest, v, split, ran, raised⟩
        · cases split
          cases ran
          exact first.symm.trans raised
        · cases split
          rw [forEach_cons, exec_bind_error first] at ran
          cases ran
    · rw [forEach_cons, exec_bind_ok first, ih]
      constructor
      · rintro ⟨done, a, rest, v, rfl, ran, raised⟩
        refine ⟨b :: done, a, rest, v, rfl, ?_, raised⟩
        rw [forEach_cons, exec_bind_ok first, ran]
      · rintro ⟨_ | ⟨c, done⟩, a, rest, v, split, ran, raised⟩
        · cases split
          cases ran
          rw [first] at raised
          cases raised
        · cases split
          rw [forEach_cons, exec_bind_ok first] at ran
          exact ⟨done, a, rest, v, rfl, ran, raised⟩

/-! ## Contracts -/

/-- From a state in `P`, `m` ends in `Q` if it returns and in `E` if it raises. -/
def Triple (P : σ → Prop) (m : Proc σ ε α) (Q : α → σ → Prop) (E : ε → σ → Prop) : Prop :=
  ∀ s, P s → match exec m s with
    | (.ok a, t) => Q a t
    | (.error e, t) => E e t

/-- `m` keeps `I`, whether it returns or raises. -/
abbrev Keeps (I : σ → Prop) (m : Proc σ ε α) : Prop := Triple I m (fun _ => I) (fun _ => I)

/-- `m` keeps `I`, and leaves `E` where it raises. -/
abbrev Upholds (I E : σ → Prop) (m : Proc σ ε α) : Prop := Triple I m (fun _ => I) (fun _ => E)

variable {P : σ → Prop} {Q : α → σ → Prop} {E : ε → σ → Prop}

theorem Triple.conseq {P' : σ → Prop} {Q' : α → σ → Prop} {E' : ε → σ → Prop} {m : Proc σ ε α}
    (h : Triple P m Q E) (pre : ∀ s, P' s → P s) (post : ∀ a s, Q a s → Q' a s)
    (raise : ∀ e s, E e s → E' e s) : Triple P' m Q' E' := by
  intro s hs
  have body := h s (pre s hs)
  rcases run : exec m s with ⟨e | a, t⟩ <;> rw [run] at body
  · exact raise e t body
  · exact post a t body

theorem Triple.pure {a : α} (h : ∀ s, P s → Q a s) : Triple (ε := ε) P (Pure.pure a) Q E :=
  fun s hs => h s hs

theorem Triple.throw {e : ε} (h : ∀ s, P s → E e s) : Triple (α := α) P (throw e) Q E :=
  fun s hs => h s hs

theorem Triple.get {Q : σ → σ → Prop} (h : ∀ s, P s → Q s s) : Triple (ε := ε) P get Q E :=
  fun s hs => h s hs

theorem Triple.modify {Q : PUnit → σ → Prop} {f : σ → σ} (h : ∀ s, P s → Q ⟨⟩ (f s)) :
    Triple (ε := ε) P (modify f) Q E :=
  fun s hs => h s hs

theorem Triple.bind {R : β → σ → Prop} {m : Proc σ ε α} {f : α → Proc σ ε β}
    (first : Triple P m Q E) (next : ∀ a, Triple (Q a) (f a) R E) : Triple P (m >>= f) R E := by
  intro s hs
  have body := first s hs
  rw [exec_bind]
  rcases run : exec m s with ⟨e | a, t⟩ <;> rw [run] at body
  · exact body
  · exact next a t body

theorem Triple.ite {c : Prop} [Decidable c] {m n : Proc σ ε α} (yes : c → Triple P m Q E)
    (no : ¬ c → Triple P n Q E) : Triple P (if c then m else n) Q E := by
  by_cases h : c
  · rw [if_pos h]; exact yes h
  · rw [if_neg h]; exact no h

/-- A fact of the precondition that is not about the state. -/
theorem Triple.given {p : Prop} {m : Proc σ ε α} (h : p → Triple P m Q E) : Triple (fun s => p ∧ P s) m Q E :=
  fun s hs => h hs.1 s hs.2

theorem Triple.attempt {m : Proc σ ε Unit} {Q : Option ε → σ → Prop}
    (h : Triple P m (fun _ => Q none) (fun e => Q (some e))) : Triple P (attempt m) Q E := by
  intro s hs
  have body := h s hs
  rw [exec_attempt]
  rcases run : exec m s with ⟨e | a, t⟩ <;> rw [run] at body <;> exact body

theorem Triple.swallow {m : Proc σ ε Unit} {Q : Unit → σ → Prop}
    (h : Triple P m Q (fun _ => Q ())) : Triple P (swallow m) Q E := by
  intro s hs
  have body := h s hs
  rw [exec_swallow]
  rcases run : exec m s with ⟨e | a, t⟩ <;> rw [run] at body <;> exact body

theorem Triple.ensuring {m : Proc σ ε α} {final : σ → σ}
    (h : Triple P m (fun a s => Q a (final s)) (fun e s => E e (final s))) :
    Triple P (ensuring m final) Q E := by
  intro s hs
  have body := h s hs
  rw [exec_ensuring]
  rcases run : exec m s with ⟨e | a, t⟩ <;> rw [run] at body <;> exact body

/-- The loop rule: `I rest` holds whenever the elements of `rest` are still to be done. -/
theorem Triple.forEach {I : List α → σ → Prop} {body : α → Proc σ ε Unit} (l : List α)
    (step : ∀ a rest, Triple (I (a :: rest)) (body a) (fun _ => I rest) E) :
    Triple (I l) (forEach l body) (fun _ => I []) E := by
  induction l with
  | nil => exact fun s hs => hs
  | cons a l ih => exact (step a l).bind fun _ => ih

/-- The rule of a loop with an accumulator: `I done b` holds when the elements of `done` are done
and the accumulator is `b`. -/
theorem Triple.foldlM {I : List α → β → σ → Prop} {body : β → α → Proc σ ε β} (l : List α) (init : β)
    (step : ∀ done a, done ++ [a] <+: l → ∀ b, Triple (I done b) (body b a) (I (done ++ [a])) E) :
    Triple (I [] init) (l.foldlM body init) (I l) E := by
  suffices loop : ∀ (rest done : List α) (b : β), done ++ rest = l →
      Triple (I done b) (rest.foldlM body b) (I l) E from loop l [] init rfl
  intro rest
  induction rest with
  | nil =>
    intro done b all
    rw [List.append_nil] at all
    exact all ▸ Triple.pure fun _ hs => hs
  | cons a rest ih =>
    intro done b all
    rw [List.append_cons] at all
    rw [List.foldlM_cons]
    exact (step done a ⟨rest, all⟩ b).bind fun b' => ih (done ++ [a]) b' all

theorem Upholds.bind {I E : σ → Prop} {m : Proc σ ε α} {f : α → Proc σ ε β} (first : Upholds I E m)
    (next : ∀ a, Upholds I E (f a)) : Upholds I E (m >>= f) :=
  Triple.bind first next

theorem Keeps.upholds {I E : σ → Prop} {m : Proc σ ε α} (h : Keeps I m) (raised : ∀ s, I s → E s) : Upholds I E m :=
  h.conseq (fun _ hs => hs) (fun _ _ hs => hs) fun _ => raised

theorem Keeps.pure {I : σ → Prop} (a : α) : Keeps I (Pure.pure a : Proc σ ε α) :=
  Triple.pure fun _ hs => hs

theorem Keeps.bind {I : σ → Prop} {m : Proc σ ε α} {f : α → Proc σ ε β} (first : Keeps I m)
    (next : ∀ a, Keeps I (f a)) : Keeps I (m >>= f) :=
  Triple.bind first next

theorem Keeps.forEach {I : σ → Prop} {body : α → Proc σ ε Unit} (l : List α)
    (step : ∀ a, Keeps I (body a)) : Keeps I (forEach l body) :=
  Triple.forEach (I := fun _ => I) l fun a _ => step a

theorem Keeps.foldlM {I : σ → Prop} {body : β → α → Proc σ ε β} (l : List α) (init : β)
    (step : ∀ b a, Keeps I (body b a)) : Keeps I (l.foldlM body init) := by
  induction l generalizing init with
  | nil => exact .pure init
  | cons a l ih => exact .bind (step init a) ih

theorem Keeps.ite {I : σ → Prop} {c : Prop} [Decidable c] {m n : Proc σ ε α} (yes : Keeps I m) (no : Keeps I n) :
    Keeps I (if c then m else n) :=
  Triple.ite (fun _ => yes) fun _ => no

theorem Keeps.throw {I : σ → Prop} (e : ε) : Keeps I (throw e : Proc σ ε α) :=
  Triple.throw fun _ hs => hs

theorem Keeps.orNone {I : σ → Prop} {m : Proc σ ε α} (h : Keeps I m) : Keeps I (orNone m) := by
  intro s hs
  have body := h s hs
  rcases ran : exec m s with ⟨e | a, t⟩ <;> rw [ran] at body
  · rw [exec_orNone_error ran]
    exact body
  · rw [exec_orNone_ok ran]
    exact body

theorem Keeps.swallow {I : σ → Prop} {m : Proc σ ε Unit} (h : Keeps I m) : Keeps I (swallow m) :=
  Triple.swallow h

theorem Keeps.ensuring {I : σ → Prop} {m : Proc σ ε α} {final : σ → σ} (h : Keeps I m)
    (last : ∀ s, I s → I (final s)) : Keeps I (ensuring m final) :=
  Triple.ensuring (h.conseq (fun _ hs => hs) (fun _ => last) fun _ => last)

theorem Keeps.final {I : σ → Prop} {m : Proc σ ε α} (h : Keeps I m) {s : σ} (hs : I s) :
    I (exec m s).2 := by
  have body := h s hs
  rcases run : exec m s with ⟨_ | _, _⟩ <;> rw [run] at body <;> exact body

end Proc

end Python
