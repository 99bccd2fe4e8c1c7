import FaultStorm.Cluster

/-!
# Method bodies

A method of a Python object reads and writes the object, draws random numbers and acts on the
cluster. Attributes that may be missing are chosen by `choose`.
-/

namespace FaultStorm

open Python

/-- A method body of an object of type `α`, over its attributes and the world. -/
abbrev ActionM (α δ : Type) := Proc (α × World Cluster) PyExc δ

section ActionM

variable {α δ : Type}

/-- `self`. -/
def this : ActionM α α := do return (← get).1

/-- Assign attributes of `self`. -/
def assign (f : α → α) : ActionM α Unit := modify fun s => (f s.1, s.2)

/-- A call of the `random` module. -/
def pick (d : Random.Draw δ) : ActionM α δ :=
  Proc.focus (·.2.draws) (fun s draws => (s.1, { s.2 with draws })) d

/-- A call that acts on the cluster. -/
def onCluster (m : ClusterM δ) : ActionM α δ :=
  Proc.focus (·.2.env) (fun s env => (s.1, { s.2 with env })) m

/-- `if self.x is None: self.x = random.choice(options)`, for the attribute `x` that `view` reads
and `put` writes. -/
def choose (view : α → Option String) (put : α → String → α) (options : α → List String) : ActionM α Unit := do
  let a ← this
  if (view a).isNone then
    let v ← pick (Random.choice (options a))
    assign fun a => put a v

@[simp] theorem exec_this (s : α × World Cluster) : this.exec s = (.ok s.1, s) := rfl

@[simp] theorem exec_assign (f : α → α) (s : α × World Cluster) : (assign f).exec s = (.ok (), (f s.1, s.2)) := rfl

@[simp] theorem exec_pick (d : Random.Draw δ) (s : α × World Cluster) :
    (pick d).exec s = ((d.exec s.2.draws).1, s.1, { s.2 with draws := (d.exec s.2.draws).2 }) := rfl

@[simp] theorem exec_onCluster (m : ClusterM δ) (s : α × World Cluster) :
    (onCluster m).exec s = ((m.exec s.2.env).1, s.1, { s.2 with env := (m.exec s.2.env).2 }) := rfl

theorem exec_pick_ok {d : Random.Draw δ} {s : α × World Cluster} {v : δ} {later : Nat → Nat}
    (drawn : d.exec s.2.draws = (.ok v, later)) :
    (pick d).exec s = (.ok v, s.1, { s.2 with draws := later }) := by
  rw [exec_pick, drawn]

theorem exec_pick_error {d : Random.Draw δ} {s : α × World Cluster} {e : PyExc} {later : Nat → Nat}
    (drawn : d.exec s.2.draws = (.error e, later)) :
    (pick d).exec s = (.error e, s.1, { s.2 with draws := later }) := by
  rw [exec_pick, drawn]

section Choose

variable {view : α → Option String} {put : α → String → α} {options : α → List String}

/-- The object that `choose` leaves, drawn from the random numbers alone. -/
def choosing (view : α → Option String) (put : α → String → α) (options : α → List String) (a : α) :
    Random.Draw α :=
  if (view a).isNone then do return put a (← Random.choice (options a)) else pure a

/-- The object is as before, or has one of the options as its attribute. -/
theorem exec_choosing (a : α) (draws : Nat → Nat) :
    (∃ a' later, (a' = a ∧ (view a).isSome ∨ ∃ v ∈ options a, a' = put a v) ∧
        (choosing view put options a).exec draws = (.ok a', later)) ∨
      view a = none ∧ options a = [] ∧ ∃ e later, (choosing view put options a).exec draws = (.error e, later) := by
  unfold choosing
  cases found : view a with
  | some v => exact Or.inl ⟨a, draws, Or.inl ⟨rfl, rfl⟩, rfl⟩
  | none =>
    rw [if_pos Option.isNone_none]
    by_cases empty : options a = []
    · refine Or.inr ⟨rfl, empty, .indexError, draws, ?_⟩
      rw [empty]
      rfl
    · obtain ⟨v, member, drawn⟩ := Random.exec_choice empty draws
      refine Or.inl ⟨put a v, fun k => draws (k + 1), Or.inr ⟨v, member, rfl⟩, ?_⟩
      rw [Proc.exec_bind_ok drawn]
      rfl

/-- An attribute that is set is kept. -/
theorem exec_choosing_set {a : α} (set : view a ≠ none) (draws : Nat → Nat) :
    (choosing view put options a).exec draws = (.ok a, draws) := by
  unfold choosing
  rw [if_neg fun none => set (Option.isNone_iff_eq_none.mp none)]
  rfl

/-- An attribute that is not set is drawn. -/
theorem exec_choosing_unset {a : α} (unset : view a = none) {v : String} {draws later : Nat → Nat}
    (chosen : (Random.choice (options a)).exec draws = (.ok v, later)) :
    (choosing view put options a).exec draws = (.ok (put a v), later) := by
  unfold choosing
  rw [if_pos (Option.isNone_iff_eq_none.mpr unset), Proc.exec_bind_ok chosen]
  rfl

/-- `choose` leaves the object that is drawn. -/
theorem exec_choose (s : α × World Cluster) :
    (choose view put options).exec s = match (choosing view put options s.1).exec s.2.draws with
      | (.ok a, later) => (.ok (), a, { s.2 with draws := later })
      | (.error e, later) => (.error e, s.1, { s.2 with draws := later }) := by
  unfold choose choosing
  rw [Proc.exec_bind_ok (exec_this s)]
  split
  · rw [Proc.exec_bind, Proc.exec_bind, exec_pick]
    rcases (Random.choice (options s.1)).exec s.2.draws with ⟨e | v, later⟩ <;> rfl
  · rfl

theorem exec_choose_of_ok {s : α × World Cluster} {a : α} {later : Nat → Nat}
    (drawn : (choosing view put options s.1).exec s.2.draws = (.ok a, later)) :
    (choose view put options).exec s = (.ok (), a, { s.2 with draws := later }) := by
  rw [exec_choose, drawn]

theorem exec_choose_of_error {s : α × World Cluster} {e : PyExc} {later : Nat → Nat}
    (drawn : (choosing view put options s.1).exec s.2.draws = (.error e, later)) :
    (choose view put options).exec s = (.error e, s.1, { s.2 with draws := later }) := by
  rw [exec_choose, drawn]

/-- An attribute that is set stays as it is. -/
theorem exec_choose_set {s : α × World Cluster} (set : (view s.1).isSome) :
    (choose view put options).exec s = (.ok (), s) :=
  exec_choose_of_ok (exec_choosing_set (Option.isSome_iff_ne_none.mp set) s.2.draws)

/-- A missing attribute is drawn. -/
theorem exec_choose_drawn {s : α × World Cluster} (missing : view s.1 = none) {v : String} {later : Nat → Nat}
    (drawn : (Random.choice (options s.1)).exec s.2.draws = (.ok v, later)) :
    (choose view put options).exec s = (.ok (), put s.1 v, { s.2 with draws := later }) :=
  exec_choose_of_ok (exec_choosing_unset missing drawn)

theorem exec_choose_raises {s : α × World Cluster} (missing : view s.1 = none) {e : PyExc} {later : Nat → Nat}
    (drawn : (Random.choice (options s.1)).exec s.2.draws = (.error e, later)) :
    (choose view put options).exec s = (.error e, s.1, { s.2 with draws := later }) := by
  rw [choose, Proc.exec_bind_ok (exec_this s), if_pos (by rw [missing]; rfl)]
  exact Proc.exec_bind_error (exec_pick_error drawn)

end Choose

end ActionM

end FaultStorm
