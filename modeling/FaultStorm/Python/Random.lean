import FaultStorm.Python.Proc

/-!
# Exceptions and the `random` module

`random` draws from a stream of numbers, `draws k` being the outcome behind the `k`-th
coming draw; a stream stands for one sequence of random choices, and every sequence of
choices is given by some stream. The state of a drawing procedure is the stream still to
come.
-/

namespace Python

/-- The subclasses of `Exception` that the built-ins, or the code over them, raise. -/
inductive PyExc
  | assertionError
  | attributeError
  | calledProcessError
  | indexError
  | jsonDecodeError
  | keyError
  | overflowError
  | runtimeError
  | timeoutError
  | typeError
  | valueError
  | other (code : Nat)
  deriving DecidableEq, Repr

namespace Random

variable {α : Type}

/-- A procedure that draws random numbers. -/
abbrev Draw (α : Type) := Proc (Nat → Nat) PyExc α

/-- `random._randbelow(n)`: the next draw, a number below `n`. -/
def randbelow (n : Nat) : Draw Nat := do
  let draws ← get
  set fun k => draws (k + 1)
  return draws 0 % n

/-- `random.random() < 0.5`. -/
def coin : Draw Bool := do
  return (← randbelow 2) == 0

/-- `random.randint(lo, hi)`. -/
def randint (lo hi : Int) : Draw Int := do
  if hi < lo then throw .valueError
  return lo + (← randbelow (hi - lo + 1).toNat)

/-- `random.choice(xs)`. -/
def choice : List α → Draw α
  | [] => throw .indexError
  | x :: xs => do
    let i ← randbelow (xs.length + 1)
    return (x :: xs).getD i x

/-- `x[i], x[j] = x[j], x[i]`. -/
def swap (xs : List α) (i j : Nat) : List α :=
  match xs[i]?, xs[j]? with
  | some a, some b => (xs.set i b).set j a
  | _, _ => xs

/-- The loop of `random.shuffle`, from position `i` down to position 1. -/
def shuffleFrom : Nat → List α → Draw (List α)
  | 0, xs => pure xs
  | i + 1, xs => do
    let j ← randbelow (i + 2)
    shuffleFrom i (swap xs (i + 1) j)

/-- `random.shuffle(xs)`, with the shuffled list as the result. -/
def shuffle (xs : List α) : Draw (List α) := shuffleFrom (xs.length - 1) xs

/-- `randint` stays in its range. -/
theorem exec_randint {lo hi : Int} (range : lo ≤ hi) (draws : Nat → Nat) :
    ∃ v, lo ≤ v ∧ v ≤ hi ∧ (randint lo hi).exec draws = (.ok v, fun k => draws (k + 1)) := by
  have below : draws 0 % (hi - lo + 1).toNat < (hi - lo + 1).toNat := Nat.mod_lt _ (by omega)
  refine ⟨lo + (draws 0 % (hi - lo + 1).toNat : Nat), by omega, by omega, ?_⟩
  rw [randint, if_neg (by omega)]
  rfl

theorem exec_choice_nil (draws : Nat → Nat) :
    (choice ([] : List α)).exec draws = (.error .indexError, draws) := rfl

/-- `choice` returns a member of a non-empty list. -/
theorem exec_choice {xs : List α} (nonempty : xs ≠ []) (draws : Nat → Nat) :
    ∃ x ∈ xs, (choice xs).exec draws = (.ok x, fun k => draws (k + 1)) := by
  obtain ⟨x, rest, rfl⟩ := List.exists_cons_of_ne_nil nonempty
  have below : draws 0 % (rest.length + 1) < (x :: rest).length := Nat.mod_lt _ (by omega)
  refine ⟨(x :: rest).getD (draws 0 % (rest.length + 1)) x, ?_, rfl⟩
  rw [List.getD_eq_getElem?_getD, List.getElem?_eq_getElem below]
  exact List.getElem_mem below

/-- `choice` may return any member. -/
theorem exists_choice {xs : List α} {x : α} (member : x ∈ xs) :
    ∃ draws later, (choice xs).exec draws = (.ok x, later) := by
  obtain ⟨i, inside, rfl⟩ := List.getElem_of_mem member
  obtain ⟨y, rest, rfl⟩ := List.exists_cons_of_ne_nil (List.ne_nil_of_mem member)
  refine ⟨fun _ => i, fun _ => i, ?_⟩
  show (Except.ok ((y :: rest).getD (i % (rest.length + 1)) y), _) = _
  have below : i % (rest.length + 1) = i := Nat.mod_eq_of_lt inside
  rw [below, List.getD_eq_getElem?_getD, List.getElem?_eq_getElem inside]
  rfl

theorem swap_perm (xs : List α) (i j : Nat) : (swap xs i j).Perm xs := by
  unfold swap
  split
  · rename_i a b left right
    obtain ⟨hi, rfl⟩ := List.getElem?_eq_some_iff.mp left
    obtain ⟨hj, rfl⟩ := List.getElem?_eq_some_iff.mp right
    exact List.set_set_perm hi hj
  · exact List.Perm.refl xs

/-- `shuffle` returns a rearrangement of its list. -/
theorem exec_shuffle (xs : List α) (draws : Nat → Nat) :
    ∃ ys later, ys.Perm xs ∧ (shuffle xs).exec draws = (.ok ys, later) := by
  have loop : ∀ i (xs : List α) (draws : Nat → Nat),
      ∃ ys later, ys.Perm xs ∧ (shuffleFrom i xs).exec draws = (.ok ys, later) := by
    intro i
    induction i with
    | zero => exact fun xs draws => ⟨xs, draws, List.Perm.refl xs, rfl⟩
    | succ i ih =>
      intro xs draws
      obtain ⟨ys, later, perm, run⟩ := ih (swap xs (i + 1) (draws 0 % (i + 2))) fun k => draws (k + 1)
      exact ⟨ys, later, perm.trans (swap_perm ..), run⟩
  exact loop _ xs draws

end Random

end Python
