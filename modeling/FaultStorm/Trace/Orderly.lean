import Mathlib.Data.List.Nodup

/-!
# Numbered journals

A journal opens its subjects under increasing numbers, and closes a subject at most once, under
the number it was opened with. `Orderly` builds a journal entry by entry; the rules read back
what that says of the positions of its entries.
-/

namespace Trace

variable {ν : Type}

/-- An entry of a journal. -/
structure Mark (ν : Type) where
  number : Nat
  subject : ν
  closing : Bool

inductive Orderly : List (Mark ν) → Prop
  | nil : Orderly []
  | opened {l : List (Mark ν)} {number : Nat} (subject : ν) (h : Orderly l) (fresh : ∀ m ∈ l, m.number < number) :
      Orderly (l ++ [⟨number, subject, false⟩])
  | closed {l : List (Mark ν)} {number : Nat} {subject : ν} (h : Orderly l) (isOpen : ⟨number, subject, false⟩ ∈ l)
      (unclosed : ∀ m ∈ l, m.closing = true → m.number ≠ number) : Orderly (l ++ [⟨number, subject, true⟩])

/-- The entries of a list and its last one. -/
theorem getElem?_append_singleton {α : Type} {l : List α} {a b : α} {i : Nat} (found : (l ++ [a])[i]? = some b) :
    l[i]? = some b ∨ i = l.length ∧ b = a := by
  rcases Nat.lt_trichotomy i l.length with before | rfl | after
  · rw [List.getElem?_append_left before] at found
    exact Or.inl found
  · rw [List.getElem?_append_right (Nat.le_refl _), Nat.sub_self] at found
    exact Or.inr ⟨rfl, (Option.some.inj found).symm⟩
  · rw [List.getElem?_eq_none (by simp; omega)] at found
    cases found

namespace Orderly

variable {l : List (Mark ν)}

/-- Some closings may be left out. -/
theorem filter (h : Orderly l) {keep : Mark ν → Bool} (opens : ∀ m ∈ l, m.closing = false → keep m = true) :
    Orderly (l.filter keep) := by
  induction h with
  | nil => exact .nil
  | @opened l number subject h fresh ih =>
    have kept : keep ⟨number, subject, false⟩ = true := opens _ (by simp) rfl
    rw [List.filter_append, List.filter_singleton, kept]
    exact .opened subject (ih fun m among => opens m (List.mem_append_left _ among))
      fun m among => fresh m (List.mem_filter.mp among).1
  | @closed l number subject h isOpen unclosed ih =>
    have rest := ih fun m among => opens m (List.mem_append_left _ among)
    rw [List.filter_append, List.filter_singleton]
    cases kept : keep ⟨number, subject, true⟩ with
    | false => simpa using rest
    | true =>
      refine .closed rest (List.mem_filter.mpr ⟨isOpen, ?_⟩) fun m among => unclosed m (List.mem_filter.mp among).1
      exact opens _ (List.mem_append_left _ isOpen) rfl

/-- The numbers of the openings go up. -/
theorem increasing (h : Orderly l) : ((l.filter (! ·.closing)).map Mark.number).Pairwise (· < ·) := by
  induction h with
  | nil => exact List.Pairwise.nil
  | @opened l number subject h fresh ih =>
    rw [List.filter_append, List.map_append, List.pairwise_append]
    refine ⟨ih, List.pairwise_singleton _ _, fun n among k new => ?_⟩
    obtain ⟨m, kept, rfl⟩ := List.mem_map.mp among
    have number : k = number := by simpa using new
    rw [number]
    exact fresh m (List.mem_filter.mp kept).1
  | closed h isOpen unclosed ih =>
    rw [List.filter_append]
    simpa using ih

/-- No number is closed twice. -/
theorem once (h : Orderly l) : ((l.filter (·.closing)).map Mark.number).Nodup := by
  induction h with
  | nil => exact List.nodup_nil
  | opened subject h fresh ih =>
    rw [List.filter_append]
    simpa using ih
  | @closed l number subject h isOpen unclosed ih =>
    rw [List.filter_append, List.map_append]
    refine List.Nodup.append ih (List.nodup_singleton _) (List.disjoint_singleton.mpr fun among => ?_)
    obtain ⟨m, kept, same⟩ := List.mem_map.mp among
    exact unclosed m (List.mem_filter.mp kept).1 (List.mem_filter.mp kept).2 same

/-- A number has one opening and at most one closing. -/
theorem position (h : Orderly l) {i j : Nat} {m k : Mark ν} (hi : l[i]? = some m) (hj : l[j]? = some k)
    (kind : m.closing = k.closing) (number : m.number = k.number) : i = j := by
  -- the entry added last has no earlier entry of its kind and number
  have step : ∀ {l : List (Mark ν)} {a : Mark ν}, (∀ m ∈ l, m.closing = a.closing → m.number ≠ a.number) →
      (∀ {i j : Nat} {m k : Mark ν}, l[i]? = some m → l[j]? = some k → m.closing = k.closing →
        m.number = k.number → i = j) →
      ∀ {i j : Nat} {m k : Mark ν}, (l ++ [a])[i]? = some m → (l ++ [a])[j]? = some k → m.closing = k.closing →
        m.number = k.number → i = j := by
    intro l a new ih i j m k hi hj kind number
    rcases getElem?_append_singleton hi with old | ⟨rfl, rfl⟩ <;>
      rcases getElem?_append_singleton hj with old' | ⟨rfl, rfl⟩
    · exact ih old old' kind number
    · exact absurd number (new m (List.mem_of_getElem? old) kind)
    · exact absurd number.symm (new k (List.mem_of_getElem? old') kind.symm)
    · rfl
  induction h generalizing i j m k with
  | nil => cases hi
  | opened subject h fresh ih =>
    exact step (fun m among _ => Nat.ne_of_lt (fresh m among)) ih hi hj kind number
  | closed h isOpen unclosed ih =>
    exact step (fun m among => unclosed m among) ih hi hj kind number

/-- A closing comes after the opening of its number. -/
theorem opened_before (h : Orderly l) {i : Nat} {m : Mark ν} (hi : l[i]? = some m) (closing : m.closing = true) :
    ∃ j < i, l[j]? = some ⟨m.number, m.subject, false⟩ := by
  have earlier : ∀ {l : List (Mark ν)} {a : Mark ν} {j : Nat} {m : Mark ν}, l[j]? = some m → (l ++ [a])[j]? = some m := by
    intro l a j m found
    rw [List.getElem?_append_left (List.getElem?_eq_some_iff.mp found).1]
    exact found
  induction h generalizing i m with
  | nil => cases hi
  | opened subject h fresh ih =>
    rcases getElem?_append_singleton hi with hi | ⟨rfl, rfl⟩
    · obtain ⟨j, before, found⟩ := ih hi closing
      exact ⟨j, before, earlier found⟩
    · cases closing
  | closed h isOpen unclosed ih =>
    rcases getElem?_append_singleton hi with hi | ⟨rfl, rfl⟩
    · obtain ⟨j, before, found⟩ := ih hi closing
      exact ⟨j, before, earlier found⟩
    · obtain ⟨j, found⟩ := List.mem_iff_getElem?.mp isOpen
      exact ⟨j, (List.getElem?_eq_some_iff.mp found).1, earlier found⟩

/-- A number stands for one subject. -/
theorem subject (h : Orderly l) {m k : Mark ν} (hm : m ∈ l) (hk : k ∈ l) (number : m.number = k.number) :
    m.subject = k.subject := by
  have opening : ∀ m ∈ l, ∃ i : Nat, l[i]? = some (⟨m.number, m.subject, false⟩ : Mark ν) := by
    rintro ⟨n, subject, closing⟩ among
    obtain ⟨i, found⟩ := List.mem_iff_getElem?.mp among
    cases closing with
    | false => exact ⟨i, found⟩
    | true =>
      obtain ⟨j, _, opened⟩ := h.opened_before found rfl
      exact ⟨j, opened⟩
  obtain ⟨i, hi⟩ := opening m hm
  obtain ⟨j, hj⟩ := opening k hk
  obtain rfl := h.position hi hj rfl number
  have same := Option.some.inj (hi.symm.trans hj)
  exact (Mark.mk.inj same).2.1

end Orderly

end Trace
