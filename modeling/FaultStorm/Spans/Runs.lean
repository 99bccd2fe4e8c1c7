import Mathlib.Data.List.Induction
import Mathlib.Data.List.Range
import Mathlib.Order.Lattice
import Mathlib.Order.Monotone.Basic
import Mathlib.Tactic.Common

/-!
# Runs of marked places

A walk over the places `0 .. n - 1` that opens a span at the first marked place, closes it at the
next unmarked one and leaves the last span open if the walk ends in it. Together with the span left
open, the spans are the maximal runs of marked places. Where the places are the pieces of a line,
the spans are ranges of its points.
-/

namespace Spans

variable {p : Nat → Bool} {n : Nat} {since : Option Nat} {spans : List (Nat × Nat)}

/-- One place of the walk. -/
def step (p : Nat → Bool) (walk : Option Nat × List (Nat × Nat)) (idx : Nat) : Option Nat × List (Nat × Nat) :=
  match walk.1, p idx with
  | none, false => walk
  | none, true => (some idx, walk.2)
  | some _, true => walk
  | some k, false => (none, walk.2 ++ [(k, idx)])

/-- The walk over the first `n` places. -/
def walk (p : Nat → Bool) (n : Nat) : Option Nat × List (Nat × Nat) := (List.range n).foldl (step p) (none, [])

theorem walk_succ (p : Nat → Bool) (n : Nat) : walk p (n + 1) = step p (walk p n) n := by
  rw [walk, List.range_succ, List.foldl_append]
  rfl

/-- The span left open, up to place `n`. -/
def trailing (since : Option Nat) (n : Nat) : List (Nat × Nat) := since.toList.map (·, n)

/-- Spans of marked places below `n` that are ordered, apart from each other and cover all of them. -/
structure Covers (p : Nat → Bool) (n : Nat) (spans : List (Nat × Nat)) : Prop where
  proper : ∀ x ∈ spans, x.1 < x.2
  apart : spans.Pairwise fun x y => x.2 < y.1
  covers : ∀ j, (∃ x ∈ spans, x.1 ≤ j ∧ j < x.2) ↔ j < n ∧ p j = true

/-- What holds after the first `n` places. -/
structure Walked (p : Nat → Bool) (n : Nat) (since : Option Nat) (spans : List (Nat × Nat)) : Prop where
  covers : Covers p n (spans ++ trailing since n)
  closed : ∀ x ∈ spans, x.2 < n

theorem Covers.skip (h : Covers p n spans) (unmarked : p n = false) : Covers p (n + 1) spans where
  proper := h.proper
  apart := h.apart
  covers j := by
    rw [h.covers]
    constructor
    · rintro ⟨below, marked⟩
      exact ⟨by omega, marked⟩
    · rintro ⟨below, marked⟩
      refine ⟨?_, marked⟩
      by_contra last
      obtain rfl : j = n := by omega
      rw [unmarked] at marked
      cases marked

theorem Covers.start (h : Covers p n spans) (closed : ∀ x ∈ spans, x.2 < n) (marked : p n = true) :
    Covers p (n + 1) (spans ++ [(n, n + 1)]) where
  proper x member := by
    rcases List.mem_append.mp member with old | new
    · exact h.proper x old
    · rw [List.mem_singleton.mp new]
      exact Nat.lt_succ_self n
  apart := by
    rw [List.pairwise_append]
    refine ⟨h.apart, List.pairwise_singleton _ _, fun x old y new => ?_⟩
    rw [List.mem_singleton.mp new]
    exact closed x old
  covers j := by
    have new : (∃ x ∈ [(n, n + 1)], x.1 ≤ j ∧ j < x.2) ↔ j = n := by
      simp only [List.mem_singleton, exists_eq_left]
      omega
    simp only [List.mem_append, or_and_right, exists_or, h.covers, new]
    constructor
    · rintro (⟨below, also⟩ | rfl)
      · exact ⟨by omega, also⟩
      · exact ⟨by omega, marked⟩
    · rintro ⟨below, also⟩
      by_cases last : j = n
      · exact Or.inr last
      · exact Or.inl ⟨by omega, also⟩

theorem Covers.extend {k : Nat} (h : Covers p n (spans ++ [(k, n)])) (marked : p n = true) :
    Covers p (n + 1) (spans ++ [(k, n + 1)]) where
  proper x member := by
    rcases List.mem_append.mp member with old | new
    · exact h.proper x (List.mem_append_left _ old)
    · have before := h.proper (k, n) (by simp)
      rw [List.mem_singleton.mp new]
      exact Nat.lt_succ_of_lt before
  apart := by
    have apart := h.apart
    rw [List.pairwise_append] at apart ⊢
    refine ⟨apart.1, List.pairwise_singleton _ _, fun x old y new => ?_⟩
    rw [List.mem_singleton.mp new]
    exact apart.2.2 x old (k, n) List.mem_cons_self
  covers j := by
    have before := h.proper (k, n) (by simp)
    have all := h.covers j
    have last : ∀ m, (∃ x ∈ [(k, m)], x.1 ≤ j ∧ j < x.2) ↔ k ≤ j ∧ j < m := fun m => by simp
    simp only [List.mem_append, or_and_right, exists_or, last] at all ⊢
    by_cases here : j = n
    · subst here
      exact iff_of_true (Or.inr ⟨by omega, by omega⟩) ⟨by omega, marked⟩
    · rw [show j < n + 1 ↔ j < n by omega, all]

theorem walked (p : Nat → Bool) (n : Nat) : Walked p n (walk p n).1 (walk p n).2 := by
  induction n with
  | zero => exact ⟨⟨by simp [walk, trailing], by simp [walk, trailing], by simp [walk, trailing]⟩, by simp [walk]⟩
  | succ n ih =>
    rw [walk_succ]
    generalize walk p n = w at ih
    obtain ⟨since, spans⟩ := w
    obtain ⟨covers, closed⟩ := ih
    cases since with
    | none =>
      rw [trailing, Option.toList_none, List.map_nil, List.append_nil] at covers
      cases marked : p n with
      | false =>
        simp only [step, marked]
        exact ⟨by simpa [trailing] using covers.skip marked, fun x member => Nat.lt_succ_of_lt (closed x member)⟩
      | true =>
        simp only [step, marked]
        exact ⟨covers.start closed marked, fun x member => Nat.lt_succ_of_lt (closed x member)⟩
    | some k =>
      cases marked : p n with
      | false =>
        simp only [step, marked]
        refine ⟨by simpa [trailing] using covers.skip marked, fun x member => ?_⟩
        rcases List.mem_append.mp member with old | new
        · exact Nat.lt_succ_of_lt (closed x old)
        · rw [List.mem_singleton.mp new]
          exact Nat.lt_succ_self n
      | true =>
        simp only [step, marked]
        exact ⟨covers.extend marked, fun x member => Nat.lt_succ_of_lt (closed x member)⟩

/-- With the span left open, the spans cover the marked places. -/
theorem covers_walk (p : Nat → Bool) (n : Nat) : Covers p n ((walk p n).2 ++ trailing (walk p n).1 n) :=
  (walked p n).covers

/-- A span is left open if the last place is marked. -/
theorem walk_open_iff (p : Nat → Bool) (n : Nat) : (walk p (n + 1)).1.isSome = p n := by
  rw [walk_succ, step]
  rcases walk p n with ⟨_ | k, spans⟩ <;> cases p n <;> rfl

/-! ## Ranges of points -/

section Points

variable {α : Type} [LinearOrder α] {edge : Nat → α} {t : α}

/-- Ranges that are ordered, apart from each other and cover the pieces of the marked places; the
piece of a place begins at its edge and ends at the next one. -/
structure Tiles (edge : Nat → α) (p : Nat → Bool) (n : Nat) (ranges : List (α × α)) : Prop where
  proper : ∀ r ∈ ranges, r.1 < r.2
  apart : ranges.Pairwise fun r s => r.2 < s.1
  covers : ∀ t, (∃ r ∈ ranges, r.1 ≤ t ∧ t < r.2) ↔ ∃ j < n, p j = true ∧ edge j ≤ t ∧ t < edge (j + 1)

/-- The piece of a point between two edges. -/
theorem exists_piece {a b : Nat} (le : edge a ≤ t) (lt : t < edge b) (order : a ≤ b) :
    ∃ j, a ≤ j ∧ j < b ∧ edge j ≤ t ∧ t < edge (j + 1) := by
  induction b, order using Nat.le_induction with
  | base => exact absurd lt (not_lt_of_ge le)
  | succ b order ih =>
    by_cases before : t < edge b
    · obtain ⟨j, from_a, to_b, here⟩ := ih before
      exact ⟨j, from_a, by omega, here⟩
    · exact ⟨b, order, by omega, not_lt.mp before, lt⟩

theorem Covers.tiles (mono : StrictMono edge) (h : Covers p n spans) :
    Tiles edge p n (spans.map fun x => (edge x.1, edge x.2)) where
  proper r member := by
    obtain ⟨x, inside, rfl⟩ := List.mem_map.mp member
    exact mono (h.proper x inside)
  apart := by
    rw [List.pairwise_map]
    exact h.apart.imp fun lt => mono lt
  covers t := by
    constructor
    · rintro ⟨r, member, le, lt⟩
      obtain ⟨x, inside, rfl⟩ := List.mem_map.mp member
      obtain ⟨j, first, last, piece⟩ := exists_piece le lt (Nat.le_of_lt (h.proper x inside))
      obtain ⟨below, marked⟩ := (h.covers j).mp ⟨x, inside, first, last⟩
      exact ⟨j, below, marked, piece⟩
    · rintro ⟨j, below, marked, le, lt⟩
      obtain ⟨x, inside, first, last⟩ := (h.covers j).mpr ⟨below, marked⟩
      refine ⟨_, List.mem_map.mpr ⟨x, inside, rfl⟩, ?_, ?_⟩
      · exact (mono.monotone first).trans le
      · exact lt_of_lt_of_le lt (mono.monotone last)

end Points

end Spans
