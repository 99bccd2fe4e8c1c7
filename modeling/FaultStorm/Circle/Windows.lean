import Mathlib.Data.Fintype.Fin
import Mathlib.Data.ZMod.Defs

/-!
# Windows of a circle

The windows of `w` consecutive places on a circle of `n` places, one starting at each place.
Every place lies in as many windows as a window has places, and two places lie in each other's
windows only if the distances both ways round fit in one.
-/

namespace FaultStorm.Circle

variable {n w : Nat} {i j p : Fin n}

/-- The `w` places from `i` on. -/
def window (w : Nat) (i : Fin n) : Finset (Fin n) := Finset.univ.filter fun p => (p - i).val < w

@[simp] theorem mem_window : p ∈ window w i ↔ (p - i).val < w := by
  simp [window]

/-! ## Distances -/

/-- How far `p` is after `i`. -/
theorem sub_val (p i : Fin n) : (p - i).val = if i.val ≤ p.val then p.val - i.val else n + p.val - i.val := by
  have here := i.isLt
  have there := p.isLt
  rw [Fin.sub_def]
  show (n - i.val + p.val) % n = _
  split
  · have around : n - i.val + p.val = p.val - i.val + n := by omega
    rw [around, Nat.add_mod_right, Nat.mod_eq_of_lt (by omega)]
  · rw [Nat.mod_eq_of_lt (by omega)]
    omega

/-- There and back is once round. -/
theorem sub_val_add (ne : p ≠ i) : (p - i).val + (i - p).val = n := by
  have apart : p.val ≠ i.val := fun eq => ne (Fin.ext eq)
  have here := i.isLt
  have there := p.isLt
  rw [sub_val, sub_val]
  split <;> split <;> omega

/-- Going `k` steps from `i`. -/
theorem sub_val_eq {k : Nat} (below : k < n) : (p - i).val = k ↔ (i.val + k) % n = p.val := by
  have here := i.isLt
  have there := p.isLt
  rw [sub_val]
  rcases Nat.lt_or_ge (i.val + k) n with short | round
  · rw [Nat.mod_eq_of_lt short]
    split <;> omega
  · rw [Nat.mod_eq_sub_mod round, Nat.mod_eq_of_lt (by omega)]
    split <;> omega

/-! ## Counting -/

section Counting

variable [NeZero n]

theorem card_window (fits : w ≤ n) (i : Fin n) : (window w i).card = w := by
  have shifted : (window w i).card = (Finset.univ.filter fun d : Fin n => d.val < w).card := by
    apply Finset.card_equiv (Equiv.subRight i)
    intro p
    simp
  rw [shifted, Fin.card_filter_val_lt]
  exact Nat.min_eq_right fits

/-- As many windows have a place in them. -/
theorem card_covering (fits : w ≤ n) (p : Fin n) : (Finset.univ.filter fun i => p ∈ window w i).card = w := by
  have reflected : (Finset.univ.filter fun i => p ∈ window w i).card =
      (Finset.univ.filter fun d : Fin n => d.val < w).card := by
    apply Finset.card_equiv (Equiv.subLeft p)
    intro i
    simp
  rw [reflected, Fin.card_filter_val_lt]
  exact Nat.min_eq_right fits

/-- A window starts at the place in it with the place before outside. -/
theorem start_iff (some : 0 < w) (part : w < n) : p = i ↔ p ∈ window w i ∧ p - 1 ∉ window w i := by
  have one : (1 : Fin n).val = 1 := by
    rw [Fin.val_one', Nat.mod_eq_of_lt (by omega)]
  have before := sub_val p 1
  rw [one] at before
  have here := i.isLt
  have there := p.isLt
  rw [mem_window, mem_window, sub_val p i, sub_val (p - 1) i, before, Fin.ext_iff]
  constructor
  · intro same
    split <;> split <;> split <;> omega
  · intro inside
    split at inside <;> split at inside <;> split at inside <;> omega

/-- A window that is not the whole circle tells where it starts. -/
theorem window_injective (some : 0 < w) (part : w < n) : Function.Injective (window w : Fin n → Finset (Fin n)) := by
  intro i j same
  rw [start_iff some part, ← same]
  exact (start_iff some part).mp rfl

end Counting

/-! ## Seeing each other -/

/-- Places in each other's windows, for windows of just more than half of the circle: they are
opposite. -/
theorem mutual_iff (ne : p ≠ i) : p ∈ window (n / 2 + 1) i ∧ i ∈ window (n / 2 + 1) p ↔ 2 * (p - i).val = n := by
  have round := sub_val_add ne
  simp only [mem_window]
  omega

/-- There is one opposite place on a circle with an even number of places. -/
theorem opposite_iff (even : n % 2 = 0) (i p : Fin n) : 2 * (p - i).val = n ↔ (i.val + n / 2) % n = p.val := by
  have some := i.isLt
  rw [← sub_val_eq (by omega)]
  omega

end FaultStorm.Circle
