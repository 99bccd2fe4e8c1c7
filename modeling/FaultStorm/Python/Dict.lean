import Mathlib.Data.List.Induction
import Mathlib.Data.List.Nodup

/-!
# Dictionaries in insertion order

A `Dict` keeps its items in the order their keys were first written, as Python's `dict`
does, and no key has two items.
-/

namespace Python

/-- A dictionary: its items in insertion order, every key once. -/
structure Dict (κ ν : Type) where
  items : List (κ × ν)
  nodup : (items.map Prod.fst).Nodup
  deriving DecidableEq

namespace Dict

variable {κ ν : Type} [DecidableEq κ]

/-- The items after writing `v` at `k`: in place if `k` is there, else at the end. -/
def setItem (k : κ) (v : ν) : List (κ × ν) → List (κ × ν)
  | [] => [(k, v)]
  | item :: rest => if item.1 = k then (k, v) :: rest else item :: setItem k v rest

theorem keys_setItem (k : κ) (v : ν) (items : List (κ × ν)) :
    (setItem k v items).map Prod.fst =
      if k ∈ items.map Prod.fst then items.map Prod.fst else items.map Prod.fst ++ [k] := by
  induction items with
  | nil => simp [setItem]
  | cons item rest ih =>
    by_cases here : item.1 = k
    · simp [setItem, here]
    · have there : ¬ k = item.1 := fun eq => here eq.symm
      rw [setItem, if_neg here, List.map_cons, ih]
      by_cases later : k ∈ rest.map Prod.fst
      · simp only [if_pos later, List.map_cons, List.mem_cons]
        rw [if_pos (Or.inr later)]
      · rw [if_neg later, List.map_cons, if_neg (by simpa [there] using later), List.cons_append]

theorem nodup_setItem {k : κ} {v : ν} {items : List (κ × ν)} (h : (items.map Prod.fst).Nodup) :
    ((setItem k v items).map Prod.fst).Nodup := by
  rw [keys_setItem]
  split
  · exact h
  · rename_i fresh
    exact List.Nodup.append h (List.nodup_singleton k) (by simpa [List.disjoint_singleton] using fresh)

/-- `{}`. -/
def empty : Dict κ ν := ⟨[], List.nodup_nil⟩

/-- `d[k] = v`. -/
def set (d : Dict κ ν) (k : κ) (v : ν) : Dict κ ν := ⟨setItem k v d.items, nodup_setItem d.nodup⟩

/-- `d.get(k)`. -/
def get? (d : Dict κ ν) (k : κ) : Option ν := d.items.lookup k

/-- `d.get(k, v)`. -/
def getD (d : Dict κ ν) (k : κ) (v : ν) : ν := (d.get? k).getD v

/-- `d.keys()`. -/
def keys (d : Dict κ ν) : List κ := d.items.map Prod.fst

omit [DecidableEq κ] in
@[simp] theorem items_empty : (empty : Dict κ ν).items = [] := rfl

@[simp] theorem get?_empty (k : κ) : (empty : Dict κ ν).get? k = none := rfl

theorem setItem_of_not_mem {k : κ} {v : ν} {items : List (κ × ν)} (fresh : k ∉ items.map Prod.fst) :
    setItem k v items = items ++ [(k, v)] := by
  induction items with
  | nil => rfl
  | cons item items ih =>
    rw [List.map_cons, List.mem_cons, not_or] at fresh
    rw [setItem, if_neg fun eq => fresh.1 eq.symm, ih fresh.2]
    rfl

theorem items_set_of_not_mem {d : Dict κ ν} {k : κ} {v : ν} (fresh : k ∉ d.keys) :
    (d.set k v).items = d.items ++ [(k, v)] :=
  setItem_of_not_mem fresh

theorem keys_set (d : Dict κ ν) (k : κ) (v : ν) :
    (d.set k v).keys = if k ∈ d.keys then d.keys else d.keys ++ [k] :=
  keys_setItem k v d.items

theorem mem_keys_set {d : Dict κ ν} {k j : κ} {v : ν} : j ∈ (d.set k v).keys ↔ j = k ∨ j ∈ d.keys := by
  rw [keys_set]
  split
  · rename_i member
    exact ⟨Or.inr, by rintro (rfl | h) <;> assumption⟩
  · rw [List.mem_append, List.mem_singleton, or_comm]

theorem lookup_setItem (k j : κ) (v : ν) (items : List (κ × ν)) :
    (setItem k v items).lookup j = if j = k then some v else items.lookup j := by
  induction items with
  | nil =>
    by_cases eq : j = k
    · simp [setItem, eq]
    · have miss : (j == k) = false := beq_eq_false_iff_ne.mpr eq
      simp [setItem, eq, List.lookup_cons, miss]
  | cons item rest ih =>
    obtain ⟨i, w⟩ := item
    by_cases here : i = k
    · subst here
      by_cases eq : j = i
      · simp [setItem, eq]
      · have miss : (j == i) = false := beq_eq_false_iff_ne.mpr eq
        simp [setItem, eq, List.lookup_cons, miss]
    · rw [setItem, if_neg here]
      by_cases eq : j = i
      · subst eq
        simp [here]
      · have miss : (j == i) = false := beq_eq_false_iff_ne.mpr eq
        simp only [List.lookup_cons, miss]
        exact ih

/-- Reading after writing. -/
theorem get?_set (d : Dict κ ν) (k j : κ) (v : ν) :
    (d.set k v).get? j = if j = k then some v else d.get? j :=
  lookup_setItem k j v d.items

theorem get?_set_self (d : Dict κ ν) (k : κ) (v : ν) : (d.set k v).get? k = some v := by
  rw [get?_set, if_pos rfl]

theorem lookup_eq_some {items : List (κ × ν)} (h : (items.map Prod.fst).Nodup) {k : κ} {v : ν} :
    items.lookup k = some v ↔ (k, v) ∈ items := by
  induction items with
  | nil => simp
  | cons item rest ih =>
    obtain ⟨i, w⟩ := item
    rw [List.map_cons, List.nodup_cons] at h
    by_cases eq : k = i
    · subst eq
      have fresh : (k, v) ∉ rest := fun member => h.1 (List.mem_map.mpr ⟨_, member, rfl⟩)
      simp [fresh, eq_comm]
    · have miss : (k == i) = false := beq_eq_false_iff_ne.mpr eq
      rw [List.lookup_cons]
      simp [miss, eq, ih h.2]

/-- What a dictionary maps a key to is the item it holds for it. -/
theorem get?_eq_some (d : Dict κ ν) {k : κ} {v : ν} : d.get? k = some v ↔ (k, v) ∈ d.items :=
  lookup_eq_some d.nodup

theorem get?_isSome (d : Dict κ ν) {k : κ} : (d.get? k).isSome = true ↔ k ∈ d.keys := by
  rw [Option.isSome_iff_exists, keys, List.mem_map]
  constructor
  · rintro ⟨v, found⟩
    exact ⟨(k, v), d.get?_eq_some.mp found, rfl⟩
  · rintro ⟨⟨i, v⟩, member, rfl⟩
    exact ⟨v, d.get?_eq_some.mpr member⟩

theorem mem_keys_of_get? {d : Dict κ ν} {k : κ} {v : ν} (found : d.get? k = some v) : k ∈ d.keys :=
  d.get?_isSome.mp (by rw [found]; rfl)

theorem mem_keys_iff (d : Dict κ ν) {k : κ} : k ∈ d.keys ↔ ∃ v, d.get? k = some v := by
  rw [← get?_isSome, Option.isSome_iff_exists]

theorem get?_eq_none (d : Dict κ ν) {k : κ} : d.get? k = none ↔ k ∉ d.keys := by
  rw [← get?_isSome]
  cases d.get? k <;> simp

/-- `del d[k]`, for a key that is there. -/
def erase (d : Dict κ ν) (k : κ) : Dict κ ν where
  items := d.items.filter (·.1 ≠ k)
  nodup := d.nodup.sublist (List.filter_sublist.map _)

theorem get?_erase (d : Dict κ ν) (k j : κ) : (d.erase k).get? j = if j = k then none else d.get? j := by
  apply Option.ext
  intro v
  rw [get?_eq_some]
  by_cases eq : j = k
  · simp [erase, eq]
  · simp [erase, eq, get?_eq_some]

/-- The dictionary built by writing the pairs in order. -/
def ofPairs (pairs : List (κ × ν)) : Dict κ ν := pairs.foldl (fun d p => d.set p.1 p.2) empty

/-- The last pair of a key counts. -/
theorem get?_ofPairs (pairs : List (κ × ν)) (k : κ) : (ofPairs pairs).get? k = pairs.reverse.lookup k := by
  induction pairs using List.reverseRecOn with
  | nil => rfl
  | append_singleton pairs p ih =>
    have last : ofPairs (pairs ++ [p]) = (ofPairs pairs).set p.1 p.2 := by
      rw [ofPairs, List.foldl_append]
      rfl
    rw [last, get?_set, ih, List.reverse_append, List.reverse_singleton, List.singleton_append, List.lookup_cons]
    by_cases here : k = p.1
    · simp [here]
    · have miss : (k == p.1) = false := beq_eq_false_iff_ne.mpr here
      simp [here, miss]

theorem get?_ofPairs_mem {pairs : List (κ × ν)} {k : κ} {v : ν} (found : (ofPairs pairs).get? k = some v) :
    (k, v) ∈ pairs := by
  rw [get?_ofPairs] at found
  generalize order : pairs.reverse = l at found
  have member : (k, v) ∈ l := by
    clear order
    induction l with
    | nil => cases found
    | cons p l ih =>
      rw [List.lookup_cons] at found
      split at found
      · rename_i here
        cases found
        rw [beq_iff_eq.mp here]
        exact List.mem_cons_self
      · exact List.mem_cons_of_mem p (ih found)
  rw [← order] at member
  exact List.mem_reverse.mp member

theorem mem_keys_ofPairs {pairs : List (κ × ν)} {k : κ} : k ∈ (ofPairs pairs).keys ↔ k ∈ pairs.map Prod.fst := by
  have fold : ∀ d : Dict κ ν, k ∈ (pairs.foldl (fun d p => d.set p.1 p.2) d).keys ↔
      k ∈ d.keys ∨ k ∈ pairs.map Prod.fst := by
    induction pairs with
    | nil => simp
    | cons p pairs ih =>
      intro d
      rw [List.foldl_cons, ih, mem_keys_set, List.map_cons, List.mem_cons, ← or_assoc, or_comm (a := k = p.1)]
  rw [ofPairs, fold]
  exact or_iff_right List.not_mem_nil

/-- Pairs that agree on their keys are the items. -/
theorem get?_ofPairs_eq_some {pairs : List (κ × ν)} (agree : ∀ p ∈ pairs, ∀ q ∈ pairs, p.1 = q.1 → p.2 = q.2)
    {k : κ} {v : ν} : (ofPairs pairs).get? k = some v ↔ (k, v) ∈ pairs := by
  constructor
  · exact get?_ofPairs_mem
  · intro member
    have key : k ∈ (ofPairs pairs).keys := mem_keys_ofPairs.mpr (List.mem_map.mpr ⟨_, member, rfl⟩)
    obtain ⟨w, found⟩ := (mem_keys_iff _).mp key
    have same : v = w := agree _ member _ (get?_ofPairs_mem found) rfl
    rw [found, same]

/-- The order of such pairs does not matter. -/
theorem get?_ofPairs_congr {pairs pairs' : List (κ × ν)}
    (agree : ∀ p ∈ pairs, ∀ q ∈ pairs, p.1 = q.1 → p.2 = q.2) (same : ∀ p, p ∈ pairs ↔ p ∈ pairs') (k : κ) :
    (ofPairs pairs).get? k = (ofPairs pairs').get? k := by
  have agree' : ∀ p ∈ pairs', ∀ q ∈ pairs', p.1 = q.1 → p.2 = q.2 := fun p hp q hq =>
    agree p ((same p).mpr hp) q ((same q).mpr hq)
  apply Option.ext
  intro v
  rw [get?_ofPairs_eq_some agree, get?_ofPairs_eq_some agree', same]

/-! ## Grouping -/

/-- `d.setdefault(k, []).append(v)`. -/
def append (d : Dict κ (List ν)) (k : κ) (v : ν) : Dict κ (List ν) := d.set k (d.getD k [] ++ [v])

/-- The values of each key, for the pairs of a list. -/
def group (l : List (ν × κ)) : Dict κ (List ν) := l.foldl (fun d p => d.append p.2 p.1) empty

theorem group_concat (l : List (ν × κ)) (p : ν × κ) : group (l ++ [p]) = (group l).append p.2 p.1 := by
  rw [group, List.foldl_append]
  rfl

/-- The values of a key come in the order of the list. -/
theorem getD_group (l : List (ν × κ)) (k : κ) : (group l).getD k [] = (l.filter (·.2 = k)).map Prod.fst := by
  induction l using List.reverseRecOn with
  | nil => rfl
  | append_singleton l p ih =>
    rw [group_concat, append, List.filter_append, List.map_append, ← ih, getD, get?_set]
    by_cases same : k = p.2
    · simp [same]
    · have other : ¬ p.2 = k := fun eq => same eq.symm
      simp [same, other, getD]

/-- The keys come in the order in which the list first has them. -/
theorem keys_group (l : List (ν × κ)) : (group l).keys = (l.map Prod.snd).eraseDups := by
  induction l using List.reverseRecOn with
  | nil => rfl
  | append_singleton l p ih =>
    rw [group_concat, append, keys_set, ih, List.map_append, List.eraseDups_append]
    by_cases known : p.2 ∈ l.map Prod.snd
    · have old : p.2 ∈ (l.map Prod.snd).eraseDups := List.mem_eraseDups.mpr known
      have nothing : [p.2].removeAll (l.map Prod.snd) = [] := by simpa [List.removeAll] using known
      rw [if_pos old, List.map_singleton, nothing, List.eraseDups_nil, List.append_nil]
    · have fresh : p.2 ∉ (l.map Prod.snd).eraseDups := fun member => known (List.mem_eraseDups.mp member)
      have left : [p.2].removeAll (l.map Prod.snd) = [p.2] := by simpa [List.removeAll] using known
      rw [if_neg fresh, List.map_singleton, left]
      rfl

theorem mem_items_group {l : List (ν × κ)} {k : κ} {vs : List ν} (item : (k, vs) ∈ (group l).items) :
    vs = (l.filter (·.2 = k)).map Prod.fst := by
  rw [← getD_group, getD, (get?_eq_some _).mpr item]
  rfl

end Dict

end Python
