import Mathlib.Data.List.Basic

/-!
# Regular expressions by backtracking

The part of the `re` module that patterns over single-character repetitions need: classes,
sequences, alternatives, greedy and lazy repetition of a class, named groups, `^` and `\b`.
`run` tries the alternatives in the order `re` does; `Matches` says which stretches of text
a pattern can match at all, and `run_sound` relates the two.
-/

namespace Python

/-- A pattern. `many true p` is `[p]*` and `many false p` is `[p]*?`. -/
inductive Regex
  | empty
  | char (p : Char → Bool)
  | seq (r s : Regex)
  | alt (r s : Regex)
  | many (greedy : Bool) (p : Char → Bool)
  | group (name : String) (r : Regex)
  | start
  | boundary (word : Char → Bool)

/-- A position in a text: the character before it, if any, and the text after it. -/
structure Cursor where
  before : Option Char
  rest : List Char
  deriving DecidableEq

/-- The texts of the groups closed so far. -/
abbrev Groups := List (String × List Char)

/-- `m.group(name)`. -/
def Groups.text (g : Groups) (name : String) : List Char := (g.lookup name).getD []

namespace Regex

variable {γ : Type}

/-- The literal text `s`. -/
def lit (s : List Char) : Regex := s.foldr (fun c r => .seq (.char (· == c)) r) .empty

/-- `[p]+`. -/
def some1 (p : Char → Bool) : Regex := .seq (.char p) (.many true p)

/-- `[p]{n}`. -/
def times (p : Char → Bool) : Nat → Regex
  | 0 => .empty
  | n + 1 => .seq (.char p) (times p n)

/-- As many characters of `p` as `k` allows, the longest run first. -/
def runGreedy (p : Char → Bool) (k : Cursor → Option γ) : Option Char → List Char → Option γ
  | before, [] => k ⟨before, []⟩
  | before, c :: rest =>
    if p c then (runGreedy p k (some c) rest).orElse fun _ => k ⟨before, c :: rest⟩
    else k ⟨before, c :: rest⟩

/-- As few characters of `p` as `k` allows, the shortest run first. -/
def runLazy (p : Char → Bool) (k : Cursor → Option γ) : Option Char → List Char → Option γ
  | before, [] => k ⟨before, []⟩
  | before, c :: rest =>
    (k ⟨before, c :: rest⟩).orElse fun _ => if p c then runLazy p k (some c) rest else none

/-- Whether exactly one side of the cursor is a word character. -/
def atBoundary (word : Char → Bool) (c : Cursor) : Bool :=
  (c.before.any word) != (c.rest.head?.any word)

/-- The first way to match `r` at the cursor after which `k` succeeds. -/
def run : Regex → Cursor → Groups → (Cursor → Groups → Option γ) → Option γ
  | .empty, c, g, k => k c g
  | .char p, ⟨_, x :: rest⟩, g, k => if p x then k ⟨some x, rest⟩ g else none
  | .char _, ⟨_, []⟩, _, _ => none
  | .seq r s, c, g, k => run r c g fun c g => run s c g k
  | .alt r s, c, g, k => (run r c g k).orElse fun _ => run s c g k
  | .many true p, c, g, k => runGreedy p (k · g) c.before c.rest
  | .many false p, c, g, k => runLazy p (k · g) c.before c.rest
  | .group name r, c, g, k =>
    run r c g fun d g => k d (g ++ [(name, c.rest.take (c.rest.length - d.rest.length))])
  | .start, c, g, k => if c.before.isNone then k c g else none
  | .boundary word, c, g, k => if atBoundary word c then k c g else none

/-- The match at the cursor, if there is one: where it ends, and its groups. -/
def matchAt (r : Regex) (c : Cursor) : Option (Cursor × Groups) :=
  run r c [] fun d g => some (d, g)

/-- The scan of `finditer` from the cursor, for `fuel` more positions at most. -/
def finditerFrom (r : Regex) : Nat → Cursor → List Groups
  | 0, _ => []
  | fuel + 1, c => match r.matchAt c, c.rest with
    | some (d, g), rest =>
      if d.rest.length < rest.length then g :: finditerFrom r fuel d
      else g :: match rest with
        | [] => []
        | x :: rest => finditerFrom r fuel ⟨some x, rest⟩
    | none, [] => []
    | none, x :: rest => finditerFrom r fuel ⟨some x, rest⟩

/-- `r.finditer(text)`: the groups of the matches, from left to right. -/
def finditer (r : Regex) (text : List Char) : List Groups :=
  finditerFrom r (text.length + 1) ⟨none, text⟩

/-- The scan of `sub("", ..)` from the cursor. -/
def removeFrom (r : Regex) : Nat → Cursor → List Char
  | 0, c => c.rest
  | fuel + 1, c => match r.matchAt c, c.rest with
    | some (d, _), rest =>
      if d.rest.length < rest.length then removeFrom r fuel d
      else match rest with
        | [] => []
        | x :: rest => x :: removeFrom r fuel ⟨some x, rest⟩
    | none, [] => []
    | none, x :: rest => x :: removeFrom r fuel ⟨some x, rest⟩

/-- `r.sub("", text)`. -/
def remove (r : Regex) (text : List Char) : List Char := removeFrom r (text.length + 1) ⟨none, text⟩

/-! ## What a pattern can match -/

/-- `Matches r c d`: the text between the cursors `c` and `d` is matched by `r`. -/
inductive Matches : Regex → Cursor → Cursor → Prop
  | empty (c : Cursor) : Matches .empty c c
  | char {p : Char → Bool} {b : Option Char} {x : Char} {rest : List Char} (ok : p x = true) :
      Matches (.char p) ⟨b, x :: rest⟩ ⟨some x, rest⟩
  | seq {r s : Regex} {c d e : Cursor} : Matches r c d → Matches s d e → Matches (.seq r s) c e
  | altLeft {r s : Regex} {c d : Cursor} : Matches r c d → Matches (.alt r s) c d
  | altRight {r s : Regex} {c d : Cursor} : Matches s c d → Matches (.alt r s) c d
  | manyNil {g : Bool} {p : Char → Bool} (c : Cursor) : Matches (.many g p) c c
  | manyCons {g : Bool} {p : Char → Bool} {b : Option Char} {x : Char} {rest : List Char} {d : Cursor}
      (ok : p x = true) :
      Matches (.many g p) ⟨some x, rest⟩ d → Matches (.many g p) ⟨b, x :: rest⟩ d
  | group {name : String} {r : Regex} {c d : Cursor} : Matches r c d → Matches (.group name r) c d
  | start {c : Cursor} (first : c.before = none) : Matches .start c c
  | boundary {word : Char → Bool} {c : Cursor} (at_ : atBoundary word c = true) :
      Matches (.boundary word) c c

/-- Which alternative an `orElse` took. -/
theorem orElse_cases {a : Option γ} {f : Unit → Option γ} {v : γ} (found : a.orElse f = some v) :
    a = some v ∨ a = none ∧ f () = some v := by
  cases a with
  | none => exact Or.inr ⟨rfl, found⟩
  | some w => exact Or.inl found

theorem runGreedy_sound (g : Bool) {p : Char → Bool} {k : Cursor → Option γ} {v : γ} :
    ∀ {before rest}, runGreedy p k before rest = some v →
      ∃ d, Matches (.many g p) ⟨before, rest⟩ d ∧ k d = some v := by
  intro before rest
  induction rest generalizing before with
  | nil => exact fun found => ⟨_, .manyNil _, found⟩
  | cons c rest ih =>
    intro found
    rw [runGreedy] at found
    split at found
    · rename_i ok
      rcases orElse_cases found with longer | ⟨_, here⟩
      · obtain ⟨d, tail, done⟩ := ih longer
        exact ⟨d, .manyCons ok tail, done⟩
      · exact ⟨_, .manyNil _, here⟩
    · exact ⟨_, .manyNil _, found⟩

theorem runLazy_sound (g : Bool) {p : Char → Bool} {k : Cursor → Option γ} {v : γ} :
    ∀ {before rest}, runLazy p k before rest = some v →
      ∃ d, Matches (.many g p) ⟨before, rest⟩ d ∧ k d = some v := by
  intro before rest
  induction rest generalizing before with
  | nil => exact fun found => ⟨_, .manyNil _, found⟩
  | cons c rest ih =>
    intro found
    rw [runLazy] at found
    rcases orElse_cases found with here | ⟨_, longer⟩
    · exact ⟨_, .manyNil _, here⟩
    · split at longer
      · rename_i ok
        obtain ⟨d, tail, done⟩ := ih longer
        exact ⟨d, .manyCons ok tail, done⟩
      · cases longer

/-- What `run` finds is a match of the pattern. -/
theorem run_sound (r : Regex) : ∀ {c : Cursor} {g : Groups} {k : Cursor → Groups → Option γ} {v : γ},
    run r c g k = some v → ∃ d h, Matches r c d ∧ k d h = some v := by
  induction r with
  | empty => exact fun found => ⟨_, _, .empty _, found⟩
  | char p =>
    intro c g k v found
    obtain ⟨before, _ | ⟨x, rest⟩⟩ := c
    · cases found
    · rw [run] at found
      split at found
      · exact ⟨_, _, .char ‹_›, found⟩
      · cases found
  | seq r s ihr ihs =>
    intro c g k v found
    obtain ⟨d, _, first, found⟩ := ihr found
    obtain ⟨e, h, second, done⟩ := ihs found
    exact ⟨e, h, .seq first second, done⟩
  | alt r s ihr ihs =>
    intro c g k v found
    rw [run] at found
    rcases orElse_cases found with found | ⟨_, found⟩
    · obtain ⟨d, h, m, done⟩ := ihr found
      exact ⟨d, h, .altLeft m, done⟩
    · obtain ⟨d, h, m, done⟩ := ihs found
      exact ⟨d, h, .altRight m, done⟩
  | many greedy p =>
    intro c g k v found
    cases greedy with
    | true =>
      obtain ⟨d, m, done⟩ := runGreedy_sound true (k := (k · g)) found
      exact ⟨d, g, m, done⟩
    | false =>
      obtain ⟨d, m, done⟩ := runLazy_sound false (k := (k · g)) found
      exact ⟨d, g, m, done⟩
  | group name r ih =>
    intro c g k v found
    obtain ⟨d, h, m, done⟩ := ih found
    exact ⟨d, _, .group m, done⟩
  | start =>
    intro c g k v found
    rw [run] at found
    split at found
    · exact ⟨_, _, .start (Option.isNone_iff_eq_none.mp ‹_›), found⟩
    · cases found
  | boundary word =>
    intro c g k v found
    rw [run] at found
    split at found
    · exact ⟨_, _, .boundary ‹_›, found⟩
    · cases found

theorem matchAt_sound {r : Regex} {c d : Cursor} {g : Groups} (found : r.matchAt c = some (d, g)) :
    Matches r c d := by
  obtain ⟨e, h, m, done⟩ := run_sound r found
  cases done
  exact m

theorem matchAt_eq_none {r : Regex} {c : Cursor} (none_here : ∀ d, ¬ Matches r c d) : r.matchAt c = none := by
  cases found : r.matchAt c with
  | none => rfl
  | some m => exact absurd (matchAt_sound found) (none_here m.1)

/-- A match leaves a suffix of the text. -/
theorem Matches.suffix {r : Regex} {c d : Cursor} (m : Matches r c d) :
    ∃ eaten, c.rest = eaten ++ d.rest := by
  induction m with
  | empty | manyNil | start | boundary => exact ⟨[], rfl⟩
  | @char _ _ x _ _ => exact ⟨[x], rfl⟩
  | seq _ _ first second =>
    obtain ⟨a, ha⟩ := first
    obtain ⟨b, hb⟩ := second
    exact ⟨a ++ b, by rw [ha, hb, List.append_assoc]⟩
  | altLeft _ ih | altRight _ ih | group _ ih => exact ih
  | @manyCons _ _ _ x _ _ _ _ ih =>
    obtain ⟨a, ha⟩ := ih
    exact ⟨x :: a, congrArg (x :: ·) ha⟩

/-- `finditer` finds nothing in a text no suffix of which starts a match. -/
theorem finditer_eq_nil {r : Regex} {text : List Char}
    (none_at : ∀ c d, c.rest <:+ text → ¬ Matches r c d) : r.finditer text = [] := by
  have scan : ∀ fuel c, c.rest <:+ text → finditerFrom r fuel c = [] := by
    intro fuel
    induction fuel with
    | zero => exact fun _ _ => rfl
    | succ fuel ih =>
      intro c inside
      have miss : r.matchAt c = none := matchAt_eq_none fun d => none_at c d inside
      obtain ⟨before, _ | ⟨x, rest⟩⟩ := c
      · simp [finditerFrom, miss]
      · simp only [finditerFrom, miss]
        exact ih _ ((List.suffix_cons x rest).trans inside)
  exact scan _ _ (List.suffix_refl text)

/-! ## Inversion -/

theorem Matches.seq_inv {r s : Regex} {c e : Cursor} (m : Matches (.seq r s) c e) :
    ∃ d, Matches r c d ∧ Matches s d e := by
  cases m with
  | seq first second => exact ⟨_, first, second⟩

theorem Matches.lit_inv {s : List Char} {c d : Cursor} (m : Matches (lit s) c d) :
    c.rest = s ++ d.rest := by
  induction s generalizing c with
  | nil => cases m; rfl
  | cons x s ih =>
    obtain ⟨e, first, second⟩ := m.seq_inv
    cases first with
    | char ok => rw [List.cons_append, ← ih second, beq_iff_eq.mp ok]

theorem Matches.many_inv {g : Bool} {p : Char → Bool} {c d : Cursor} (m : Matches (.many g p) c d) :
    ∃ eaten, c.rest = eaten ++ d.rest ∧ ∀ x ∈ eaten, p x = true := by
  generalize shape : Regex.many g p = r at m
  induction m with
  | manyNil => exact ⟨[], rfl, by simp⟩
  | @manyCons _ _ _ x _ _ ok _ ih =>
    cases shape
    obtain ⟨eaten, split, all⟩ := ih rfl
    refine ⟨x :: eaten, congrArg (x :: ·) split, ?_⟩
    intro y member
    rcases List.mem_cons.mp member with rfl | member
    · exact ok
    · exact all y member
  | _ => cases shape

theorem Matches.some1_inv {p : Char → Bool} {c d : Cursor} (m : Matches (some1 p) c d) :
    ∃ eaten, eaten ≠ [] ∧ c.rest = eaten ++ d.rest ∧ ∀ x ∈ eaten, p x = true := by
  obtain ⟨e, first, second⟩ := m.seq_inv
  obtain ⟨eaten, split, all⟩ := second.many_inv
  cases first with
  | @char _ _ x _ ok =>
    refine ⟨x :: eaten, by simp, congrArg (x :: ·) split, ?_⟩
    intro y member
    rcases List.mem_cons.mp member with rfl | member
    · exact ok
    · exact all y member

theorem Matches.times_inv {p : Char → Bool} {n : Nat} {c d : Cursor} (m : Matches (times p n) c d) :
    ∃ eaten, eaten.length = n ∧ c.rest = eaten ++ d.rest ∧ ∀ x ∈ eaten, p x = true := by
  induction n generalizing c with
  | zero => cases m; exact ⟨[], rfl, rfl, by simp⟩
  | succ n ih =>
    obtain ⟨e, first, second⟩ := m.seq_inv
    obtain ⟨eaten, length, split, all⟩ := ih second
    cases first with
    | @char _ _ x _ ok =>
      refine ⟨x :: eaten, by simp [length], congrArg (x :: ·) split, ?_⟩
      intro y member
      rcases List.mem_cons.mp member with rfl | member
      · exact ok
      · exact all y member

/-! ## Runs that never backtrack -/

theorem run_lit (s rest : List Char) (before : Option Char) (g : Groups) (k : Cursor → Groups → Option γ) :
    run (lit s) ⟨before, s ++ rest⟩ g k = k ⟨s.getLast?.or before, rest⟩ g := by
  induction s generalizing before with
  | nil => rfl
  | cons c s ih =>
    rw [lit, List.foldr_cons, List.cons_append, run, run, if_pos (by simp)]
    refine (ih (some c)).trans ?_
    cases s with
    | nil => rfl
    | cons d s => simp [List.getLast?_eq_some_getLast]

/-- A greedy run stops at the first character outside its class, if `k` succeeds there. -/
theorem runGreedy_stop {p : Char → Bool} {k : Cursor → Option γ} {s rest : List Char} {v : γ}
    {before : Option Char} (inside : ∀ c ∈ s, p c = true) (outside : ∀ h : rest ≠ [], p (rest.head h) = false)
    (done : k ⟨s.getLast?.or before, rest⟩ = some v) :
    runGreedy p k before (s ++ rest) = some v := by
  induction s generalizing before with
  | nil =>
    cases rest with
    | nil => exact done
    | cons c rest => rw [List.nil_append, runGreedy, if_neg (by simpa using outside (by simp))]; exact done
  | cons c s ih =>
    have tail : runGreedy p k (some c) (s ++ rest) = some v := by
      refine ih (fun d member => inside d (List.mem_cons_of_mem c member)) ?_
      cases s with
      | nil => exact done
      | cons d s => simpa [List.getLast?_cons_cons, List.getLast?_eq_some_getLast] using done
    rw [List.cons_append, runGreedy, if_pos (inside c (by simp)), tail]
    rfl

/-- A literal does not match where another character comes first. -/
theorem run_lit_ne {s rest : List Char} {x c : Char} (ne : c ≠ x) (b : Option Char) (g : Groups)
    (k : Cursor → Groups → Option γ) : run (lit (x :: s)) ⟨b, c :: rest⟩ g k = none := by
  rw [lit, List.foldr_cons, run, run, if_neg (by simpa using ne)]

/-- `[p]+` takes a whole run of `p`, if `k` succeeds behind it. -/
theorem run_some1 {p : Char → Bool} {k : Cursor → Groups → Option γ} {w rest : List Char} {g : Groups} {v : γ}
    {b : Option Char} (nonempty : w ≠ []) (inside : ∀ c ∈ w, p c = true)
    (outside : ∀ h : rest ≠ [], p (rest.head h) = false) (done : k ⟨w.getLast?.or b, rest⟩ g = some v) :
    run (some1 p) ⟨b, w ++ rest⟩ g k = some v := by
  obtain ⟨c, w, rfl⟩ := List.exists_cons_of_ne_nil nonempty
  have tail : runGreedy p (k · g) (some c) (w ++ rest) = some v := by
    refine runGreedy_stop (fun d member => inside d (List.mem_cons_of_mem c member)) outside ?_
    cases w with
    | nil => exact done
    | cons d w => simpa [List.getLast?_cons_cons, List.getLast?_eq_some_getLast] using done
  rw [some1, List.cons_append, run, run, if_pos (inside c List.mem_cons_self), run]
  exact tail

/-- The group of a run of `p` holds the run. -/
theorem run_group_some1 {p : Char → Bool} {k : Cursor → Groups → Option γ} {w rest : List Char} {g : Groups} {v : γ}
    {b : Option Char} {name : String} (nonempty : w ≠ []) (inside : ∀ c ∈ w, p c = true)
    (outside : ∀ h : rest ≠ [], p (rest.head h) = false)
    (done : k ⟨w.getLast?.or b, rest⟩ (g ++ [(name, w)]) = some v) :
    run (.group name (some1 p)) ⟨b, w ++ rest⟩ g k = some v := by
  rw [run]
  refine run_some1 nonempty inside outside ?_
  have text : (w ++ rest).take ((w ++ rest).length - rest.length) = w := by
    rw [List.length_append, Nat.add_sub_cancel, List.take_left]
  dsimp only
  rw [text]
  exact done

/-- A lazy run passes what `k` does not accept. -/
theorem runLazy_skip {p : Char → Bool} {k : Cursor → Option γ} {x : Char}
    (fails : ∀ b c rest, c ≠ x → k ⟨b, c :: rest⟩ = none) {s rest : List Char} {b : Option Char}
    (plain : ∀ c ∈ s, p c = true ∧ c ≠ x) :
    runLazy p k b (s ++ rest) = runLazy p k (s.getLast?.or b) rest := by
  induction s generalizing b with
  | nil => rfl
  | cons c s ih =>
    obtain ⟨accepted, ne⟩ := plain c List.mem_cons_self
    rw [List.cons_append, runLazy, fails b c _ ne, if_pos accepted]
    refine (ih fun d member => plain d (List.mem_cons_of_mem c member)).trans ?_
    cases s with
    | nil => rfl
    | cons d s => simp [List.getLast?_eq_some_getLast]

/-- A lazy run ends as soon as `k` succeeds. -/
theorem runLazy_stop {p : Char → Bool} {k : Cursor → Option γ} {rest : List Char} {b : Option Char} {v : γ}
    (done : k ⟨b, rest⟩ = some v) : runLazy p k b rest = some v := by
  cases rest with
  | nil => exact done
  | cons c rest => rw [runLazy, done]; rfl

/-! ## Scanning -/

/-- The scan passes a stretch in which no match starts. -/
theorem finditerFrom_skip {r : Regex} {s rest : List Char} {b : Option Char} (fuel : Nat)
    (miss : ∀ b u v, s = u ++ v → v ≠ [] → r.matchAt ⟨b, v ++ rest⟩ = none) :
    finditerFrom r (fuel + s.length) ⟨b, s ++ rest⟩ = finditerFrom r fuel ⟨s.getLast?.or b, rest⟩ := by
  induction s generalizing b with
  | nil => rfl
  | cons c s ih =>
    have first := miss b [] (c :: s) rfl (List.cons_ne_nil c s)
    rw [List.cons_append] at first ⊢
    rw [List.length_cons, ← Nat.add_assoc, finditerFrom, first]
    refine (ih fun b u v eq => miss b (c :: u) v (congrArg (c :: ·) eq)).trans ?_
    cases s with
    | nil => rfl
    | cons d s => simp [List.getLast?_eq_some_getLast]

/-- The scan takes a match and goes on behind it. -/
theorem finditerFrom_match {r : Regex} {c d : Cursor} {g : Groups} (found : r.matchAt c = some (d, g))
    (shorter : d.rest.length < c.rest.length) (fuel : Nat) :
    finditerFrom r (fuel + 1) c = g :: finditerFrom r fuel d := by
  rw [finditerFrom, found]
  exact if_pos shorter

end Regex

end Python
