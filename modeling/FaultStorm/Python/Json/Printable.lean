import FaultStorm.Python.Json.Roundtrip

/-!
# What is dumped is one line of printable ASCII

`json.dumps` escapes everything else, so that a file of dumped objects has one object a line.
-/

namespace Python.Json

def Printable (c : Char) : Prop := ' ' ≤ c ∧ c ≤ '~'

instance (c : Char) : Decidable (Printable c) := inferInstanceAs (Decidable (_ ∧ _))

theorem printable_digit {c : Char} (digit : c.isDigit = true) : Printable c := by
  simp only [Char.isDigit, Bool.and_eq_true, decide_eq_true_eq] at digit
  have low : 48 ≤ c.toNat := UInt32.le_iff_toNat_le.mp digit.1
  have high : c.toNat ≤ 57 := UInt32.le_iff_toNat_le.mp digit.2
  have space : ' '.toNat ≤ c.toNat := by
    show 32 ≤ c.toNat
    omega
  have tilde : c.toNat ≤ '~'.toNat := by
    show c.toNat ≤ 126
    omega
  exact ⟨UInt32.le_iff_toNat_le.mpr space, UInt32.le_iff_toNat_le.mpr tilde⟩

theorem printable_append {s t : List Char} (hs : ∀ c ∈ s, Printable c) (ht : ∀ c ∈ t, Printable c) :
    ∀ c ∈ s ++ t, Printable c := by
  intro c member
  rcases List.mem_append.mp member with h | h
  · exact hs c h
  · exact ht c h

theorem printable_cons {d : Char} {s : List Char} (hd : Printable d) (hs : ∀ c ∈ s, Printable c) :
    ∀ c ∈ d :: s, Printable c :=
  List.forall_mem_cons.mpr ⟨hd, hs⟩

theorem printable_nil : ∀ c ∈ ([] : List Char), Printable c := nofun

theorem printable_toDigits (n : Nat) : ∀ c ∈ Nat.toDigits 10 n, Printable c :=
  fun c member => printable_digit (isDigit_toDigits n c member)

theorem printable_escapeUnit (n : Nat) : ∀ c ∈ escapeUnit n, Printable c := by
  have digit : ∀ d < 16, Printable (Nat.digitChar d) := by decide
  have bound : ∀ m, m % 16 < 16 := fun m => Nat.mod_lt m (by omega)
  intro c member
  simp only [escapeUnit, List.mem_cons, List.not_mem_nil, or_false] at member
  rcases member with rfl | rfl | rfl | rfl | rfl | rfl
  · decide
  · decide
  · exact digit _ (bound _)
  · exact digit _ (bound _)
  · exact digit _ (bound _)
  · exact digit _ (bound _)

theorem printable_escape (c : Char) : ∀ d ∈ escape c, Printable d := by
  unfold escape
  split
  · rename_i slash
    rw [slash]
    exact printable_cons (by decide) printable_nil
  split
  · rename_i letter code found
    have short : ∀ p ∈ shortEscapes, Printable p.1 := by decide
    exact printable_cons (by decide) (printable_cons (short _ (List.mem_of_find?_eq_some found)) printable_nil)
  split
  · rename_i plain
    exact printable_cons plain printable_nil
  · intro d member
    obtain ⟨n, -, there⟩ := List.mem_flatMap.mp member
    exact printable_escapeUnit n d there

theorem printable_dumpsString (s : String) : ∀ c ∈ dumpsString s, Printable c := by
  refine printable_append (printable_cons (by decide) ?_) (printable_cons (by decide) printable_nil)
  intro d member
  obtain ⟨c, -, there⟩ := List.mem_flatMap.mp member
  exact printable_escape c d there

theorem printable_dumpsFloat (lit : FloatLit) : ∀ c ∈ dumpsFloat lit, Printable c := by
  have sign : ∀ c ∈ if lit.negative then ['-'] else [], Printable c := by
    cases lit.negative with
    | true => exact printable_cons (by decide) printable_nil
    | false => exact printable_nil
  have frac : ∀ c ∈ dumpsFrac lit.frac, Printable c := by
    unfold dumpsFrac
    split
    · exact printable_nil
    · refine printable_cons (by decide) fun c member => ?_
      obtain ⟨d, -, rfl⟩ := List.mem_map.mp member
      exact printable_digit (digitChar_facts d d.isLt).1
  have exp : ∀ c ∈ dumpsExp lit.exp, Printable c := by
    cases lit.exp with
    | none => exact printable_nil
    | some e =>
      refine printable_cons (by decide) (printable_cons ?_ fun c member => ?_)
      · split <;> decide
      · exact printable_digit ((padded_digits e.natAbs).1 c member)
  exact printable_append (printable_append (printable_append sign (printable_toDigits lit.whole)) frac) exp

theorem printable_toString (z : Int) : ∀ c ∈ (toString z).toList, Printable c := by
  intro c member
  rcases Text.toString_chars z member with digit | rfl
  · exact printable_digit digit
  · decide

mutual

theorem printable_dumps (j : Json) : ∀ c ∈ dumps j, Printable c := by
  match j with
  | null =>
    rw [dumps]
    exact Text.forall_of_all (by decide)
  | bool true =>
    rw [dumps]
    exact Text.forall_of_all (by decide)
  | bool false =>
    rw [dumps]
    exact Text.forall_of_all (by decide)
  | int z =>
    rw [dumps]
    exact printable_toString z
  | float lit =>
    rw [dumps]
    exact printable_dumpsFloat lit
  | special c =>
    rw [dumps]
    cases c <;> exact Text.forall_of_all (by decide)
  | str s =>
    rw [dumps]
    exact printable_dumpsString s
  | arr elements =>
    rw [dumps]
    exact printable_append (printable_cons (by decide) (printable_dumpsElements elements))
      (printable_cons (by decide) printable_nil)
  | obj members =>
    rw [dumps]
    exact printable_append (printable_cons (by decide) (printable_dumpsMembers members))
      (printable_cons (by decide) printable_nil)

theorem printable_dumpsElements (elements : List Json) : ∀ c ∈ dumpsElements elements, Printable c := by
  match elements with
  | [] =>
    rw [dumpsElements]
    exact printable_nil
  | [j] =>
    rw [dumpsElements]
    exact printable_dumps j
  | j :: k :: later =>
    rw [dumpsElements]
    exact printable_append (printable_dumps j)
      (printable_cons (by decide) (printable_cons (by decide) (printable_dumpsElements (k :: later))))

theorem printable_dumpsMembers (members : List (String × Json)) : ∀ c ∈ dumpsMembers members, Printable c := by
  match members with
  | [] =>
    rw [dumpsMembers]
    exact printable_nil
  | [(key, j)] =>
    rw [dumpsMembers]
    exact printable_append (printable_dumpsString key)
      (printable_cons (by decide) (printable_cons (by decide) (printable_dumps j)))
  | (key, j) :: m :: later =>
    have value : ∀ c ∈ dumpsString key ++ ':' :: ' ' :: dumps j, Printable c :=
      printable_append (printable_dumpsString key)
        (printable_cons (by decide) (printable_cons (by decide) (printable_dumps j)))
    rw [dumpsMembers]
    exact printable_append value
      (printable_cons (by decide) (printable_cons (by decide) (printable_dumpsMembers (m :: later))))

end

theorem Printable.lineChar {c : Char} (printable : Printable c) : c ≠ '\n' ∧ c ≠ '\r' := by
  constructor <;> rintro rfl <;> exact absurd printable (by decide)

/-- What is dumped has no line end in it. -/
theorem oneLine_dumps (j : Json) : Text.OneLine (dumps j) :=
  fun c member => (printable_dumps j c member).lineChar

/-- An object has no space around it. -/
theorem strip_dumps_obj (members : List (String × Json)) : Text.strip (dumps (obj members)) = dumps (obj members) := by
  apply Text.stripWhile_eq_self
  · intro nonempty
    simp only [dumps, List.cons_append, List.head_cons]
    decide
  · intro nonempty
    simp only [dumps, List.getLast_append_singleton]
    decide

end Python.Json
