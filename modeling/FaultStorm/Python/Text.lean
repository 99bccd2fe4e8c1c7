import Mathlib.Data.List.DropRight

/-!
# Python's text functions

`str.split`, `str.strip`, `int` and the line reader of a text file, over the characters of
a string. The tables are those of the Unicode database behind CPython: what `str.isspace`
accepts, and the zeros of the decimal digit blocks `int` reads.
-/

namespace Python.Text

/-- The code points `str.isspace` accepts. -/
def spaces : List Nat :=
  [0x9, 0xa, 0xb, 0xc, 0xd, 0x1c, 0x1d, 0x1e, 0x1f, 0x20, 0x85, 0xa0, 0x1680, 0x2000, 0x2001,
   0x2002, 0x2003, 0x2004, 0x2005, 0x2006, 0x2007, 0x2008, 0x2009, 0x200a, 0x2028, 0x2029,
   0x202f, 0x205f, 0x3000]

def isSpace (c : Char) : Bool := spaces.contains c.toNat

/-- The zeros of the decimal digit blocks (category Nd). -/
def zeros : List Nat := 0x30 ::
  [0x660, 0x6f0, 0x7c0, 0x966, 0x9e6, 0xa66, 0xae6, 0xb66, 0xbe6, 0xc66, 0xce6, 0xd66,
   0xde6, 0xe50, 0xed0, 0xf20, 0x1040, 0x1090, 0x17e0, 0x1810, 0x1946, 0x19d0, 0x1a80, 0x1a90,
   0x1b50, 0x1bb0, 0x1c40, 0x1c50, 0xa620, 0xa8d0, 0xa900, 0xa9d0, 0xa9f0, 0xaa50, 0xabf0,
   0xff10, 0x104a0, 0x10d30, 0x11066, 0x110f0, 0x11136, 0x111d0, 0x112f0, 0x11450, 0x114d0,
   0x11650, 0x116c0, 0x11730, 0x118e0, 0x11950, 0x11c50, 0x11d50, 0x11da0, 0x16a60, 0x16ac0,
   0x16b50, 0x1d7ce, 0x1d7d8, 0x1d7e2, 0x1d7ec, 0x1d7f6, 0x1e140, 0x1e2f0, 0x1e950, 0x1fbf0]

/-- The value of a decimal digit of any script. -/
def decimalValue (c : Char) : Option Nat :=
  (zeros.find? fun z => z ≤ c.toNat && c.toNat < z + 10).map (c.toNat - ·)

/-- Take off what `p` accepts at both ends. -/
def stripWhile (p : Char → Bool) (s : List Char) : List Char := (s.dropWhile p).rdropWhile p

/-- `s.strip()`. -/
def strip (s : List Char) : List Char := stripWhile isSpace s

/-- `s.split()`. -/
def split (s : List Char) : List (List Char) := (s.splitOnP isSpace).filter (· ≠ [])

/-- `s.split(maxsplit=1)`: the first word, and what follows it if anything but space does. -/
def splitOnce (s : List Char) : List (List Char) :=
  let s := s.dropWhile isSpace
  let word := s.takeWhile (! isSpace ·)
  let rest := (s.dropWhile (! isSpace ·)).dropWhile isSpace
  [word, rest].filter (· ≠ [])

/-- `sep.join(parts)` for a separator of one character. -/
def join (sep : Char) (parts : List (List Char)) : List Char := [sep].intercalate parts

theorem join_cons (sep : Char) (part : List Char) (parts : List (List Char)) :
    join sep (part :: parts) = part ++ parts.flatMap (sep :: ·) := by
  induction parts generalizing part with
  | nil => simp [join]
  | cons next parts ih =>
    have tail := ih next
    rw [join] at tail ⊢
    rw [List.intercalate_cons_cons, tail]
    simp

theorem mem_join_of_mem {sep c : Char} {part : List Char} {parts : List (List Char)} (member : part ∈ parts)
    (inside : c ∈ part) : c ∈ join sep parts := by
  cases parts with
  | nil => cases member
  | cons first parts =>
    rw [join_cons]
    rcases List.mem_cons.mp member with rfl | member
    · exact List.mem_append_left _ inside
    · exact List.mem_append_right _ (List.mem_flatMap.mpr ⟨part, member, List.mem_cons_of_mem sep inside⟩)

theorem mem_join {sep c : Char} {parts : List (List Char)} (inside : c ∈ join sep parts) :
    c = sep ∨ ∃ part ∈ parts, c ∈ part := by
  cases parts with
  | nil => cases inside
  | cons first parts =>
    rw [join_cons] at inside
    rcases List.mem_append.mp inside with here | later
    · exact Or.inr ⟨first, List.mem_cons_self, here⟩
    · obtain ⟨part, member, here⟩ := List.mem_flatMap.mp later
      rcases List.mem_cons.mp here with rfl | here
      · exact Or.inl rfl
      · exact Or.inr ⟨part, List.mem_cons_of_mem first member, here⟩

/-- The lines of a text file, its line ends translated and dropped; `line` holds the
characters of the current line. -/
def readLinesFrom (line : List Char) : List Char → List (List Char)
  | [] => if line = [] then [] else [line]
  | '\r' :: '\n' :: rest => line :: readLinesFrom [] rest
  | '\r' :: rest => line :: readLinesFrom [] rest
  | '\n' :: rest => line :: readLinesFrom [] rest
  | c :: rest => readLinesFrom (line ++ [c]) rest

/-- `for line in f`. -/
def readLines (file : List Char) : List (List Char) := readLinesFrom [] file

/-- Digits with single underscores between them, read onto `value`. -/
def digitsFrom (value : Nat) (afterDigit : Bool) : List Char → Option Nat
  | [] => if afterDigit then some value else none
  | '_' :: rest => if afterDigit then digitsFrom value false rest else none
  | c :: rest => match decimalValue c with
    | some d => digitsFrom (10 * value + d) true rest
    | none => none

/-- `int(s)`; `none` is its `ValueError`. -/
def parseInt (s : List Char) : Option Int :=
  match strip s with
  | '-' :: digits => (digitsFrom 0 false digits).map fun n => -(n : Int)
  | '+' :: digits => (digitsFrom 0 false digits).map fun n => (n : Int)
  | digits => (digitsFrom 0 false digits).map fun n => (n : Int)

/-- The value of a hexadecimal digit. -/
def hexValue (c : Char) : Option Nat :=
  if c.isDigit then some (c.toNat - '0'.toNat)
  else if 'a' ≤ c ∧ c ≤ 'f' then some (c.toNat - 'a'.toNat + 10)
  else if 'A' ≤ c ∧ c ≤ 'F' then some (c.toNat - 'A'.toNat + 10)
  else none

/-- A number in hexadecimal. -/
def parseHex (digits : List Char) : Option Nat :=
  if digits = [] then none
  else digits.foldlM (fun n c => (hexValue c).map (16 * n + ·)) 0

/-- What holds of all characters of a given text, one by one. -/
theorem forall_of_all {p : Char → Prop} [DecidablePred p] {s : List Char} (all : (s.all fun c => decide (p c)) = true) :
    ∀ c ∈ s, p c :=
  fun c member => of_decide_eq_true (List.all_eq_true.mp all c member)

/-! ## Words -/

/-- A non-empty run of characters that are not space. -/
def Word (w : List Char) : Prop := w ≠ [] ∧ ∀ c ∈ w, isSpace c = false

instance (w : List Char) : Decidable (Word w) :=
  have : Decidable (∀ c ∈ w, isSpace c = false) := List.decidableBAll _ w
  inferInstanceAs (Decidable (_ ∧ _))

section StripWhile

variable {p : Char → Bool}

/-- Text that `p` accepts at neither end stays as it is. -/
theorem stripWhile_eq_self {s : List Char} (first : ∀ h : s ≠ [], p (s.head h) = false)
    (last : ∀ h : s ≠ [], p (s.getLast h) = false) : stripWhile p s = s := by
  have front : s.dropWhile p = s := by
    cases s with
    | nil => rfl
    | cons c s => rw [List.dropWhile_cons_of_neg]; simpa using first (by simp)
  rw [stripWhile, front, List.rdropWhile_eq_self_iff]
  intro h
  simpa using last h

theorem stripWhile_cons {c : Char} {s : List Char} (plain : p c = false) :
    stripWhile p (c :: s) = (c :: s).rdropWhile p := by
  rw [stripWhile, List.dropWhile_cons_of_neg (by simp [plain])]

/-- Text that starts with a character `p` rejects still does. -/
theorem stripWhile_cons_head {c : Char} {s : List Char} (plain : p c = false) :
    ∃ rest, stripWhile p (c :: s) = c :: rest := by
  rw [stripWhile_cons plain, List.rdropWhile, List.reverse_cons, List.dropWhile_append]
  split
  · rw [List.dropWhile_cons_of_neg (by simp [plain])]
    exact ⟨[], rfl⟩
  · rw [List.reverse_append]
    exact ⟨_, rfl⟩

theorem stripWhile_stripWhile (p : Char → Bool) (s : List Char) :
    stripWhile p (stripWhile p s) = stripWhile p s := by
  apply stripWhile_eq_self
  · intro nonempty
    cases front : s.dropWhile p with
    | nil =>
      rw [stripWhile] at nonempty
      simp [front] at nonempty
    | cons c rest =>
      have plain : p c = false := by
        have first := List.head_dropWhile_not p (l := s) (by rw [front]; simp)
        simpa [front] using first
      have same : stripWhile p s = stripWhile p (c :: rest) := by
        rw [stripWhile_cons plain, stripWhile, front]
      obtain ⟨tail, eq⟩ := stripWhile_cons_head (s := rest) plain
      simp [same, eq, plain]
  · intro nonempty
    rw [← Bool.not_eq_true]
    exact List.rdropWhile_last_not p (s.dropWhile p) nonempty

/-- What is left is part of the text. -/
theorem stripWhile_subset (p : Char → Bool) (s : List Char) : stripWhile p s ⊆ s :=
  List.Subset.trans ( List.rdropWhile_prefix p (s.dropWhile p)).subset (s.dropWhile_suffix p).subset

end StripWhile

theorem strip_word {w : List Char} (h : Word w) : strip w = w :=
  stripWhile_eq_self (fun _ => h.2 _ (List.head_mem _)) (fun _ => h.2 _ (List.getLast_mem _))

theorem strip_cons {c : Char} {s : List Char} (plain : isSpace c = false) :
    strip (c :: s) = (c :: s).rdropWhile isSpace :=
  stripWhile_cons plain

/-- Text that starts with a plain character still does after `strip`. -/
theorem strip_cons_head {c : Char} {s : List Char} (plain : isSpace c = false) :
    ∃ rest, strip (c :: s) = c :: rest :=
  stripWhile_cons_head plain

/-- Trailing space is taken off the last part that is not blank. -/
theorem rdropWhile_append {s t : List Char} (not_blank : ∃ c ∈ t, isSpace c = false) :
    (s ++ t).rdropWhile isSpace = s ++ t.rdropWhile isSpace := by
  obtain ⟨c, member, plain⟩ := not_blank
  have stays : ¬ (t.reverse.dropWhile isSpace).isEmpty := by
    rw [List.isEmpty_iff, List.dropWhile_eq_nil_iff]
    intro all
    have space := all c (List.mem_reverse.mpr member)
    rw [plain] at space
    cases space
  rw [List.rdropWhile, List.reverse_append, List.dropWhile_append, if_neg stays, List.reverse_append,
    List.reverse_reverse]
  rfl

theorem strip_strip (s : List Char) : strip (strip s) = strip s := stripWhile_stripWhile isSpace s

theorem split_nil : split [] = [] := by
  simp [split]

/-- A space separates what is before it from what is after it. -/
theorem split_append_cons (s t : List Char) {c : Char} (space : isSpace c = true) :
    split (s ++ c :: t) = split s ++ split t := by
  rw [split, List.splitOnP_append_cons s t space, List.filter_append]
  rfl

theorem split_word {w : List Char} (h : Word w) : split w = [w] := by
  rw [split, List.splitOnP_eq_singleton h.2]
  simp [h.1]

/-- No part of a split text has a separator. -/
theorem splitOnP_plain {p : Char → Bool} (s : List Char) : ∀ part ∈ s.splitOnP p, ∀ c ∈ part, p c = false := by
  induction s with
  | nil => simp
  | cons d s ih =>
    rw [List.splitOnP_cons_eq_if_modifyHead]
    split
    · simpa using ih
    · rename_i other
      cases parts : s.splitOnP p with
      | nil => exact absurd parts (List.splitOnP_ne_nil p s)
      | cons first parts =>
        rw [parts] at ih
        intro part member
        rcases List.mem_cons.mp member with rfl | member
        · intro c here
          rcases List.mem_cons.mp here with rfl | here
          · simpa using other
          · exact ih first List.mem_cons_self c here
        · exact ih part (List.mem_cons_of_mem first member)

/-- The parts of joined texts are those of each text. -/
theorem splitOn_join (sep : Char) (text : List Char) (texts : List (List Char)) :
    (join sep (text :: texts)).splitOn sep = (text :: texts).flatMap (·.splitOn sep) := by
  induction texts generalizing text with
  | nil => simp [join]
  | cons next texts ih =>
    have rest : join sep (text :: next :: texts) = text ++ sep :: join sep (next :: texts) := by
      rw [join, join, List.intercalate_cons_cons, List.append_assoc, List.singleton_append]
    rw [rest, List.splitOn_append_cons_self, ih]
    rfl

theorem word_of_mem_split {s w : List Char} (member : w ∈ split s) : Word w := by
  obtain ⟨part, nonempty⟩ := List.mem_filter.mp member
  exact ⟨of_decide_eq_true nonempty, splitOnP_plain s w part⟩

/-- Leading and trailing space makes no difference to the words. -/
theorem split_strip (s : List Char) : split (strip s) = split s := by
  have front : split (s.dropWhile isSpace) = split s := by
    induction s with
    | nil => rfl
    | cons c s ih =>
      by_cases space : isSpace c = true
      · rw [List.dropWhile_cons_of_pos space, ih]
        exact (split_append_cons [] s space).symm
      · rw [List.dropWhile_cons_of_neg space]
  have back : ∀ s : List Char, split (s.rdropWhile isSpace) = split s := by
    intro s
    induction s using List.reverseRecOn with
    | nil => rfl
    | append_singleton s c ih =>
      by_cases space : isSpace c = true
      · rw [List.rdropWhile_concat_pos _ _ _ space, ih, split_append_cons s [] space, split_nil,
          List.append_nil]
      · rw [List.rdropWhile_concat_neg _ _ _ space]
  rw [strip, stripWhile, back, front]

/-- Words joined by spaces are split into themselves; what is empty between them is lost. -/
theorem split_join {parts : List (List Char)} (h : ∀ w ∈ parts, w = [] ∨ Word w) :
    split (join ' ' parts) = parts.filter (· ≠ []) := by
  have one : ∀ w, w = [] ∨ Word w → split w = [w].filter (· ≠ []) := by
    rintro w (rfl | word)
    · exact split_nil
    · rw [split_word word]
      simp [word.1]
  induction parts with
  | nil => exact split_nil
  | cons w parts ih =>
    cases parts with
    | nil => simpa [join] using one w (h w List.mem_cons_self)
    | cons v parts =>
      have tail := ih fun u member => h u (List.mem_cons_of_mem w member)
      have text : join ' ' (w :: v :: parts) = w ++ ' ' :: join ' ' (v :: parts) := by
        rw [join, List.intercalate_cons_cons, List.append_assoc]
        rfl
      rw [text, split_append_cons _ _ (by decide), tail, one w (h w List.mem_cons_self), ← List.filter_append]
      rfl

/-- The first word and the rest, when a single space stands between them. -/
theorem splitOnce_word_cons {w rest : List Char} (h : Word w) (nonempty : rest ≠ [])
    (first : ∀ h : rest ≠ [], isSpace (rest.head h) = false) :
    splitOnce (w ++ ' ' :: rest) = [w, rest] := by
  have notSpace : ∀ c ∈ w, (! isSpace c) = true := fun c member => by simp [h.2 c member]
  have front : (w ++ ' ' :: rest).dropWhile isSpace = w ++ ' ' :: rest := by
    obtain ⟨c, w', rfl⟩ := List.exists_cons_of_ne_nil h.1
    rw [List.cons_append, List.dropWhile_cons_of_neg]
    simp [h.2 c (by simp)]
  have tail : (' ' :: rest).dropWhile isSpace = rest := by
    obtain ⟨c, rest', rfl⟩ := List.exists_cons_of_ne_nil nonempty
    rw [List.dropWhile_cons_of_pos (by decide), List.dropWhile_cons_of_neg]
    simpa using first (by simp)
  have stop : (! isSpace ' ') = false := by decide
  simp only [splitOnce, front, List.takeWhile_append_of_pos notSpace,
    List.dropWhile_append_of_pos notSpace, List.takeWhile_cons, List.dropWhile_cons, stop]
  simp only [Bool.false_eq_true, if_false, List.append_nil]
  rw [tail]
  simp [h.1, nonempty]

/-! ## Lines -/

/-- No character of the text ends a line. -/
def OneLine (s : List Char) : Prop := ∀ c ∈ s, c ≠ '\n' ∧ c ≠ '\r'

instance (s : List Char) : Decidable (OneLine s) := List.decidableBAll _ s

theorem OneLine.append {s t : List Char} (hs : OneLine s) (ht : OneLine t) : OneLine (s ++ t) := by
  intro c member
  rcases List.mem_append.mp member with h | h
  · exact hs c h
  · exact ht c h

theorem Word.oneLine {w : List Char} (h : Word w) : OneLine w := by
  intro c member
  constructor <;> rintro rfl <;> exact absurd (h.2 _ member) (by decide)

theorem readLinesFrom_line {s rest line : List Char} (h : OneLine s) :
    readLinesFrom line (s ++ '\n' :: rest) = (line ++ s) :: readLines rest := by
  induction s generalizing line with
  | nil => simp [readLinesFrom, readLines]
  | cons c s ih =>
    obtain ⟨newline, ret⟩ := h c (by simp)
    have step : readLinesFrom line (c :: (s ++ '\n' :: rest)) =
        readLinesFrom (line ++ [c]) (s ++ '\n' :: rest) := by
      rw [readLinesFrom] <;> simp_all
    rw [List.cons_append, step, ih fun d member => h d (List.mem_cons_of_mem c member)]
    simp

/-- A written line is read back. -/
theorem readLines_line {s rest : List Char} (h : OneLine s) :
    readLines (s ++ '\n' :: rest) = s :: readLines rest := by
  exact readLinesFrom_line h

/-- A last line without its end is a line, if there is anything of it. -/
theorem readLines_last {s : List Char} (h : OneLine s) : readLines s = if s = [] then [] else [s] := by
  suffices last : ∀ line, readLinesFrom line s = if line ++ s = [] then [] else [line ++ s] from last []
  induction s with
  | nil => simp [readLinesFrom]
  | cons c s ih =>
    intro line
    obtain ⟨newline, ret⟩ := h c (by simp)
    have step : readLinesFrom line (c :: s) = readLinesFrom (line ++ [c]) s := by
      rw [readLinesFrom] <;> simp_all
    rw [step, ih fun d member => h d (List.mem_cons_of_mem c member), List.append_assoc]
    rfl

/-- A file of written lines is read back as these lines. -/
theorem readLines_flatMap {lines : List (List Char)} (h : ∀ l ∈ lines, OneLine l) :
    readLines (lines.flatMap (· ++ ['\n'])) = lines := by
  induction lines with
  | nil => rfl
  | cons l lines ih =>
    rw [List.flatMap_cons, List.append_assoc]
    exact (readLines_line (h l (by simp))).trans
      (congrArg (l :: ·) (ih fun m member => h m (List.mem_cons_of_mem l member)))

/-! ## Numbers -/

theorem decimalValue_digit {c : Char} (h : c.isDigit) : decimalValue c = some (c.toNat - '0'.toNat) := by
  have bounds : 48 ≤ c.toNat ∧ c.toNat ≤ 57 := by
    simp only [Char.isDigit, Bool.and_eq_true, decide_eq_true_eq] at h
    exact ⟨UInt32.le_iff_toNat_le.mp h.1, UInt32.le_iff_toNat_le.mp h.2⟩
  have found : (decide (0x30 ≤ c.toNat) && decide (c.toNat < 0x30 + 10)) = true := by
    simp; omega
  have first : zeros.find? (fun z => z ≤ c.toNat && c.toNat < z + 10) = some 0x30 :=
    List.find?_cons_of_pos found
  rw [decimalValue, first]
  rfl

theorem digitsFrom_digits {s : List Char} (h : ∀ c ∈ s, c.isDigit) (value : Nat) (afterDigit : Bool)
    (some_digit : afterDigit = true ∨ s ≠ []) :
    digitsFrom value afterDigit s = some (Nat.ofDigitChars 10 s value) := by
  induction s generalizing value afterDigit with
  | nil => simpa [digitsFrom, Nat.ofDigitChars_nil] using some_digit
  | cons c s ih =>
    have digit := h c (by simp)
    have notUnderscore : c ≠ '_' := by rintro rfl; exact absurd digit (by decide)
    rw [digitsFrom]
    · rw [decimalValue_digit digit, Nat.ofDigitChars_cons]
      exact ih (fun d member => h d (List.mem_cons_of_mem c member)) _ true (Or.inl rfl)
    · exact notUnderscore

theorem hexValue_digitChar : ∀ n < 16, hexValue (Nat.digitChar n) = some n := by decide

/-- A number printed in hexadecimal is read back. -/
theorem parseHex_toDigits (n : Nat) : parseHex (Nat.toDigits 16 n) = some n := by
  have read : (Nat.toDigits 16 n).foldlM (fun n c => (hexValue c).map (16 * n + ·)) 0 = some n := by
    induction n using Nat.strongRecOn with
    | ind n ih =>
      by_cases small : n < 16
      · rw [Nat.toDigits_of_lt_base small, List.foldlM_cons, hexValue_digitChar n small]
        simp
      · -- the last digit follows those of the quotient
        have last : n % 16 < 16 := Nat.mod_lt n (by omega)
        have split : Nat.toDigits 16 n = Nat.toDigits 16 (n / 16) ++ [Nat.digitChar (n % 16)] := by
          rw [← Nat.toDigits_of_lt_base last, Nat.toDigits_append_toDigits (by omega) (by omega) last, Nat.div_add_mod]
        rw [split, List.foldlM_append, ih (n / 16) (by omega), Option.bind_eq_bind, Option.bind_some, List.foldlM_cons,
          hexValue_digitChar _ last]
        simp [Nat.div_add_mod]
  rw [parseHex, if_neg Nat.toDigits_ne_nil, read]

theorem isDigit_not_space {c : Char} (h : c.isDigit) : isSpace c = false := by
  have bounds : 48 ≤ c.toNat ∧ c.toNat ≤ 57 := by
    simp only [Char.isDigit, Bool.and_eq_true, decide_eq_true_eq] at h
    exact ⟨UInt32.le_iff_toNat_le.mp h.1, UInt32.le_iff_toNat_le.mp h.2⟩
  simp only [isSpace, spaces, List.contains_eq_mem, decide_eq_false_iff_not]
  simp only [List.mem_cons, List.not_mem_nil, or_false, not_or]
  omega

/-- The text of an integer has digits and a sign only. -/
theorem toString_chars (z : Int) {c : Char} (member : c ∈ (toString z).toList) : c.isDigit = true ∨ c = '-' := by
  have digits : ∀ n : Nat, ∀ c ∈ n.repr.toList, c.isDigit = true := by
    intro n c member
    rw [Nat.toList_repr] at member
    exact Nat.isDigit_of_mem_toDigits (by omega) (by omega) member
  cases z with
  | ofNat n => exact Or.inl (digits n c member)
  | negSucc n =>
    have member : c ∈ String.toList ("-" ++ (n + 1).repr) := member
    rw [String.toList_append] at member
    rcases List.mem_append.mp member with sign | member
    · exact Or.inr (List.mem_singleton.mp sign)
    · exact Or.inl (digits (n + 1) c member)

theorem toString_ne_nil (z : Int) : (toString z).toList ≠ [] := by
  cases z with
  | ofNat n =>
    show n.repr.toList ≠ []
    rw [Nat.toList_repr]
    exact Nat.toDigits_ne_nil
  | negSucc n =>
    show String.toList ("-" ++ (n + 1).repr) ≠ []
    rw [String.toList_append]
    exact List.cons_ne_nil '-' _

/-- The text of an integer is a word. -/
theorem word_toString (z : Int) : Word (toString z).toList := by
  refine ⟨toString_ne_nil z, fun c member => ?_⟩
  rcases toString_chars z member with digit | sign
  · exact isDigit_not_space digit
  · rw [sign]
    decide

/-- `int(str(z))`. -/
theorem parseInt_toString (z : Int) : parseInt (toString z).toList = some z := by
  have digits : ∀ n : Nat, digitsFrom 0 false n.repr.toList = some n := by
    intro n
    rw [Nat.toList_repr, digitsFrom_digits _ _ _ (Or.inr Nat.toDigits_ne_nil), Nat.ofDigitChars_ten_toDigits]
    exact fun c member => Nat.isDigit_of_mem_toDigits (by omega) (by omega) member
  rw [parseInt, strip_word (word_toString z)]
  cases z with
  | ofNat n =>
    show (match n.repr.toList with
      | '-' :: ds => (digitsFrom 0 false ds).map fun n => -(n : Int)
      | '+' :: ds => (digitsFrom 0 false ds).map fun n => (n : Int)
      | ds => (digitsFrom 0 false ds).map fun n => (n : Int)) = _
    have unsigned : ∀ c ∈ n.repr.toList, c.isDigit := by
      rw [Nat.toList_repr]
      exact fun c member => Nat.isDigit_of_mem_toDigits (by omega) (by omega) member
    split
    · rename_i ds eq
      exact absurd (unsigned '-' (by rw [eq]; simp)) (by decide)
    · rename_i ds eq
      exact absurd (unsigned '+' (by rw [eq]; simp)) (by decide)
    · rw [digits]; rfl
  | negSucc n =>
    have text : (toString (Int.negSucc n)).toList = '-' :: (n + 1).repr.toList := by
      show String.toList ("-" ++ (n + 1).repr) = _
      rw [String.toList_append]
      rfl
    rw [text]
    show (digitsFrom 0 false (n + 1).repr.toList).map (fun n => -(n : Int)) = _
    rw [digits]
    rfl

theorem toString_injective {y z : Int} (h : toString y = toString z) : y = z := by
  have same := parseInt_toString y
  rw [h, parseInt_toString] at same
  exact (Option.some.inj same).symm

end Python.Text
