import FaultStorm.Network.Bands

/-!
# Finding the bands again

The listing of the qdiscs is read as it was printed. The listing of the filters is not: the
pattern wants the address before the class and on the same line, and `tc` prints the address
on the line after the class, so no filter is ever found.
-/

namespace FaultStorm

open Python Cluster Regex

namespace NetworkLatency

/-! ## Characters -/

theorem isHexDigit_digitChar : ∀ n < 16, isHexDigit (Nat.digitChar n) = true := by decide

theorem isHexDigit_of_mem_toDigits (n : Nat) : ∀ c ∈ Nat.toDigits 16 n, isHexDigit c = true := by
  induction n using Nat.strongRecOn with
  | ind n ih =>
    intro c member
    by_cases small : n < 16
    · rw [Nat.toDigits_of_lt_base small, List.mem_singleton] at member
      rw [member]
      exact isHexDigit_digitChar n small
    · rw [Nat.toDigits_of_base_le (by omega) (by omega), List.mem_append, List.mem_singleton] at member
      rcases member with front | rfl
      · exact ih (n / 16) (by omega) c front
      · exact isHexDigit_digitChar _ (by omega)

theorem isHexDigit_of_mem_hexIp {ip : String} : ∀ c ∈ Tc.hexIp ip, isHexDigit c = true := by
  intro c member
  obtain ⟨octet, -, inside⟩ := List.mem_flatMap.mp member
  simp only [List.mem_cons, List.not_mem_nil, or_false] at inside
  rcases inside with rfl | rfl
  · exact isHexDigit_digitChar _ (by omega)
  · exact isHexDigit_digitChar _ (by omega)

theorem isHexDigit_not_space {c : Char} (hex : isHexDigit c = true) : Text.isSpace c = false := by
  rw [isHexDigit, Bool.or_eq_true] at hex
  rcases hex with digit | letter
  · exact Text.isDigit_not_space digit
  · have bounds : 97 ≤ c.toNat ∧ c.toNat ≤ 102 := by
      simp only [Bool.and_eq_true, decide_eq_true_eq] at letter
      exact ⟨UInt32.le_iff_toNat_le.mp letter.1, UInt32.le_iff_toNat_le.mp letter.2⟩
    simp only [Text.isSpace, Text.spaces, List.contains_eq_mem, decide_eq_false_iff_not]
    simp only [List.mem_cons, List.not_mem_nil, or_false, not_or]
    omega

/-! ## The filter listing -/

/-- A run of one class of characters ends where the class ends. -/
theorem run_unique {p : Char → Bool} {w h a b : List Char} (split : w ++ a = h ++ b) (inside : ∀ c ∈ w, p c = true)
    (inside' : ∀ c ∈ h, p c = true) (stop : ∀ c ∈ a.head?, p c = false) (stop' : ∀ c ∈ b.head?, p c = false) :
    w = h ∧ a = b := by
  have front : ∀ {w a : List Char}, (∀ c ∈ w, p c = true) → (∀ c ∈ a.head?, p c = false) →
      (w ++ a).takeWhile p = w := by
    intro w a inside stop
    rw [List.takeWhile_append_of_pos inside]
    cases a with
    | nil => simp
    | cons c a => simp [stop c rfl]
  have same : w = h := by
    rw [← front inside stop, split, front inside' stop']
  subst same
  exact ⟨rfl, List.append_cancel_left split⟩

/-- Blanks before something else are one blank, if one was printed. -/
theorem one_space {w a b : List Char} (split : w ++ a = ' ' :: b) (nonempty : w ≠ [])
    (inside : ∀ c ∈ w, Text.isSpace c = true) (stop : ∀ c ∈ b.head?, Text.isSpace c = false) : a = b := by
  obtain ⟨c, w, rfl⟩ := List.exists_cons_of_ne_nil nonempty
  obtain ⟨-, rest⟩ := List.cons.inj split
  cases w with
  | nil => exact rest
  | cons d w =>
    have space := inside d (by simp)
    have plain := stop d (by rw [← rest]; rfl)
    rw [space] at plain
    cases plain

/-- A match of `_FILTER_IP_RE` starts with the address, and the class is on the same line. -/
theorem filterIpRe_inv {c d : Cursor} (m : Matches filterIpRe c d) :
    ∃ w₁ hex w₂ w₃ any rest, c.rest = "match".toList ++ (w₁ ++ (hex ++ ("/ffffffff".toList ++ (w₂ ++ ("at".toList ++
        (w₃ ++ ("16".toList ++ (any ++ ("flowid".toList ++ rest))))))))) ∧
      (w₁ ≠ [] ∧ ∀ c ∈ w₁, Text.isSpace c = true) ∧ (∀ c ∈ hex, isHexDigit c = true) ∧
      (w₂ ≠ [] ∧ ∀ c ∈ w₂, Text.isSpace c = true) ∧ (w₃ ≠ [] ∧ ∀ c ∈ w₃, Text.isSpace c = true) ∧
      ∀ c ∈ any, c ≠ '\n' := by
  obtain ⟨c₁, m₁, m⟩ := m.seq_inv
  obtain ⟨c₂, m₂, m⟩ := m.seq_inv
  obtain ⟨c₃, m₃, m⟩ := m.seq_inv
  obtain ⟨c₄, m₄, m⟩ := m.seq_inv
  obtain ⟨c₅, m₅, m⟩ := m.seq_inv
  obtain ⟨c₆, m₆, m⟩ := m.seq_inv
  obtain ⟨c₇, m₇, m⟩ := m.seq_inv
  obtain ⟨c₈, m₈, m⟩ := m.seq_inv
  obtain ⟨c₉, m₉, m⟩ := m.seq_inv
  obtain ⟨c₁₀, m₁₀, -⟩ := m.seq_inv
  obtain ⟨w₁, some₁, e₁, all₁⟩ := m₂.some1_inv
  obtain ⟨w₂, some₂, e₂, all₂⟩ := m₅.some1_inv
  obtain ⟨w₃, some₃, e₃, all₃⟩ := m₇.some1_inv
  obtain ⟨any, e₄, all₄⟩ := m₉.many_inv
  cases m₃ with
  | group m₃ =>
    obtain ⟨hex, -, e₅, all₅⟩ := m₃.times_inv
    refine ⟨w₁, hex, w₂, w₃, any, c₁₀.rest, ?_, ⟨some₁, all₁⟩, all₅, ⟨some₂, all₂⟩, ⟨some₃, all₃⟩, ?_⟩
    · rw [m₁.lit_inv, e₁, e₅, m₄.lit_inv, e₂, m₆.lit_inv, e₃, m₈.lit_inv, e₄, m₁₀.lit_inv]
    · intro x member
      simpa using all₄ x member

/-- No match starts at the line of an address. -/
theorem filterIpRe_miss {c d : Cursor} {hex later : List Char} (digits : ∀ c ∈ hex, isHexDigit c = true)
    (line : c.rest = "match".toList ++ (' ' :: (hex ++ ("/ffffffff".toList ++ (' ' :: ("at".toList ++ (' ' ::
      ("16".toList ++ ('\n' :: later)))))))) ) : ¬ Matches filterIpRe c d := by
  intro m
  obtain ⟨w₁, hex', w₂, w₃, any, rest, split, ⟨some₁, all₁⟩, all₅, ⟨some₂, all₂⟩, ⟨some₃, all₃⟩, all₄⟩ :=
    filterIpRe_inv m
  rw [line] at split
  have stop : ∀ {x : Char} (l : List Char) {p : Char → Bool}, p x = false → ∀ c ∈ (x :: l).head?, p c = false := by
    intro x l p plain c first
    cases first
    exact plain
  have hexStop : ∀ c ∈ (hex ++ ("/ffffffff".toList ++ (' ' :: ("at".toList ++ (' ' :: ("16".toList ++
      ('\n' :: later))))))).head?, Text.isSpace c = false := by
    cases hex with
    | nil => exact stop _ (by decide)
    | cons x hex => exact stop _ (isHexDigit_not_space (digits x List.mem_cons_self))
  have s₁ := one_space (List.append_cancel_left split).symm some₁ all₁ hexStop
  obtain ⟨-, s₂⟩ := run_unique s₁ all₅ digits (stop _ (by decide)) (stop _ (by decide))
  have s₃ := one_space (List.append_cancel_left s₂) some₂ all₂ (stop _ (by decide))
  have s₄ := one_space (List.append_cancel_left s₃) some₃ all₃ (stop _ (by decide))
  have s₅ := List.append_cancel_left s₄
  cases any with
  | nil => exact absurd (List.cons.inj s₅).1 (by decide)
  | cons x any => exact all₄ x List.mem_cons_self (List.cons.inj s₅).1

/-- A part of a concatenation that starts inside one of its pieces. -/
theorem suffix_flatMap {α : Type} {f : α → List Char} {l : List α} {s : List Char} (suffix : s <:+ l.flatMap f)
    (nonempty : s ≠ []) : ∃ a ∈ l, ∃ t rest, t ≠ [] ∧ t <:+ f a ∧ s = t ++ rest := by
  induction l with
  | nil => exact absurd (List.suffix_nil.mp suffix) nonempty
  | cons a l ih =>
    obtain ⟨pre, eq⟩ := suffix
    rw [List.flatMap_cons] at eq
    have later : s <:+ l.flatMap f → ∃ b ∈ a :: l, ∃ t rest, t ≠ [] ∧ t <:+ f b ∧ s = t ++ rest := by
      intro behind
      obtain ⟨b, member, rest⟩ := ih behind
      exact ⟨b, List.mem_cons_of_mem a member, rest⟩
    rcases List.append_eq_append_iff.mp eq with ⟨t, piece, split⟩ | ⟨u, -, behind⟩
    · by_cases empty : t = []
      · rw [empty, List.nil_append] at split
        exact later ⟨[], by rw [split]; rfl⟩
      · exact ⟨a, List.mem_cons_self, t, _, empty, ⟨pre, piece.symm⟩, split⟩
    · exact later ⟨u, behind.symm⟩

/-- The part of a text that starts with its only `m`. -/
theorem suffix_unique {pre post t : List Char} {x : Char} (before : x ∉ pre) (after : x ∉ post)
    (suffix : x :: t <:+ pre ++ x :: post) : t = post := by
  obtain ⟨q, eq⟩ := suffix
  rcases List.append_eq_append_iff.mp eq with ⟨u, rfl, split⟩ | ⟨u, -, split⟩
  · cases u with
    | nil => exact (List.cons.inj split).2
    | cons y u => exact absurd (by simp [(List.cons.inj split).1]) before
  · cases u with
    | nil => exact (List.cons.inj split).2.symm
    | cons y u => exact absurd (by rw [(List.cons.inj split).2]; simp) after

theorem isDigit_of_mem_toString {n : Nat} : ∀ c ∈ (toString n).toList, c.isDigit = true := by
  intro c member
  have text : (toString n).toList = Nat.toDigits 10 n := Nat.toList_repr
  rw [text] at member
  exact Nat.isDigit_of_mem_toDigits (by omega) (by omega) member

/-- The text of a filter up to its address. -/
def filterHead (f : Tc.Filter) : List Char :=
  "filter parent 1: protocol ip pref ".toList ++ (toString f.prio).toList ++
    " u32 chain 0 fh 800::800 order 2048 key ht 800 bkt 0 flowid ".toList ++ Tc.showClass f.flowid ++ "\n  ".toList

theorem showU32_eq (f : Tc.Filter) :
    Tc.showU32 f = filterHead f ++ 'm' :: ("atch ".toList ++ (Tc.hexIp f.dst ++ "/ffffffff at 16\n".toList)) := by
  have cut : "\n  match ".toList = "\n  ".toList ++ 'm' :: "atch ".toList := by simp
  unfold Tc.showU32 filterHead
  rw [cut]
  simp only [List.append_assoc, List.cons_append]

/-- The address is behind the only `m` of its filter. -/
theorem m_not_mem (f : Tc.Filter) :
    'm' ∉ filterHead f ∧ 'm' ∉ "atch ".toList ++ (Tc.hexIp f.dst ++ "/ffffffff at 16\n".toList) := by
  have number : 'm' ∉ (toString f.prio).toList := fun member => absurd (isDigit_of_mem_toString _ member) (by decide)
  have minor : 'm' ∉ Nat.toDigits 16 f.flowid := fun member =>
    absurd (isHexDigit_of_mem_toDigits _ _ member) (by decide)
  have address : 'm' ∉ Tc.hexIp f.dst := fun member => absurd (isHexDigit_of_mem_hexIp _ member) (by decide)
  have protocol : 'm' ∉ "filter parent 1: protocol ip pref ".toList := by simp
  have table : 'm' ∉ " u32 chain 0 fh 800::800 order 2048 key ht 800 bkt 0 flowid ".toList := by simp
  have major : 'm' ∉ "1:".toList := by simp
  have indent : 'm' ∉ "\n  ".toList := by simp
  have rest : 'm' ∉ "atch ".toList := by simp
  have mask : 'm' ∉ "/ffffffff at 16\n".toList := by simp
  constructor
  · unfold filterHead Tc.showClass
    exact List.not_mem_append (List.not_mem_append (List.not_mem_append (List.not_mem_append protocol number) table)
      (List.not_mem_append major minor)) indent
  · exact List.not_mem_append rest (List.not_mem_append address mask)

/-- No filter is found in the listing of the filters. -/
theorem finditer_showFilter (iface : Tc.Iface) : filterIpRe.finditer (Tc.showFilter iface) = [] := by
  cases iface with
  | none => rfl
  | some root =>
    apply finditer_eq_nil
    intro c d inside m
    obtain ⟨t, starts⟩ : ∃ t, c.rest = 'm' :: t := by
      obtain ⟨_, _, _, _, _, _, split, -⟩ := filterIpRe_inv m
      exact ⟨_, split⟩
    obtain ⟨f, -, u, rest, nonempty, suffix, split⟩ := suffix_flatMap inside (by rw [starts]; exact List.cons_ne_nil _ _)
    obtain ⟨x, u, rfl⟩ := List.exists_cons_of_ne_nil nonempty
    have first : x = 'm' := by
      rw [starts] at split
      exact (List.cons.inj split).1.symm
    subst first
    rw [showU32_eq] at suffix
    have tail := suffix_unique (m_not_mem f).1 (m_not_mem f).2 suffix
    have line : c.rest = "match".toList ++ (' ' :: (Tc.hexIp f.dst ++ ("/ffffffff".toList ++ (' ' :: ("at".toList ++
        (' ' :: ("16".toList ++ ('\n' :: rest)))))))) := by
      rw [split, tail]
      simp
    exact filterIpRe_miss isHexDigit_of_mem_hexIp line m

/-! ## The qdisc listing -/

/-- A `netem` qdisc whose handle is one word and whose delay is below one second. -/
structure Printable (item : Nat × Tc.Netem) : Prop where
  handle : Text.Word item.2.handle
  nonneg : 0 ≤ item.2.delayMs
  short : item.2.delayMs < 1000

/-- The groups of the line of a `netem` qdisc. -/
def netemGroups (item : Nat × Tc.Netem) : Groups :=
  [("handle", item.2.handle), ("parent", Tc.showClass item.1), ("delay", (toString item.2.delayMs).toList),
   ("unit", "ms".toList)]

/-- The line of a `netem` qdisc, cut where the parts of `_NETEM_RE` end. -/
theorem showNetem_eq (item : Nat × Tc.Netem) (rest : List Char) :
    Tc.showNetem item ++ rest =
      "qdisc".toList ++ (" ".toList ++ ("netem".toList ++ (" ".toList ++ (item.2.handle ++ (" ".toList ++
        ("parent".toList ++ (" ".toList ++ (Tc.showClass item.1 ++ (" ".toList ++ ("limit 1000 ".toList ++
          ("delay".toList ++ (" ".toList ++ ((toString item.2.delayMs).toList ++ ("ms".toList ++
            '\n' :: rest)))))))))))))) := by
  have kind : "qdisc netem ".toList = "qdisc".toList ++ " ".toList ++ "netem".toList ++ " ".toList := by simp
  have parent : " parent ".toList = " ".toList ++ "parent".toList ++ " ".toList := by simp
  have delay : " limit 1000 delay ".toList = " ".toList ++ "limit 1000 ".toList ++ "delay".toList ++ " ".toList := by
    simp
  have unit : "ms\n".toList = "ms".toList ++ ['\n'] := by simp
  unfold Tc.showNetem
  simp only [kind, parent, delay, unit, List.append_assoc, List.singleton_append]

theorem word_showClass (n : Nat) : Text.Word (Tc.showClass n) := by
  have major : "1:".toList = ['1', ':'] := by simp
  unfold Tc.showClass
  rw [major]
  constructor
  · exact List.cons_ne_nil _ _
  · intro c member
    rw [List.cons_append, List.cons_append, List.mem_cons, List.mem_cons, List.nil_append] at member
    rcases member with rfl | rfl | member
    · decide
    · decide
    · exact isHexDigit_not_space (isHexDigit_of_mem_toDigits n c member)

/-- A number is in the class of the group `delay`. -/
theorem decimal_of_digit {c : Char} (digit : c.isDigit = true) :
    ((Text.decimalValue c).isSome || c == '.') = true := by
  rw [Text.decimalValue_digit digit]
  rfl

theorem run_blank {γ : Type} {k : Cursor → Groups → Option γ} {rest : List Char} {g : Groups} {v : γ} {b : Option Char}
    (stop : ∀ h : rest ≠ [], Text.isSpace (rest.head h) = false) (done : k ⟨some ' ', rest⟩ g = some v) :
    run spaces1 ⟨b, " ".toList ++ rest⟩ g k = some v :=
  run_some1 (by decide) (Text.forall_of_all (by decide)) stop done

theorem run_word {γ : Type} {k : Cursor → Groups → Option γ} {w rest : List Char} {g : Groups} {v : γ}
    {b : Option Char} {name : String} (word : Text.Word w)
    (done : k ⟨w.getLast?.or b, " ".toList ++ rest⟩ (g ++ [(name, w)]) = some v) :
    run (.group name word1) ⟨b, w ++ (" ".toList ++ rest)⟩ g k = some v := by
  refine run_group_some1 word.1 (fun c member => ?_) (fun _ => ?_) done
  · rw [word.2 c member]
    rfl
  · rfl

/-- Of the units, `us` fails on the first character of `ms`. -/
theorem run_unit {γ : Type} {k : Cursor → Groups → Option γ} {rest : List Char} {g : Groups} {v : γ} {b : Option Char}
    (done : k ⟨some 's', rest⟩ (g ++ [("unit", "ms".toList)]) = some v) :
    run (.group "unit" (.alt (lit "us".toList) (.alt (lit "ms".toList) (lit "s".toList)))) ⟨b, "ms".toList ++ rest⟩ g k =
      some v := by
  have us : "us".toList = 'u' :: "s".toList := by simp
  have ms : "ms".toList = 'm' :: "s".toList := by simp
  have text : ("ms".toList ++ rest).take (("ms".toList ++ rest).length - rest.length) = "ms".toList := by
    rw [List.length_append, Nat.add_sub_cancel, List.take_left]
  have last : "ms".toList.getLast?.or b = some 's' := by
    rw [show "ms".toList = ['m', 's'] by simp]
    rfl
  have micro : ∀ k : Cursor → Groups → Option γ, run (lit "us".toList) ⟨b, "ms".toList ++ rest⟩ g k = none := by
    intro k
    rw [us, ms, List.cons_append]
    exact run_lit_ne (by decide) b g k
  rw [run, run, micro, Option.orElse_none, run, run_lit, last]
  dsimp only
  rw [text, done]
  rfl

theorem run_chain_cons {γ : Type} (r : Regex) (rs : List Regex) (c : Cursor) (g : Groups) (k : Cursor → Groups → Option γ) :
    run (chain (r :: rs)) c g k = run r c g fun c g => run (chain rs) c g k := rfl

/-- `_NETEM_RE` matches the line of a `netem` qdisc. -/
theorem matchAt_showNetem {item : Nat × Tc.Netem} (h : Printable item) (b : Option Char) (rest : List Char) :
    netemRe.matchAt ⟨b, Tc.showNetem item ++ rest⟩ = some (⟨some 's', '\n' :: rest⟩, netemGroups item) := by
  have digits : ∀ c ∈ (toString item.2.delayMs).toList, c.isDigit = true := by
    obtain ⟨n, eq⟩ := Int.eq_ofNat_of_zero_le h.nonneg
    rw [eq]
    exact isDigit_of_mem_toString
  have numeric : Text.Word (toString item.2.delayMs).toList := Text.word_toString _
  have delay : "delay".toList = 'd' :: "elay".toList := by simp
  have handle : ∀ {w l : List Char}, Text.Word w → ∀ h : w ++ l ≠ [], Text.isSpace ((w ++ l).head h) = false := by
    intro w l word h
    obtain ⟨x, w, rfl⟩ := List.exists_cons_of_ne_nil word.1
    exact word.2 x List.mem_cons_self
  rw [showNetem_eq, matchAt, netemRe, run_chain_cons, run_lit, run_chain_cons]
  apply run_blank (handle (by decide))
  rw [run_chain_cons, run_lit, run_chain_cons]
  apply run_blank (handle h.handle)
  rw [run_chain_cons]
  apply run_word h.handle
  rw [run_chain_cons]
  apply run_blank (handle (by decide))
  rw [run_chain_cons, run_lit, run_chain_cons]
  apply run_blank (handle (word_showClass _))
  rw [run_chain_cons]
  apply run_word (word_showClass _)
  rw [run_chain_cons]
  apply run_blank fun _ => by rfl
  rw [run_chain_cons, anything, run]
  dsimp only
  -- the lazy run passes the limit, which has no `d`
  rw [@runLazy_skip _ _ _ 'd']
  · apply runLazy_stop
    rw [run_chain_cons, run_lit, run_chain_cons]
    apply run_blank (handle numeric)
    rw [run_chain_cons]
    apply run_group_some1 numeric.1 (fun c member => decimal_of_digit (digits c member)) fun _ => by rfl
    rw [run_chain_cons]
    apply run_unit
    rw [run_chain_cons, run, if_pos (by rfl)]
    rfl
  · intro b c rest ne
    rw [run_chain_cons, delay, run_lit_ne ne]
  · exact Text.forall_of_all (by simp)

/-- A match starts with a `q`. -/
theorem matchAt_not_q {b : Option Char} {c : Char} {rest : List Char} (ne : c ≠ 'q') :
    netemRe.matchAt ⟨b, c :: rest⟩ = none := by
  have qdisc : "qdisc".toList = 'q' :: "disc".toList := by simp
  rw [matchAt, netemRe, run_chain_cons, qdisc]
  exact run_lit_ne ne b _ _

/-- `_NETEM_RE` finds the `netem` qdiscs in the order they are listed in. -/
theorem finditerFrom_netem {items : List (Nat × Tc.Netem)} (h : ∀ item ∈ items, Printable item) (b : Option Char)
    {fuel : Nat} (enough : (items.flatMap Tc.showNetem).length ≤ fuel) :
    finditerFrom netemRe fuel ⟨b, items.flatMap Tc.showNetem⟩ = items.map netemGroups := by
  induction items generalizing b fuel with
  | nil =>
    cases fuel with
    | zero => rfl
    | succ fuel => rfl
  | cons item items ih =>
    have found := matchAt_showNetem (h item List.mem_cons_self) b (items.flatMap Tc.showNetem)
    have long : 2 ≤ (Tc.showNetem item).length := by
      have unit : "ms\n".toList.length = 3 := by simp
      unfold Tc.showNetem
      simp only [List.length_append, unit]
      omega
    rw [List.flatMap_cons] at enough ⊢
    rw [List.length_append] at enough
    obtain ⟨fuel, rfl⟩ := Nat.exists_eq_add_of_le' (show 2 ≤ fuel by omega)
    have shorter : ('\n' :: items.flatMap Tc.showNetem).length <
        (Tc.showNetem item ++ items.flatMap Tc.showNetem).length := by
      rw [List.length_append, List.length_cons]
      omega
    have newline : finditerFrom netemRe (fuel + 1) ⟨some 's', '\n' :: items.flatMap Tc.showNetem⟩ =
        finditerFrom netemRe fuel ⟨some '\n', items.flatMap Tc.showNetem⟩ := by
      rw [finditerFrom, matchAt_not_q (by decide)]
    rw [finditerFrom_match found shorter, newline, List.map_cons,
      ih (fun item member => h item (List.mem_cons_of_mem _ member)) _ (by omega)]

/-- The line of the root qdisc behind its first character. -/
def prioLine (bands : Nat) : List Char :=
  "disc prio 1: root refcnt 2 bands ".toList ++ (toString bands).toList ++
    " priomap 0 0 0 0 0 0 0 0 0 0 0 0 0 0 0 0\n".toList

theorem showQdisc_eq (root : Tc.Prio) :
    Tc.showQdisc (some root) = ('q' :: prioLine root.bands) ++ root.netem.items.flatMap Tc.showNetem := by
  have cut : "qdisc prio 1: root refcnt 2 bands ".toList = 'q' :: "disc prio 1: root refcnt 2 bands ".toList := by
    simp
  unfold Tc.showQdisc prioLine
  simp only [cut, List.cons_append, List.append_assoc]

theorem q_not_mem_prioLine (bands : Nat) : 'q' ∉ prioLine bands := by
  have kind : 'q' ∉ "disc prio 1: root refcnt 2 bands ".toList := by simp
  have priomap : 'q' ∉ " priomap 0 0 0 0 0 0 0 0 0 0 0 0 0 0 0 0\n".toList := by simp
  have number : 'q' ∉ (toString bands).toList := fun member => absurd (isDigit_of_mem_toString _ member) (by decide)
  unfold prioLine
  exact List.not_mem_append (List.not_mem_append kind number) priomap

/-- The root qdisc is not a `netem` qdisc. -/
theorem matchAt_prioLine (b : Option Char) (bands : Nat) (rest : List Char) :
    netemRe.matchAt ⟨b, 'q' :: prioLine bands ++ rest⟩ = none := by
  apply matchAt_eq_none
  intro d m
  obtain ⟨c₁, m₁, m⟩ := m.seq_inv
  obtain ⟨c₂, m₂, m⟩ := m.seq_inv
  obtain ⟨c₃, m₃, -⟩ := m.seq_inv
  obtain ⟨w, nonempty, e, blank⟩ := m₂.some1_inv
  have cut : ('q' :: prioLine bands) ++ rest = "qdisc".toList ++ (' ' :: ('p' ::
      ("rio 1: root refcnt 2 bands ".toList ++ ((toString bands).toList ++
        (" priomap 0 0 0 0 0 0 0 0 0 0 0 0 0 0 0 0\n".toList ++ rest))))) := by
    have head : 'q' :: "disc prio 1: root refcnt 2 bands ".toList = "qdisc".toList ++ (' ' :: ('p' ::
        "rio 1: root refcnt 2 bands ".toList)) := by simp
    have whole : 'q' :: prioLine bands = ('q' :: "disc prio 1: root refcnt 2 bands ".toList) ++
        ((toString bands).toList ++ " priomap 0 0 0 0 0 0 0 0 0 0 0 0 0 0 0 0\n".toList) := by
      unfold prioLine
      rw [List.cons_append, List.append_assoc]
    rw [whole, head]
    simp only [List.append_assoc, List.cons_append]
  have split := m₁.lit_inv
  dsimp only at split
  rw [cut, e, m₃.lit_inv] at split
  have behind := one_space (List.append_cancel_left split).symm nonempty blank fun c first => by
    cases first
    decide
  have netem : "netem".toList = 'n' :: "etem".toList := by simp
  rw [netem] at behind
  exact absurd (List.cons.inj behind).1 (by decide)

/-- The listing of the qdiscs is read back. -/
theorem finditer_showQdisc {root : Tc.Prio} (h : ∀ item ∈ root.netem.items, Printable item) :
    netemRe.finditer (Tc.showQdisc (some root)) = root.netem.items.map netemGroups := by
  have miss : ∀ b u v, 'q' :: prioLine root.bands = u ++ v → v ≠ [] →
      netemRe.matchAt ⟨b, v ++ root.netem.items.flatMap Tc.showNetem⟩ = none := by
    intro b u v split nonempty
    obtain ⟨x, v, rfl⟩ := List.exists_cons_of_ne_nil nonempty
    by_cases q : x = 'q'
    · subst q
      cases u with
      | nil =>
        rw [← (List.cons.inj split).2]
        exact matchAt_prioLine b _ _
      | cons y u =>
        refine absurd ?_ (q_not_mem_prioLine root.bands)
        rw [(List.cons.inj split).2]
        simp
    · exact matchAt_not_q q
  have fuel : (Tc.showQdisc (some root)).length + 1 =
      ((root.netem.items.flatMap Tc.showNetem).length + 1) + ('q' :: prioLine root.bands).length := by
    rw [showQdisc_eq, List.length_append]
    omega
  rw [finditer, fuel, showQdisc_eq, finditerFrom_skip _ miss]
  exact finditerFrom_netem h _ (by omega)

/-- A line of the listing gives the delay it was printed from. -/
theorem delayOf_netemGroups {item : Nat × Tc.Netem} (h : Printable item) :
    delayOf (netemGroups item) = .ok item.2.delayMs := by
  obtain ⟨n, eq⟩ := Int.eq_ofNat_of_zero_le h.nonneg
  have small : n < 2 ^ 53 := by
    have short := h.short
    omega
  have delay : (netemGroups item).text "delay" = (toString n).toList := by
    show (toString item.2.delayMs).toList = (toString n).toList
    rw [eq]
    rfl
  have unit : (netemGroups item).text "unit" = "ms".toList := rfl
  rw [delayOf, delay, PyFloat.parse_toString small, unit]
  dsimp only
  rw [if_neg (by simp), if_neg (by simp), PyFloat.toInt, Option.map_some, eq]
  simp

/-- What `_parse_netem_bands` makes of a `netem` qdisc. -/
def netemInfo (item : Nat × Tc.Netem) : List Char × BandInfo :=
  (Tc.showClass item.1, ⟨Tc.showClass item.1, item.2.handle, item.2.delayMs⟩)

theorem parseNetemBands_showQdisc {root : Tc.Prio} (h : ∀ item ∈ root.netem.items, Printable item) :
    parseNetemBands (Tc.showQdisc (some root)) = .ok (Dict.ofPairs (root.netem.items.map netemInfo)) := by
  rw [parseNetemBands, finditer_showQdisc h, Dict.ofPairs]
  generalize (Dict.empty : Dict (List Char) BandInfo) = bands
  generalize root.netem.items = items at h
  induction items generalizing bands with
  | nil => rfl
  | cons item items ih =>
    have first := h item List.mem_cons_self
    rw [List.map_cons, List.foldlM_cons, delayOf_netemGroups first]
    exact ih _ fun item member => h item (List.mem_cons_of_mem _ member)

theorem matchBands_no_filters (bands : Dict (List Char) BandInfo) (targetIps : List String) :
    matchBands bands Dict.empty targetIps = Dict.empty := by
  unfold matchBands
  induction targetIps with
  | nil => rfl
  | cons ip targetIps ih => exact ih

/-- Nothing is found on a node whose qdiscs can be read back. -/
theorem exec_discoverBandsForIps {c : Cluster} (works : c.Works) {node : String} {root : Tc.Prio}
    (iface : (c.node node).iface = some root) (h : ∀ item ∈ root.netem.items, Printable item)
    (targetIps : List String) :
    (discoverBandsForIps node targetIps).exec c = (.ok Dict.empty, c) := by
  have no_filters : parseFilterIpToBand (Tc.showFilter (some root)) = Dict.empty := by
    rw [parseFilterIpToBand, finditer_showFilter]
    rfl
  rw [discoverBandsForIps, Proc.exec_bind_ok (Proc.exec_orNone_ok (exec_readOnNode works node _)), iface]
  dsimp only
  rw [parseNetemBands_showQdisc h]
  dsimp only
  rw [pure_bind]
  split
  · rfl
  · rw [Proc.exec_bind_ok (Proc.exec_orNone_ok (exec_readOnNode works node _)), iface]
    dsimp only
    rw [no_filters, matchBands_no_filters]
    rfl

end NetworkLatency

namespace NetworkLatencyManager

open NetworkLatency

/-- Discovery on a node finds the stored bands of the target IPs, and nothing else. -/
def DiscoveryAgrees (node : String) (targetIps : List String) (m : NetworkLatencyManager) (c : Cluster) : Prop :=
  ∃ found, (discoverBandsForIps node targetIps).exec c = (.ok found, c) ∧
    ∀ ip, found.get? ip = if ip ∈ targetIps then (m.nodeBands.getD node Dict.empty).get? ip else none

section Discovery

variable {node : String} {dest : Dict String Int} {root : Tc.Prio} {ipToBand : Dict String BandInfo}

theorem word_bandHandle (bandIdx : Nat) : Text.Word (bandHandle bandIdx) := by
  have number : Text.Word (toString (bandIdx * 10)).toList := Text.word_toString (bandIdx * 10 : Nat)
  have colon : ∀ c ∈ ":".toList, Text.isSpace c = false := Text.forall_of_all (by rfl)
  constructor
  · exact List.append_ne_nil_of_left_ne_nil number.1 _
  · intro c member
    rcases List.mem_append.mp member with digit | last
    · exact number.2 c digit
    · exact colon c last

/-- What is installed for delays below one second can be read back. -/
theorem Attached.printable {bands : Nat} (h : Attached bands (bandsOf dest) root ipToBand)
    (short : ∀ item ∈ dest.items, 0 ≤ item.2 ∧ item.2 < 1000) : ∀ item ∈ root.netem.items, Printable item := by
  intro item member
  obtain ⟨b, inside, -, -, eq⟩ := (h.netem _ _).mp ((Dict.get?_eq_some _).mpr member)
  obtain ⟨ip, -, delayed⟩ := exists_delayed inside
  have bounds := short _ ((Dict.get?_eq_some _).mp delayed)
  constructor
  · rw [eq]
    exact word_bandHandle b.2
  · rw [eq]
    exact bounds.1
  · rw [eq]
    exact bounds.2

/-- With at most eight delays, a band is stored for exactly the destinations of the map. -/
theorem Attached.stored_none (h : Attached ((delayToIps dest).items.length + 1) (bandsOf dest) root ipToBand)
    (few : (delayToIps dest).items.length ≤ 8) (ip : String) : ipToBand.get? ip = none ↔ dest.get? ip = none := by
  constructor
  · intro missing
    by_contra found
    obtain ⟨ms, delayed⟩ := Option.ne_none_iff_exists'.mp found
    obtain ⟨b, member, inside, -⟩ := exists_bandsOf delayed
    have stored := (h.stored ip b.info).mpr ⟨b, member, fits_of_mem member few, inside, rfl⟩
    rw [missing] at stored
    cases stored
  · intro missing
    by_contra found
    obtain ⟨info, stored⟩ := Option.ne_none_iff_exists'.mp found
    obtain ⟨b, member, -, inside, -⟩ := (h.stored ip info).mp stored
    rw [mem_bandsOf_ips member, missing] at inside
    cases inside

/-- After `_apply_node` on a node without a root qdisc, discovery agrees with the stored bands if
and only if no target IP is a destination. -/
theorem discovery_agrees_iff {m : NetworkLatencyManager} {w : World Cluster} (works : w.env.Works)
    (clean : (w.env.node node).iface = none) (some_delay : dest.items ≠ [])
    (few : (delayToIps dest).items.length ≤ 8) (short : ∀ item ∈ dest.items, 0 ≤ item.2 ∧ item.2 < 1000)
    (targetIps : List String) :
    DiscoveryAgrees node targetIps ((applyNode node dest).exec (m, w)).2.1 ((applyNode node dest).exec (m, w)).2.2.env ↔
      ∀ ip ∈ targetIps, dest.get? ip = none := by
  obtain ⟨root, ipToBand, ran, attached⟩ := exec_applyNode (m := m) works clean some_delay (by omega)
  have iface : ((w.env.setIface node (some root)).node node).iface = some root := by
    rw [iface_setIface, if_pos rfl]
  have nothing := exec_discoverBandsForIps (works.setIface node (some root)) iface (attached.printable short) targetIps
  have bands : (m.nodeBands.set node ipToBand).getD node Dict.empty = ipToBand := by
    rw [Dict.getD, Dict.get?_set_self, Option.getD_some]
  rw [ran]
  unfold DiscoveryAgrees
  dsimp only
  rw [nothing, bands]
  constructor
  · rintro ⟨found, eq, agrees⟩ ip target
    obtain rfl : Dict.empty = found := Except.ok.inj (Prod.mk.inj eq).1
    have missing := agrees ip
    rw [if_pos target, Dict.get?_empty] at missing
    exact (attached.stored_none few ip).mp missing.symm
  · intro outside
    refine ⟨Dict.empty, rfl, fun ip => ?_⟩
    rw [Dict.get?_empty]
    split
    · rename_i target
      exact ((attached.stored_none few ip).mpr (outside ip target)).symm
    · rfl

end Discovery

/-! ## One delayed address -/

section Examples

/-- Nodes without a root qdisc. -/
def bareNodes : Cluster where
  node _ := { tables := ⟨fun _ => [], Dict.empty⟩, iface := none, files := fun _ => none }
  ip _ := none
  outage _ := none

def bareWorld : World Cluster := ⟨fun _ => 0, bareNodes⟩

/-- The packets for one address are delayed. -/
def oneDelay : Dict String Int := Dict.ofPairs [("10.0.0.2", 50)]

/-- Discovery for an address that is not delayed. -/
theorem undelayed_agrees :
    DiscoveryAgrees "pg1" ["10.0.0.3"] ((applyNode "pg1" oneDelay).exec (init {}, bareWorld)).2.1
      ((applyNode "pg1" oneDelay).exec (init {}, bareWorld)).2.2.env := by
  have works : bareWorld.env.Works := fun _ => rfl
  refine (discovery_agrees_iff works rfl (by decide) (by decide) (by decide) _).mpr ?_
  decide

/-- Discovery for the address that is delayed. -/
theorem delayed_not_agrees :
    bareWorld.env.Works ∧ (bareWorld.env.node "pg1").iface = none ∧
      ¬ DiscoveryAgrees "pg1" ["10.0.0.2"] ((applyNode "pg1" oneDelay).exec (init {}, bareWorld)).2.1
        ((applyNode "pg1" oneDelay).exec (init {}, bareWorld)).2.2.env := by
  refine ⟨fun _ => rfl, rfl, ?_⟩
  rintro ⟨found, ran, agrees⟩
  have nothing : ((discoverBandsForIps "pg1" ["10.0.0.2"]).exec
      ((applyNode "pg1" oneDelay).exec (init {}, bareWorld)).2.2.env).1.toOption.map Dict.items = some [] := by
    decide +kernel
  have stored : ((((applyNode "pg1" oneDelay).exec (init {}, bareWorld)).2.1.nodeBands.getD "pg1" Dict.empty).get?
      "10.0.0.2").isSome := by rfl
  rw [ran] at nothing
  have missing := agrees "10.0.0.2"
  rw [if_pos (by decide), Dict.get?, Option.some.inj nothing] at missing
  rw [← missing] at stored
  cases stored

end Examples

end NetworkLatencyManager

end FaultStorm
