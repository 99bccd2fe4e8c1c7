import FaultStorm.Python.Dict

/-!
# The filter table of iptables

The builtin chains INPUT and OUTPUT and the user chains of one host, the commands on them,
each failing as iptables defines, and the packets a chain drops. An `Install` is a user
chain of drop rules linked to a builtin chain; `Over base l T` says that `T` is the table
`base` with the installs `l` on top, and the rules below say how the commands that set an
install up and take it down move `l`.
-/

namespace Iptables

open Python

/-- A builtin chain of the filter table. -/
inductive Hook
  | input | output
  deriving DecidableEq, Repr

/-- The name of a chain. -/
inductive Chain
  | builtin (hook : Hook)
  | user (name : String)
  deriving DecidableEq, Repr

/-- The target after `-j`. -/
inductive Target
  | drop
  | jump (chain : String)
  deriving DecidableEq, Repr

/-- A rule, with the addresses after `-s` and `-d`. -/
structure Rule where
  src : Option String := none
  dst : Option String := none
  target : Target
  deriving DecidableEq, Repr

/-- The rule `-j chain`. -/
def link (chain : String) : Rule := { target := .jump chain }

/-- The filter table of a host. -/
structure Tables where
  builtin : Hook → List Rule
  user : Dict String (List Rule)

inductive Command
  /-- `-N` -/
  | newChain (name : String)
  /-- `-A` -/
  | append (chain : Chain) (rule : Rule)
  /-- `-D` -/
  | delete (chain : Chain) (rule : Rule)
  /-- `-F` -/
  | flush (chain : Chain)
  /-- `-X` -/
  | deleteChain (name : String)
  deriving DecidableEq, Repr

namespace Tables

def rules (T : Tables) : Chain → Option (List Rule)
  | .builtin hook => some (T.builtin hook)
  | .user name => T.user.get? name

def setRules (T : Tables) (chain : Chain) (rules : List Rule) : Tables :=
  match chain with
  | .builtin hook => { T with builtin := fun h => if h = hook then rules else T.builtin h }
  | .user name => { T with user := T.user.set name rules }

/-- Some rule jumps to the chain. -/
def referenced (T : Tables) (name : String) : Prop :=
  (∃ hook, ∃ r ∈ T.builtin hook, r.target = .jump name) ∨
    ∃ item ∈ T.user.items, ∃ r ∈ item.2, r.target = .jump name

instance (T : Tables) (name : String) : Decidable (T.referenced name) :=
  decidable_of_iff
    (((∃ r ∈ T.builtin .input, r.target = .jump name) ∨ ∃ r ∈ T.builtin .output, r.target = .jump name) ∨
      ∃ item ∈ T.user.items, ∃ r ∈ item.2, r.target = .jump name)
    (or_congr_left
      ⟨Or.rec (fun h => ⟨_, h⟩) fun h => ⟨_, h⟩, fun ⟨hook, h⟩ => match hook with
        | .input => Or.inl h
        | .output => Or.inr h⟩)

end Tables

/-- Run a command: the table after it, or nothing if it fails. -/
def run : Command → Tables → Option Tables
  | .newChain name, T => if (T.user.get? name).isSome then none else some (T.setRules (.user name) [])
  | .append chain rule, T => (T.rules chain).map fun rules => T.setRules chain (rules ++ [rule])
  | .delete chain rule, T => (T.rules chain).bind fun rules =>
      if rule ∈ rules then some (T.setRules chain (rules.erase rule)) else none
  | .flush chain, T => (T.rules chain).map fun _ => T.setRules chain []
  | .deleteChain name, T =>
      if T.user.get? name = some [] ∧ ¬ T.referenced name then some { T with user := T.user.erase name }
      else none

/-- Run the commands in order, up to the first that fails. -/
def runAll : List Command → Tables → Tables
  | [], T => T
  | command :: rest, T => match run command T with
    | some T => runAll rest T
    | none => T

theorem runAll_cons_some {command : Command} {rest : List Command} {T T' : Tables}
    (runs : run command T = some T') : runAll (command :: rest) T = runAll rest T' := by
  rw [runAll, runs]

theorem runAll_cons_none {command : Command} {rest : List Command} {T : Tables}
    (fails : run command T = none) : runAll (command :: rest) T = T := by
  rw [runAll, fails]

/-! ## Packets -/

/-- The addresses of a packet. -/
structure Packet where
  src : String
  dst : String
  deriving DecidableEq, Repr

def Rule.Matches (r : Rule) (p : Packet) : Prop :=
  (∀ a, r.src = some a → a = p.src) ∧ ∀ a, r.dst = some a → a = p.dst

/-- Going through the rules drops the packet: some rule that matches it does, or jumps to a
chain that does. -/
inductive Drops (T : Tables) (p : Packet) : List Rule → Prop
  | rule {rules : List Rule} {r : Rule} (member : r ∈ rules) (matched : r.Matches p)
      (target : r.target = .drop) : Drops T p rules
  | jump {rules : List Rule} {r : Rule} {name : String} {inner : List Rule} (member : r ∈ rules)
      (matched : r.Matches p) (target : r.target = .jump name) (chain : T.user.get? name = some inner)
      (drops : Drops T p inner) : Drops T p rules

/-- The host drops the packet on its way through the builtin chain. -/
def Tables.drops (T : Tables) (hook : Hook) (p : Packet) : Prop := Drops T p (T.builtin hook)

theorem link_matches (chain : String) (p : Packet) : (link chain).Matches p :=
  ⟨nofun, nofun⟩

/-! ## Installs -/

/-- A user chain linked to a builtin chain. -/
structure Install where
  chain : String
  hook : Hook
  rules : List Rule
  deriving DecidableEq, Repr

/-- The links of the installs at a builtin chain. -/
def links (l : List Install) (hook : Hook) : List Rule :=
  (l.filter (·.hook = hook)).map (link ·.chain)

/-- The commands that create an install's chain and link it. -/
def createCommands (i : Install) : List Command :=
  [.newChain i.chain, .append (.builtin i.hook) (link i.chain)]

/-- The commands that take an install down. -/
def removeCommands (chain : String) (hook : Hook) : List Command :=
  [.flush (.user chain), .delete (.builtin hook) (link chain), .deleteChain chain]

/-- The table after the commands that create an install and fill it, each rule being tried. -/
def Install.build (i : Install) (T : Tables) : Tables :=
  i.rules.foldl (fun T r => runAll [.append (.user i.chain) r] T) (runAll (createCommands i) T)

/-- A chain name that a table neither has nor jumps to. -/
def Tables.Free (T : Tables) (name : String) : Prop := T.user.get? name = none ∧ ¬ T.referenced name

/-- `T` is `base` with the installs `l`, in the order they were linked. -/
structure Over (base : Tables) (l : List Install) (T : Tables) : Prop where
  builtin : ∀ hook, T.builtin hook = base.builtin hook ++ links l hook
  installed : ∀ i ∈ l, T.user.get? i.chain = some i.rules
  others : ∀ name, name ∉ l.map (·.chain) → T.user.get? name = base.user.get? name
  distinct : (l.map (·.chain)).Nodup
  free : ∀ i ∈ l, base.Free i.chain
  dropping : ∀ i ∈ l, ∀ r ∈ i.rules, r.target = .drop

theorem Over.base (base : Tables) : Over base [] base where
  builtin hook := (List.append_nil _).symm
  installed i member := by cases member
  others name _ := rfl
  distinct := List.nodup_nil
  free i member := by cases member
  dropping i member := by cases member

section Over

variable {base T : Tables} {l : List Install}

theorem Over.absent (h : Over base l T) {name : String} (free : base.Free name)
    (outside : name ∉ l.map (·.chain)) : T.user.get? name = none :=
  (h.others name outside).trans free.1

/-- Creating a chain and linking it adds an install without rules. -/
theorem Over.create (h : Over base l T) {name : String} (hook : Hook) (free : base.Free name)
    (outside : name ∉ l.map (·.chain)) :
    Over base (l ++ [⟨name, hook, []⟩]) (runAll (createCommands ⟨name, hook, []⟩) T) := by
  have created : run (.newChain name) T = some (T.setRules (.user name) []) := by
    simp [run, h.absent free outside]
  have linked : ∀ T : Tables, run (.append (.builtin hook) (link name)) T =
      some (T.setRules (.builtin hook) (T.builtin hook ++ [link name])) := fun _ => rfl
  rw [createCommands, runAll_cons_some created, runAll_cons_some (linked _)]
  have lookup : ∀ other, ((T.setRules (.user name) []).setRules (.builtin hook)
      ((T.setRules (.user name) []).builtin hook ++ [link name])).user.get? other =
      if other = name then some [] else T.user.get? other := fun other => Dict.get?_set ..
  refine ⟨?_, ?_, ?_, ?_, ?_, ?_⟩
  · intro other
    by_cases eq : other = hook
    · subst eq
      simp [runAll, Tables.setRules, h.builtin, links]
    · have ne : ¬ hook = other := fun e => eq e.symm
      simp [runAll, Tables.setRules, h.builtin, links, eq, ne]
  · intro i member
    rw [runAll, lookup]
    rcases List.mem_append.mp member with member | member
    · have ne : i.chain ≠ name := fun e => outside (List.mem_map.mpr ⟨i, member, e⟩)
      rw [if_neg ne]
      exact h.installed i member
    · rw [List.mem_singleton.mp member]
      exact if_pos rfl
  · intro other fresh
    simp only [List.map_append, List.map_cons, List.map_nil, List.mem_append, List.mem_singleton, not_or] at fresh
    rw [runAll, lookup, if_neg fresh.2]
    exact h.others other fresh.1
  · rw [List.map_append]
    exact List.Nodup.append h.distinct (List.nodup_singleton _) (List.disjoint_singleton.mpr outside)
  · intro i member
    rcases List.mem_append.mp member with member | member
    · exact h.free i member
    · rw [List.mem_singleton.mp member]
      exact free
  · intro i member
    rcases List.mem_append.mp member with member | member
    · exact h.dropping i member
    · rw [List.mem_singleton.mp member]
      exact List.forall_mem_nil _

/-- Appending a drop rule to the last install. -/
theorem Over.append {name : String} {hook : Hook} {rules : List Rule} {r : Rule}
    (h : Over base (l ++ [⟨name, hook, rules⟩]) T) (drop : r.target = .drop) :
    Over base (l ++ [⟨name, hook, rules ++ [r]⟩]) (runAll [.append (.user name) r] T) := by
  have last : T.user.get? name = some rules := h.installed ⟨name, hook, rules⟩ (by simp)
  have appended : run (.append (.user name) r) T = some (T.setRules (.user name) (rules ++ [r])) := by
    simp [run, Tables.rules, last]
  rw [runAll_cons_some appended]
  have outside : name ∉ l.map (·.chain) := by
    have distinct := h.distinct
    simp only [List.map_append, List.map_cons, List.map_nil, List.nodup_append] at distinct
    intro member
    exact distinct.2.2 name member name (by simp) rfl
  have lookup : ∀ other, (T.setRules (.user name) (rules ++ [r])).user.get? other =
      if other = name then some (rules ++ [r]) else T.user.get? other := fun other => Dict.get?_set ..
  refine ⟨?_, ?_, ?_, ?_, ?_, ?_⟩
  · intro other
    have before := h.builtin other
    simp only [links, List.filter_append, List.map_append, List.filter_cons, List.filter_nil] at before ⊢
    by_cases eq : hook = other <;> simpa [runAll, Tables.setRules, eq] using before
  · intro i member
    rw [runAll, lookup]
    rcases List.mem_append.mp member with member | member
    · have ne : i.chain ≠ name := fun e => outside (List.mem_map.mpr ⟨i, member, e⟩)
      rw [if_neg ne]
      exact h.installed i (List.mem_append_left _ member)
    · rw [List.mem_singleton.mp member]
      exact if_pos rfl
  · intro other fresh
    have fresh' : other ∉ (l ++ [(⟨name, hook, rules⟩ : Install)]).map (·.chain) := by simpa using fresh
    simp only [List.map_append, List.map_cons, List.map_nil, List.mem_append, List.mem_singleton, not_or] at fresh
    rw [runAll, lookup, if_neg fresh.2]
    exact h.others other fresh'
  · simpa using h.distinct
  · intro i member
    rcases List.mem_append.mp member with member | member
    · exact h.free i (List.mem_append_left _ member)
    · have free : base.Free name := h.free ⟨name, hook, rules⟩ (by simp)
      rw [List.mem_singleton.mp member]
      exact free
  · intro i member s rule
    rcases List.mem_append.mp member with member | member
    · exact h.dropping i (List.mem_append_left _ member) s rule
    · rw [List.mem_singleton.mp member] at rule
      rcases List.mem_append.mp rule with rule | rule
      · exact h.dropping ⟨name, hook, rules⟩ (by simp) s rule
      · rw [List.mem_singleton.mp rule]
        exact drop

/-- Building an install adds it. -/
theorem Over.build (h : Over base l T) {i : Install} (free : base.Free i.chain)
    (outside : i.chain ∉ l.map (·.chain)) (dropping : ∀ r ∈ i.rules, r.target = .drop) :
    Over base (l ++ [i]) (i.build T) := by
  obtain ⟨name, hook, rules⟩ := i
  have appended : ∀ (rules before : List Rule) (T : Tables), (∀ r ∈ rules, r.target = .drop) →
      Over base (l ++ [⟨name, hook, before⟩]) T →
      Over base (l ++ [⟨name, hook, before ++ rules⟩])
        (rules.foldl (fun T r => runAll [.append (.user name) r] T) T) := by
    intro rules
    induction rules with
    | nil => exact fun before T _ h => by simpa using h
    | cons r rules ih =>
      intro before T dropping h
      have later := ih (before ++ [r]) _ (fun s member => dropping s (List.mem_cons_of_mem r member))
        (h.append (dropping r List.mem_cons_self))
      simpa using later
  exact appended rules [] _ dropping (h.create hook free outside)

/-- Taking down a chain that is not there changes nothing. -/
theorem runAll_remove_absent {name : String} (hook : Hook) (absent : T.user.get? name = none) :
    runAll (removeCommands name hook) T = T := by
  apply runAll_cons_none
  simp [run, Tables.rules, absent]

theorem links_remove {i : Install} (distinct : (l.map (·.chain)).Nodup) (member : i ∈ l) (hook : Hook) :
    links (l.filter (·.chain ≠ i.chain)) hook =
      if hook = i.hook then (links l hook).erase (link i.chain) else links l hook := by
  induction l with
  | nil => cases member
  | cons j l ih =>
    obtain ⟨fresh, distinct⟩ := List.nodup_cons.mp distinct
    rcases List.mem_cons.mp member with rfl | member
    · have rest : l.filter (·.chain ≠ i.chain) = l := by
        refine List.filter_eq_self.mpr fun k hk => ?_
        have ne : k.chain ≠ i.chain := fun e => fresh (List.mem_map.mpr ⟨k, hk, e⟩)
        simpa using ne
      rw [List.filter_cons, if_neg (by simp), rest]
      by_cases eq : hook = i.hook
      · simp [links, eq]
      · have ne : ¬ i.hook = hook := fun e => eq e.symm
        simp [links, eq, ne]
    · have ne : j.chain ≠ i.chain := fun e => fresh (List.mem_map.mpr ⟨i, member, e.symm⟩)
      have later := ih distinct member
      rw [List.filter_cons, if_pos (by simpa using ne)]
      by_cases here : j.hook = hook
      · have kept : link j.chain ≠ link i.chain := by simpa [link] using ne
        simp only [links, List.filter_cons, here, decide_true, if_true, List.map_cons] at later ⊢
        rw [later]
        split
        · rw [List.erase_cons_tail (by simpa using kept)]
        · rfl
      · simpa [links, List.filter_cons, here] using later

/-- Taking an install down removes it. -/
theorem Over.remove (h : Over base l T) {i : Install} (member : i ∈ l) :
    Over base (l.filter (·.chain ≠ i.chain)) (runAll (removeCommands i.chain i.hook) T) := by
  have free := h.free i member
  have linked : link i.chain ∈ T.builtin i.hook := by
    rw [h.builtin]
    exact List.mem_append_right _ (List.mem_map.mpr ⟨i, List.mem_filter.mpr ⟨member, by simp⟩, rfl⟩)
  let T₁ := T.setRules (.user i.chain) []
  let T₂ := T₁.setRules (.builtin i.hook) ((T.builtin i.hook).erase (link i.chain))
  have flushed : run (.flush (.user i.chain)) T = some T₁ := by
    simp [run, Tables.rules, h.installed i member, T₁]
  have unlinked : run (.delete (.builtin i.hook) (link i.chain)) T₁ = some T₂ := by
    show (if link i.chain ∈ T.builtin i.hook then some T₂ else none) = some T₂
    exact if_pos linked
  have builtin : ∀ hook, T₂.builtin hook =
      base.builtin hook ++ links (l.filter (·.chain ≠ i.chain)) hook := by
    intro hook
    rw [links_remove h.distinct member]
    have outside : link i.chain ∉ base.builtin hook := fun there =>
      free.2 (Or.inl ⟨hook, _, there, rfl⟩)
    by_cases eq : hook = i.hook
    · subst eq
      rw [if_pos rfl, ← List.erase_append_right _ outside, ← h.builtin]
      exact if_pos rfl
    · rw [if_neg eq, ← h.builtin]
      exact if_neg eq
  have lookup : ∀ name, T₂.user.get? name = if name = i.chain then some [] else T.user.get? name :=
    fun name => Dict.get?_set ..
  have unreferenced : ¬ T₂.referenced i.chain := by
    rintro (⟨hook, r, there, jump⟩ | ⟨⟨name, rules⟩, there, r, rule, jump⟩)
    · rw [builtin hook] at there
      rcases List.mem_append.mp there with there | there
      · exact free.2 (Or.inl ⟨hook, r, there, jump⟩)
      · obtain ⟨j, hj, rfl⟩ := List.mem_map.mp there
        have ne := (List.mem_filter.mp (List.mem_filter.mp hj).1).2
        simp only [link, Target.jump.injEq] at jump
        simp [jump] at ne
    · have found := (Dict.get?_eq_some _).mpr there
      rw [lookup] at found
      split at found
      · cases found
        cases rule
      · by_cases known : name ∈ l.map (·.chain)
        · obtain ⟨j, hj, rfl⟩ := List.mem_map.mp known
          rw [h.installed j hj] at found
          cases found
          rw [h.dropping j hj r rule] at jump
          cases jump
        · rw [h.others name known] at found
          exact free.2 (Or.inr ⟨(name, rules), (Dict.get?_eq_some _).mp found, r, rule, jump⟩)
  have deleted : run (.deleteChain i.chain) T₂ = some { T₂ with user := T₂.user.erase i.chain } := by
    rw [run, if_pos ⟨by rw [lookup, if_pos rfl], unreferenced⟩]
  rw [removeCommands, runAll_cons_some flushed, runAll_cons_some unlinked, runAll_cons_some deleted]
  have after : ∀ name, (T₂.user.erase i.chain).get? name =
      if name = i.chain then none else T.user.get? name := by
    intro name
    rw [Dict.get?_erase, lookup]
    split <;> rfl
  have kept : ∀ {j}, j ∈ l.filter (·.chain ≠ i.chain) → j ∈ l ∧ j.chain ≠ i.chain := by
    intro j hj
    simpa using List.mem_filter.mp hj
  refine ⟨builtin, ?_, ?_, ?_, ?_, ?_⟩
  · intro j hj
    rw [runAll, after, if_neg (kept hj).2]
    exact h.installed j (kept hj).1
  · intro name outside
    rw [runAll, after]
    by_cases eq : name = i.chain
    · rw [if_pos eq, eq, free.1]
    · rw [if_neg eq]
      refine h.others name fun there => outside ?_
      obtain ⟨j, hj, rfl⟩ := List.mem_map.mp there
      exact List.mem_map.mpr ⟨j, List.mem_filter.mpr ⟨hj, by simpa using eq⟩, rfl⟩
  · exact h.distinct.sublist (List.filter_sublist.map _)
  · exact fun j hj => h.free j (kept hj).1
  · exact fun j hj => h.dropping j (kept hj).1

/-- Taking down a free chain name, whether an install has it or not. -/
theorem Over.removeAny (h : Over base l T) {name : String} {hook : Hook} (free : base.Free name)
    (at_hook : ∀ i ∈ l, i.chain = name → i.hook = hook) :
    Over base (l.filter (·.chain ≠ name)) (runAll (removeCommands name hook) T) := by
  by_cases known : name ∈ l.map (·.chain)
  · obtain ⟨i, member, rfl⟩ := List.mem_map.mp known
    rw [← at_hook i member rfl]
    exact h.remove member
  · have kept : l.filter (·.chain ≠ name) = l := by
      refine List.filter_eq_self.mpr fun i member => ?_
      have ne : i.chain ≠ name := fun eq => known (List.mem_map.mpr ⟨i, member, eq⟩)
      simpa using ne
    rw [kept, runAll_remove_absent hook (h.absent free known)]
    exact h

end Over

/-! ## Commands that fail -/

section Failing

variable {base T T' : Tables} {l : List Install} {name : String}

/-- A drop rule for the chain of an install goes to that install. -/
theorem Over.fill (h : Over base l T) (known : name ∈ l.map (·.chain)) {r : Rule} (drop : r.target = .drop) :
    ∃ l', Over base l' (runAll [.append (.user name) r] T) ∧
      l'.map (fun i => (i.chain, i.hook)) = l.map fun i => (i.chain, i.hook) := by
  obtain ⟨i, member, rfl⟩ := List.mem_map.mp known
  have there : T.user.get? i.chain = some i.rules := h.installed i member
  have appended : run (.append (.user i.chain) r) T = some (T.setRules (.user i.chain) (i.rules ++ [r])) := by
    simp [run, Tables.rules, there]
  let grow : Install → Install := fun j => if j.chain = i.chain then { j with rules := i.rules ++ [r] } else j
  have chain : ∀ j, (grow j).chain = j.chain := by
    intro j
    simp only [grow]
    split <;> rfl
  have hook : ∀ j, (grow j).hook = j.hook := by
    intro j
    simp only [grow]
    split <;> rfl
  have chains : (l.map grow).map (·.chain) = l.map (·.chain) := by
    rw [List.map_map]
    exact List.map_congr_left fun j _ => chain j
  have same_links : ∀ hook', links (l.map grow) hook' = links l hook' := by
    intro hook'
    unfold links
    rw [List.filter_map, List.map_map]
    have kept : l.filter ((fun j => decide (j.hook = hook')) ∘ grow) = l.filter fun j => decide (j.hook = hook') :=
      List.filter_congr fun j _ => by rw [Function.comp_apply, hook]
    rw [kept]
    exact List.map_congr_left fun j _ => congrArg link (chain j)
  have lookup : ∀ other, (T.setRules (.user i.chain) (i.rules ++ [r])).user.get? other =
      if other = i.chain then some (i.rules ++ [r]) else T.user.get? other := fun other => Dict.get?_set ..
  rw [runAll_cons_some appended, runAll]
  refine ⟨l.map grow, ⟨?_, ?_, ?_, ?_, ?_, ?_⟩, ?_⟩
  · intro hook'
    rw [same_links]
    exact h.builtin hook'
  · intro j hj
    obtain ⟨k, hk, rfl⟩ := List.mem_map.mp hj
    rw [lookup, chain]
    by_cases here : k.chain = i.chain
    · rw [if_pos here]
      exact congrArg some (by simp [grow, here])
    · rw [if_neg here, h.installed k hk]
      exact congrArg some (by simp [grow, here])
  · intro other outside
    rw [chains] at outside
    have ne : other ≠ i.chain := fun eq => outside (eq ▸ List.mem_map_of_mem member)
    rw [lookup, if_neg ne]
    exact h.others other outside
  · rw [chains]
    exact h.distinct
  · intro j hj
    obtain ⟨k, hk, rfl⟩ := List.mem_map.mp hj
    rw [chain]
    exact h.free k hk
  · intro j hj s rule
    obtain ⟨k, hk, rfl⟩ := List.mem_map.mp hj
    simp only [grow] at rule
    split at rule
    · rcases List.mem_append.mp rule with old | new
      · exact h.dropping i member s old
      · rw [List.mem_singleton.mp new]
        exact drop
    · exact h.dropping k hk s rule
  · rw [List.map_map]
    exact List.map_congr_left fun j _ => Prod.ext (chain j) (hook j)

/-- A user chain that no builtin chain has a link to. -/
structure Unlinked (name : String) (T : Tables) : Prop where
  there : (T.user.get? name).isSome
  unlinked : ∀ hook, link name ∉ T.builtin hook

theorem Unlinked.congr (h : Unlinked name T) (there : (T'.user.get? name).isSome)
    (builtin : ∀ hook, ∀ r ∈ T'.builtin hook, r ∈ T.builtin hook ∨ r ≠ link name) : Unlinked name T' := by
  refine ⟨there, fun hook member => ?_⟩
  rcases builtin hook _ member with old | other
  · exact h.unlinked hook old
  · exact other rfl

theorem setRules_user_isSome (T : Tables) (other : String) (rules : List Rule) (there : (T.user.get? name).isSome) :
    ((T.setRules (.user other) rules).user.get? name).isSome := by
  show ((T.user.set other rules).get? name).isSome
  rw [Dict.get?_set]
  split
  · rfl
  · exact there

/-- Creating the chain again fails, and creating another one leaves it unlinked. -/
theorem Unlinked.newChain (h : Unlinked name T) {other : String} (ran : run (.newChain other) T = some T') :
    Unlinked name T' ∧ other ≠ name := by
  rw [run] at ran
  split at ran
  · cases ran
  · rename_i absent
    cases ran
    refine ⟨h.congr (setRules_user_isSome T other [] h.there) fun _ _ member => Or.inl member, ?_⟩
    exact fun eq => absent (eq ▸ h.there)

/-- Linking another chain leaves it unlinked. -/
theorem Unlinked.linkOther (h : Unlinked name T) {other : String} (ne : other ≠ name) (hook : Hook) :
    Unlinked name (runAll [.append (.builtin hook) (link other)] T) := by
  refine h.congr h.there fun hook' r member => ?_
  have rules : r ∈ (if hook' = hook then T.builtin hook ++ [link other] else T.builtin hook') := member
  split at rules
  · rename_i here
    rcases List.mem_append.mp rules with old | new
    · exact Or.inl (here ▸ old)
    · rw [List.mem_singleton.mp new]
      exact Or.inr fun eq => ne (by simpa [link] using eq)
  · exact Or.inl rules

/-- A rule for a user chain leaves it unlinked. -/
theorem Unlinked.append (h : Unlinked name T) (other : String) (r : Rule) :
    Unlinked name (runAll [.append (.user other) r] T) := by
  cases found : T.user.get? other with
  | none =>
    have refused : run (.append (.user other) r) T = none := by simp [run, Tables.rules, found]
    rw [runAll_cons_none refused]
    exact h
  | some rules =>
    have appended : run (.append (.user other) r) T = some (T.setRules (.user other) (rules ++ [r])) := by
      simp [run, Tables.rules, found]
    rw [runAll_cons_some appended]
    exact h.congr (setRules_user_isSome T other _ h.there) fun _ _ member => Or.inl member

/-- Taking chains down stops at the missing link of an unlinked chain. -/
theorem Unlinked.remove (h : Unlinked name T) (other : String) (hook : Hook) :
    Unlinked name (runAll (removeCommands other hook) T) := by
  cases found : T.user.get? other with
  | none =>
    rw [runAll_remove_absent hook found]
    exact h
  | some rules =>
    have flushed : run (.flush (.user other)) T = some (T.setRules (.user other) []) := by
      simp [run, Tables.rules, found]
    have emptied : Unlinked name (T.setRules (.user other) []) :=
      h.congr (setRules_user_isSome T other [] h.there) fun _ _ member => Or.inl member
    rw [removeCommands, runAll_cons_some flushed]
    by_cases linked : link other ∈ (T.setRules (.user other) []).builtin hook
    · have ne : other ≠ name := fun eq => emptied.unlinked hook (eq ▸ linked)
      have deleted : run (.delete (.builtin hook) (link other)) (T.setRules (.user other) []) =
          some ((T.setRules (.user other) []).setRules (.builtin hook)
            (((T.setRules (.user other) []).builtin hook).erase (link other))) := if_pos linked
      have erased : Unlinked name ((T.setRules (.user other) []).setRules (.builtin hook)
          (((T.setRules (.user other) []).builtin hook).erase (link other))) := by
        refine emptied.congr emptied.there fun hook' r member => Or.inl ?_
        have rules : r ∈ (if hook' = hook then ((T.setRules (.user other) []).builtin hook).erase (link other)
            else (T.setRules (.user other) []).builtin hook') := member
        split at rules
        · rename_i here
          exact here ▸ List.mem_of_mem_erase rules
        · exact rules
      rw [runAll_cons_some deleted, runAll]
      split
      · rename_i T' ran
        rw [run] at ran
        split at ran
        · cases ran
          refine erased.congr ?_ fun _ _ member => Or.inl member
          show ((Dict.erase _ other).get? name).isSome
          rw [Dict.get?_erase, if_neg ne.symm]
          exact erased.there
        · cases ran
      · exact erased
    · have refused : run (.delete (.builtin hook) (link other)) (T.setRules (.user other) []) = none := if_neg linked
      rw [runAll_cons_none refused]
      exact emptied

end Failing

/-! ## What a table with installs drops -/

section Drops

variable {base T : Tables} {l : List Install} {p : Packet}

theorem drops_append {a b : List Rule} : Drops T p (a ++ b) ↔ Drops T p a ∨ Drops T p b := by
  constructor
  · rintro (⟨member, matched, target⟩ | ⟨member, matched, target, chain, inner⟩)
    · exact (List.mem_append.mp member).imp (.rule · matched target) (.rule · matched target)
    · exact (List.mem_append.mp member).imp (.jump · matched target chain inner)
        (.jump · matched target chain inner)
  · rintro ((⟨member, matched, target⟩ | ⟨member, matched, target, chain, inner⟩) |
      (⟨member, matched, target⟩ | ⟨member, matched, target, chain, inner⟩))
    · exact .rule (List.mem_append_left _ member) matched target
    · exact .jump (List.mem_append_left _ member) matched target chain inner
    · exact .rule (List.mem_append_right _ member) matched target
    · exact .jump (List.mem_append_right _ member) matched target chain inner

/-- A list of drop rules drops what one of them matches. -/
theorem drops_dropping {rules : List Rule} (dropping : ∀ r ∈ rules, r.target = .drop) :
    Drops T p rules ↔ ∃ r ∈ rules, r.Matches p := by
  constructor
  · rintro (⟨member, matched, target⟩ | ⟨member, matched, target, chain, inner⟩)
    · exact ⟨_, member, matched⟩
    · rw [dropping _ member] at target
      cases target
  · rintro ⟨r, member, matched⟩
    exact .rule member matched (dropping r member)

/-- Rules that jump to no install are unaffected by the installs. -/
theorem Over.drops_base (h : Over base l T) {rules : List Rule}
    (away : ∀ r ∈ rules, ∀ i ∈ l, r.target ≠ .jump i.chain) : Drops T p rules ↔ Drops base p rules := by
  constructor
  · intro drops
    induction drops with
    | rule member matched target => exact .rule member matched target
    | @jump rules r name inner member matched target chain _ ih =>
      have outside : name ∉ l.map (·.chain) := by
        intro there
        obtain ⟨i, hi, rfl⟩ := List.mem_map.mp there
        exact away r member i hi target
      rw [h.others name outside] at chain
      refine .jump member matched target chain (ih fun s rule i hi jump => ?_)
      exact (h.free i hi).2 (Or.inr ⟨(name, inner), (Dict.get?_eq_some _).mp chain, s, rule, jump⟩)
  · intro drops
    clear away
    induction drops with
    | rule member matched target => exact .rule member matched target
    | @jump rules r name inner member matched target chain _ ih =>
      have outside : name ∉ l.map (·.chain) := by
        intro there
        obtain ⟨i, hi, rfl⟩ := List.mem_map.mp there
        rw [(h.free i hi).1] at chain
        cases chain
      exact .jump member matched target ((h.others name outside).trans chain) ih

/-- A table with installs drops what its base drops and what an install's rule matches. -/
theorem Over.drops_iff (h : Over base l T) (hook : Hook) :
    T.drops hook p ↔ base.drops hook p ∨ ∃ i ∈ l, i.hook = hook ∧ ∃ r ∈ i.rules, r.Matches p := by
  unfold Tables.drops
  rw [h.builtin, drops_append, h.drops_base]
  · refine or_congr_right ?_
    constructor
    · rintro (⟨member, matched, target⟩ | @⟨_, r, name, inner, member, matched, target, chain, drops⟩)
      · obtain ⟨i, _, rfl⟩ := List.mem_map.mp member
        cases target
      · obtain ⟨i, hi, rfl⟩ := List.mem_map.mp member
        obtain ⟨hi, at_hook⟩ := List.mem_filter.mp hi
        cases target
        rw [h.installed i hi] at chain
        cases chain
        exact ⟨i, hi, by simpa using at_hook, (drops_dropping (h.dropping i hi)).mp drops⟩
    · rintro ⟨i, hi, rfl, matched⟩
      exact .jump (List.mem_map.mpr ⟨i, List.mem_filter.mpr ⟨hi, by simp⟩, rfl⟩) (link_matches ..) rfl
        (h.installed i hi) ((drops_dropping (h.dropping i hi)).mpr matched)
  · intro r member i hi jump
    exact (h.free i hi).2 (Or.inl ⟨hook, r, member, jump⟩)

/-- Without installs the table is its base again. -/
theorem Over.restored (h : Over base [] T) :
    T.builtin = base.builtin ∧ T.user.get? = base.user.get? := by
  constructor
  · funext hook
    exact (h.builtin hook).trans (List.append_nil _)
  · funext name
    exact h.others name List.not_mem_nil

end Drops

end Iptables
