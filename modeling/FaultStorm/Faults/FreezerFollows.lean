import FaultStorm.Faults.FreezerRuns
import FaultStorm.Faults.RandomDelay

/-!
# The process freezer and the freeze actions

What the daemon does while the flag file is one that a freeze action writes, or as much of it as is
written when the daemon reads it: it stops processes that a pattern of an action found, for delays of
that action, and ends by itself only if the file goes away between its test and its reading. Once the
file is removed, as a heal does, the daemon lets go of the process it holds. The step that reads the
file stands for its reading line by line, during which the file may grow, but not be rewritten.
-/

namespace FaultStorm.ProcessFreezer

open Python

/-! ## A flag file as far as it is written -/

section Torn

variable {a : BaseFreezeAction} {text : List Char}

/-- Complete lines are read before what follows them. -/
theorem readLines_append {lines : List (List Char)} (plain : ∀ l ∈ lines, '\n' ∉ l) (rest : List Char) :
    readLines (lines.flatMap (· ++ ['\n']) ++ rest) = lines ++ readLines rest := by
  have nonempty : rest.splitOn '\n' ≠ [] := List.splitOn_ne_nil _ _
  have split : (lines.flatMap (· ++ ['\n']) ++ rest).splitOn '\n' = lines ++ rest.splitOn '\n' := by
    induction lines with
    | nil => rfl
    | cons l lines ih =>
      rw [List.flatMap_cons, List.append_assoc, List.append_assoc, List.singleton_append,
        List.splitOn_append_cons_self_of_not_mem (plain l List.mem_cons_self),
        ih fun k member => plain k (List.mem_cons_of_mem l member), List.cons_append]
  rw [readLines, split, List.dropLast_append_of_ne_nil nonempty, readLines]

/-- A text is the lines that are read from it, and a last line without its end. -/
theorem text_lines (text : List Char) : ∃ last, text = (readLines text).flatMap (· ++ ['\n']) ++ last := by
  have parts : ∀ (init : List (List Char)) (last : List Char),
      List.intercalate ['\n'] (init ++ [last]) = init.flatMap (· ++ ['\n']) ++ last := by
    intro init last
    induction init with
    | nil => simp
    | cons part init ih =>
      have more : init ++ [last] ≠ [] := List.concat_ne_nil last init
      rw [List.cons_append, List.intercalate_cons_of_ne_nil more, ih, List.flatMap_cons, List.append_assoc, List.append_assoc,
        List.append_assoc]
  have nonempty : text.splitOn '\n' ≠ [] := List.splitOn_ne_nil _ _
  refine ⟨(text.splitOn '\n').getLast nonempty, ?_⟩
  rw [readLines, ← parts, List.dropLast_append_getLast nonempty, List.intercalate_splitOn]

theorem readLines_prefix {file : List Char} (torn : text <+: file) : readLines text <+: readLines file := by
  obtain ⟨rest, rfl⟩ := torn
  obtain ⟨last, eq⟩ := text_lines text
  have plain : ∀ l ∈ readLines text, '\n' ∉ l := fun l member =>
    not_mem_of_mem_splitOn l (List.dropLast_subset _ member)
  refine ⟨readLines (last ++ rest), ?_⟩
  rw [← readLines_append plain, ← List.append_assoc, ← eq]

/-- `read` at a place in the file: the line that begins there, if it is written to its end, and the place
behind it. -/
def readAt (text : List Char) (place : Nat) : Option (List Char × Nat) :=
  match (text.drop place).splitOn '\n' with
  | line :: _ :: _ => some (line, place + line.length + 1)
  | _ => none

/-- The loop of `parse_flag_file` from a place in the file, which may change from one `read` to the next:
`seen` is the file at each of them. The loop is over when a `read` returns no line. -/
def readLoop (state : Bool × FlagFile) (place : Nat) : List (List Char) → Option (Bool × FlagFile)
  | [] => none
  | text :: seen => match readAt text place with
    | none => some state
    | some (line, place) => readLoop (parseLine state line) place seen

theorem readLoop_lines {state after : Bool × FlagFile} {lines seen : List (List Char)}
    (plain : ∀ l ∈ lines, '\n' ∉ l) (begun : ∀ text ∈ seen, lines.flatMap (· ++ ['\n']) <+: text) (grows : seen.Pairwise (· <+: ·))
    (ended : readLoop (lines.foldl parseLine state) (lines.flatMap (· ++ ['\n'])).length seen = some after) :
    ∃ text ∈ seen, after = (readLines text).foldl parseLine state := by
  induction seen generalizing lines with
  | nil => cases ended
  | cons text seen ih =>
    obtain ⟨rest, rfl⟩ := begun text List.mem_cons_self
    obtain ⟨longer, grows⟩ := List.pairwise_cons.mp grows
    have nonempty : rest.splitOn '\n' ≠ [] := List.splitOn_ne_nil _ _
    rw [readLoop, readAt, List.drop_left] at ended
    rcases parts : rest.splitOn '\n' with _ | ⟨line, _ | ⟨next, more⟩⟩
    · exact absurd parts nonempty
    · -- no line is written to its end, so the file has no more lines than were read
      have none : readLines rest = [] := by rw [readLines, parts]; rfl
      rw [parts] at ended
      refine ⟨_, List.mem_cons_self, ?_⟩
      rw [readLines_append plain, none, List.append_nil]
      exact (Option.some.inj ended).symm
    · have short : '\n' ∉ line := not_mem_of_mem_splitOn line (by rw [parts]; exact List.mem_cons_self)
      have written : line ++ ['\n'] <+: rest := by
        have whole : List.intercalate ['\n'] (rest.splitOn '\n') = rest := List.intercalate_splitOn '\n'
        rw [parts, List.intercalate_cons_cons] at whole
        exact ⟨_, whole⟩
      have terminated : (lines ++ [line]).flatMap (· ++ ['\n']) = lines.flatMap (· ++ ['\n']) ++ (line ++ ['\n']) := by
        simp
      rw [parts] at ended
      obtain ⟨text, among, eq⟩ := @ih (lines ++ [line])
        (List.forall_mem_append.mpr ⟨plain, List.forall_mem_singleton.mpr short⟩)
        (fun text member => by
          rw [terminated]
          exact ((List.prefix_append_right_inj _).mpr written).trans (longer text member))
        grows
        (by
          rw [terminated, List.foldl_append, List.length_append, List.length_append, ← Nat.add_assoc]
          exact ended)
      exact ⟨text, List.mem_cons_of_mem _ among, eq⟩

/-- A file that only grows while it is read line by line is read as it is at the last `read`. -/
theorem readLoop_growing {after : Bool × FlagFile} {seen : List (List Char)} (grows : seen.Pairwise (· <+: ·))
    (ended : readLoop (false, .default) 0 seen = some after) : ∃ text ∈ seen, after.2 = parseFlagFile text := by
  obtain ⟨text, among, eq⟩ := @readLoop_lines (false, .default) after [] seen (List.forall_mem_nil _)
    (fun _ _ => List.nil_prefix) grows ended
  exact ⟨text, among, congrArg Prod.snd eq⟩

/-- The patterns that were read stay. -/
theorem patterns_prefix (lines : List (List Char)) (state : Bool × FlagFile) :
    state.2.patterns <+: (lines.foldl parseLine state).2.patterns := by
  induction lines generalizing state with
  | nil => exact List.prefix_refl _
  | cons line lines ih =>
    refine List.IsPrefix.trans ?_ (ih (parseLine state line))
    unfold parseLine
    dsimp only
    split
    · exact List.prefix_refl _
    split
    · exact List.prefix_refl _
    split
    · exact List.prefix_refl _
    split
    · exact List.prefix_append _ _
    · rw [setKey_patterns]

/-- The variables of an action, with some of its patterns. -/
def ReadFrom (a : BaseFreezeAction) (f : FlagFile) : Prop :=
  ∃ processes, processes <+: a.processes ∧ f = { bounds a .default with patterns := processes.map String.toList }

/-- From a flag file that is not yet written whole, the daemon reads no pattern, or the bounds of the
action and its first patterns. -/
theorem parseFlagFile_torn (plain : ∀ p ∈ a.processes, PlainPattern p.toList) (torn : text <+: flagText a) :
    (parseFlagFile text).patterns = [] ∨ ReadFrom a (parseFlagFile text) := by
  have header : parseLine (false, .default) configHeader = (false, .default) := rfl
  have last : ∀ f, parseLine (false, f) patternsHeader = (true, f) := fun _ => rfl
  have sections : (configHeader :: configLines a ++ [patternsHeader]).foldl parseLine (false, .default) =
      (true, bounds a .default) := by
    rw [List.foldl_append, List.foldl_cons, List.foldl_cons, header, foldl_configLines, last, List.foldl_nil]
  have lines := readLines_prefix torn
  rw [readLines_flagText, flagLines_plain plain, List.append_cons] at lines
  rcases List.prefix_or_prefix_of_prefix lines (List.prefix_append _ _) with short | ⟨read, eq⟩
  · -- the patterns section has not begun, or has just begun
    obtain ⟨rest, eq⟩ := short
    left
    have kept := patterns_prefix rest ((readLines text).foldl parseLine (false, .default))
    rw [← List.foldl_append, eq, sections] at kept
    exact List.prefix_nil.mp kept
  · right
    rw [← eq, List.prefix_append_right_inj] at lines
    obtain ⟨processes, among, rfl⟩ : ∃ processes, processes <+: a.processes ∧ processes.map String.toList = read := by
      obtain ⟨rest, all⟩ := lines
      obtain ⟨processes, others, split, rfl, -⟩ := List.map_eq_append_iff.mp all.symm
      exact ⟨processes, ⟨others, split.symm⟩, rfl⟩
    refine ⟨processes, among, ?_⟩
    have patterns : ∀ p ∈ processes.map String.toList, PlainPattern p := by
      intro p member
      obtain ⟨q, inside, rfl⟩ := List.mem_map.mp member
      exact plain q (among.subset inside)
    rw [parseFlagFile, ← eq, List.foldl_append, sections, foldl_patterns patterns]
    rfl

/-- What the daemon reads line by line while the file grows is what its step reads at once. -/
theorem readLoop_step {sh : Shell} {s : State} {after : Bool × FlagFile} {seen : List (List Char)}
    (at_loc : s.loc = .parse) (calm : s.pending = false) (grows : seen.Pairwise (· <+: ·))
    (ended : readLoop (false, .default) 0 seen = some after) (random : Nat) : ∃ text ∈ seen, daemon sh random { s with flag := some text } =
      { s with flag := some text, loc := if after.2.patterns = [] then .pollPause else .test after.2 } := by
  obtain ⟨text, among, eq⟩ := readLoop_growing grows ended
  refine ⟨text, among, ?_⟩
  rw [eq]
  simp only [daemon, at_loc, Loc.sleep, calm, Bool.false_eq_true, false_and, if_false, command, State.goto]
  split <;> rfl

/-- So the daemon may read the file of an action while it is being written. -/
theorem readLoop_torn {after : Bool × FlagFile} {seen : List (List Char)}
    (plain : ∀ p ∈ a.processes, PlainPattern p.toList) (torn : ∀ text ∈ seen, text <+: flagText a) (grows : seen.Pairwise (· <+: ·))
    (ended : readLoop (false, .default) 0 seen = some after) : after.2.patterns = [] ∨ ReadFrom a after.2 := by
  obtain ⟨text, among, eq⟩ := readLoop_growing grows ended
  rw [eq]
  exact parseFlagFile_torn plain (torn text among)

end Torn

/-! ## The delays of an action -/

/-- A range whose bounds are words of the shell. -/
structure InWords (range : Int × Int) : Prop where
  low : 0 ≤ range.1
  lowWord : range.1 < 2 ^ 63
  high : 0 ≤ range.2
  highWord : range.2 < 2 ^ 63

/-- A delay of a range; the lower bound is one, also where it is above the upper. -/
def Within (range : Int × Int) (delay : Int) : Prop := range.1 ≤ delay ∧ delay ≤ max range.1 range.2

theorem randomDelay_within {sh : Shell} (decimal : sh.Decimal) {range : Int × Int} (words : InWords range) (random : Nat) :
    ∃ delay, randomDelay sh (toString range.1).toList (toString range.2).toList random = some delay ∧ Within range delay := by
  obtain ⟨low, lowWord, high, highWord⟩ := words
  refine ⟨_, randomDelay_eq (decimal.arith low) (decimal.arith high) random, ?_⟩
  have width : (range.2 - range.1).bmod (2 ^ 64) = range.2 - range.1 := by
    apply Int.bmod_eq_of_le_mul_two <;> omega
  rw [width, Within]
  rcases Int.lt_or_le range.2 range.1 with above | le
  · rw [offset, if_pos (by omega), Int.add_zero, bmod_word low lowWord]
    omega
  · obtain ⟨nonneg, below, -⟩ := offset_bounds (by omega : 0 ≤ range.2 - range.1) random
    rw [bmod_word (by omega) (by omega)]
    omega

/-- A freeze action whose patterns can stand as lines, and whose bounds are words. -/
structure Carriable (a : BaseFreezeAction) : Prop where
  patterns : ∀ p ∈ a.processes, PlainPattern p.toList
  freeze : InWords a.freezeDurationRange
  pause : InWords a.freezePauseRange

/-- A flag file, if there is one, is that of an action, or as much of it as is written. -/
def Written (actions : BaseFreezeAction → Prop) (flag : Option (List Char)) : Prop :=
  ∀ text ∈ flag, ∃ a, actions a ∧ text <+: flagText a

/-! ## The loop of an action -/

/-- What the daemon has read, found and drawn is of one action, in each place it can be. -/
def Loc.Follows (actions : BaseFreezeAction → Prop) (found : BaseFreezeAction → Nat → Prop) : Loc → Prop
  | .test f | .find f | .idle f | .pause f => ∃ a, actions a ∧ ReadFrom a f
  | .pick f pid pids => ∃ a, actions a ∧ ReadFrom a f ∧ ∀ q ∈ pid :: pids, found a q
  | .check f pid | .draw f pid | .resume f pid => ∃ a, actions a ∧ ReadFrom a f ∧ found a pid
  | .stop f pid delay | .hold f pid delay =>
    ∃ a, actions a ∧ ReadFrom a f ∧ found a pid ∧ Within a.freezeDurationRange delay
  | .wait f delay => ∃ a, actions a ∧ ReadFrom a f ∧ Within a.freezePauseRange delay
  | .cleanup held _ => ∀ pid ∈ held, ∃ a, actions a ∧ found a pid
  | _ => True

/-- The trap runs, or the daemon has ended. -/
def Loc.Ends : Loc → Prop
  | .cleanup _ _ | .exited => True
  | _ => False

section Loop

variable {sh : Shell} {actions : BaseFreezeAction → Prop} {found found' : BaseFreezeAction → Nat → Prop} {s : State}
  {loc : Loc} {q : Nat}

theorem Loc.Follows.mono (more : ∀ a q, found a q → found' a q) (h : loc.Follows actions found) :
    loc.Follows actions found' := by
  cases loc with
  | pick f pid pids =>
    obtain ⟨a, action, read, all⟩ := h
    exact ⟨a, action, read, fun q member => more a q (all q member)⟩
  | check f pid | draw f pid | resume f pid =>
    obtain ⟨a, action, read, one⟩ := h
    exact ⟨a, action, read, more a pid one⟩
  | stop f pid delay | hold f pid delay =>
    obtain ⟨a, action, read, one, within⟩ := h
    exact ⟨a, action, read, more a pid one, within⟩
  | cleanup held stage =>
    intro pid here
    obtain ⟨a, action, one⟩ := h pid here
    exact ⟨a, action, more a pid one⟩
  | _ => exact h

/-- What the daemon may act on was found. -/
theorem Loc.Follows.target (h : loc.Follows actions found) (member : q ∈ loc.targets) : ∃ a, actions a ∧ found a q := by
  cases loc with
  | pick f pid pids =>
    obtain ⟨a, action, -, all⟩ := h
    exact ⟨a, action, all q member⟩
  | check f pid | draw f pid | resume f pid =>
    obtain ⟨a, action, -, one⟩ := h
    exact ⟨a, action, List.mem_singleton.mp member ▸ one⟩
  | stop f pid delay | hold f pid delay =>
    obtain ⟨a, action, -, one, -⟩ := h
    exact ⟨a, action, List.mem_singleton.mp member ▸ one⟩
  | cleanup held stage => exact h q (Option.mem_toList.mp member)
  | _ => exact absurd member List.not_mem_nil

/-- Where the trap takes over. -/
theorem Loc.Follows.trap (h : loc.Follows actions found) : (Loc.cleanup loc.held .test).Follows actions found :=
  fun _ here => h.target (Loc.held_targets (Option.mem_toList.mpr here))

/-- A command goes on in the loop of one action, and ends the daemon only where the flag file is not there
to be read. -/
theorem command_follows {t : State} {random : Nat} (decimal : sh.Decimal) (carriable : ∀ a, actions a → Carriable a)
    (flag : Written actions s.flag) (h : loc.Follows actions found)
    (searched : ∀ f a q, loc = .find f → ReadFrom a f → q ∈ findMatchingPids sh f.patterns s.procs → found a q)
    (moved : Goes sh random s loc t) (at_loc : s.loc = loc) :
    t.loc.Follows actions found ∧ (t.loc.Ends → loc.Ends ∨ loc = .parse ∧ s.flag = none ∧ t.loc = .exited) := by
  have drawn : ∀ {range : Int × Int}, InWords range →
      randomDelay sh (toString range.1).toList (toString range.2).toList random ≠ none := by
    intro range words undrawn
    obtain ⟨delay, drawn, -⟩ := randomDelay_within decimal words random
    rw [undrawn] at drawn
    cases drawn
  cases moved with
  | fails gone => exact ⟨trivial, fun _ => Or.inr ⟨rfl, gone, rfl⟩⟩
  | reads there patterns =>
    obtain ⟨a, action, torn⟩ := flag _ there
    have read := (parseFlagFile_torn (carriable a action).patterns torn).resolve_left patterns
    exact ⟨⟨a, action, read⟩, False.elim⟩
  | finds matching =>
    obtain ⟨a, action, read⟩ := h
    exact ⟨⟨a, action, read, fun q member => searched _ a q rfl read (matching ▸ member)⟩, False.elim⟩
  | picks among =>
    obtain ⟨a, action, read, all⟩ := h
    exact ⟨⟨a, action, read, all _ among⟩, False.elim⟩
  | skips | misses | resumes =>
    obtain ⟨a, action, read, -⟩ := h
    exact ⟨⟨a, action, read⟩, False.elim⟩
  | draws returned =>
    obtain ⟨a, action, ⟨processes, among, rfl⟩, one⟩ := h
    obtain ⟨delay, eq, within⟩ := randomDelay_within decimal (carriable a action).freeze random
    cases returned.symm.trans eq
    exact ⟨⟨a, action, ⟨processes, among, rfl⟩, one, within⟩, False.elim⟩
  | undrawn none =>
    obtain ⟨a, action, ⟨processes, among, rfl⟩, -⟩ := h
    exact absurd none (drawn (carriable a action).freeze)
  | pauses returned =>
    obtain ⟨a, action, ⟨processes, among, rfl⟩⟩ := h
    obtain ⟨delay, eq, within⟩ := randomDelay_within decimal (carriable a action).pause random
    cases returned.symm.trans eq
    exact ⟨⟨a, action, ⟨processes, among, rfl⟩, within⟩, False.elim⟩
  | unpaused none =>
    obtain ⟨a, action, ⟨processes, among, rfl⟩⟩ := h
    exact absurd none (drawn (carriable a action).pause)
  | trapTests | trapReads | trapFinds | trapResumes => exact ⟨h, fun _ => Or.inl trivial⟩
  | trapEnds => exact ⟨trivial, fun _ => Or.inl trivial⟩
  | sleeps | ended => exact ⟨at_loc ▸ h, fun ends => Or.inl (at_loc ▸ ends)⟩
  | tests | idles | checks | stops => exact ⟨h, False.elim⟩
  | _ => exact ⟨trivial, False.elim⟩

/-- A step of the daemon goes on in the loop of one action; it leads to the trap if a signal is pending, and
to the end of the daemon if the flag file is not there to be read. -/
theorem daemon_follows {t : State} {random : Nat} (decimal : sh.Decimal) (polls : sh.poll = true)
    (carriable : ∀ a, actions a → Carriable a) (flag : Written actions s.flag) (h : s.loc.Follows actions found)
    (searched : ∀ f a q, s.loc = .find f → ReadFrom a f → q ∈ findMatchingPids sh f.patterns s.procs → found a q)
    (moved : Moves sh random s t) :
    t.loc.Follows actions found ∧
      (t.loc.Ends → s.loc.Ends ∨ s.pending = true ∨ s.loc = .parse ∧ s.flag = none ∧ t.loc = .exited) := by
  cases moved with
  | @wakes taken next sleeps asleep =>
    -- no delay is below zero
    have goes : taken = true ∧ next.Follows actions found ∧ ¬ next.Ends := by
      have valid : ∀ {range : Int × Int} {delay : Int}, InWords range → Within range delay → decide (0 ≤ delay) = true :=
        fun words within => decide_eq_true (words.low.trans within.1)
      cases at_loc : s.loc with
      | pollPause =>
        rw [at_loc] at sleeps
        obtain ⟨rfl, rfl⟩ := Prod.mk.inj (Option.some.inj sleeps)
        exact ⟨polls, trivial, id⟩
      | idle f =>
        rw [at_loc] at sleeps h
        obtain ⟨rfl, rfl⟩ := Prod.mk.inj (Option.some.inj sleeps)
        exact ⟨polls, h, id⟩
      | hold f pid delay =>
        rw [at_loc] at sleeps h
        obtain ⟨rfl, rfl⟩ := Prod.mk.inj (Option.some.inj sleeps)
        obtain ⟨a, action, read, one, within⟩ := h
        exact ⟨valid (carriable a action).freeze within, ⟨a, action, read, one⟩, id⟩
      | wait f delay =>
        rw [at_loc] at sleeps h
        obtain ⟨rfl, rfl⟩ := Prod.mk.inj (Option.some.inj sleeps)
        obtain ⟨a, action, read, within⟩ := h
        exact ⟨valid (carriable a action).pause within, ⟨a, action, read⟩, id⟩
      | _ =>
        rw [at_loc] at sleeps
        cases sleeps
    obtain ⟨rfl, follows, runs⟩ := goes
    exact ⟨follows, fun ends => absurd ends runs⟩
  | traps pending => exact ⟨h.trap, fun _ => Or.inr (Or.inl pending)⟩
  | sleeps => exact ⟨h, Or.inl⟩
  | goes _ _ goes =>
    obtain ⟨follows, ends⟩ := command_follows decimal carriable flag h searched goes rfl
    exact ⟨follows, fun ended => (ends ended).imp_right Or.inr⟩

end Loop

/-! ## A run -/

section Run

variable {sh : Shell} {start : State} {actions : BaseFreezeAction → Prop} {done : List Event}

/-- The daemon, when it searched, has found a process by a pattern of an action. -/
def Found (sh : Shell) (start : State) (done : List Event) (a : BaseFreezeAction) (q : Nat) : Prop :=
  ∃ earlier, earlier <+: done ∧ (∃ f, (run sh start earlier).loc = .find f) ∧
    ∃ p, (run sh start earlier).procs.get? q = some p ∧ ∃ pattern ∈ a.processes, sh.pgrep pattern.toList p.cmdline = true

/-- The flag file has gone away between the test and the reading of it. -/
def Vanished (sh : Shell) (start : State) (done : List Event) : Prop :=
  ∃ earlier, earlier <+: done ∧ (run sh start earlier).loc = .parse ∧ (run sh start earlier).flag = none

theorem Found.mono {later : List Event} {a : BaseFreezeAction} {q : Nat} (more : done <+: later)
    (h : Found sh start done a q) : Found sh start later a q := by
  obtain ⟨earlier, among, found⟩ := h
  exact ⟨earlier, among.trans more, found⟩

theorem run_concat (event : Event) : run sh start (done ++ [event]) = step sh (run sh start done) event := by
  rw [run, List.foldl_append]
  rfl

/-- What every run of the daemon keeps, while the flag files are those of the actions. -/
structure Follows (sh : Shell) (start : State) (actions : BaseFreezeAction → Prop) (done : List Event) : Prop where
  flag : Written actions (run sh start done).flag
  loc : (run sh start done).loc.Follows actions (Found sh start done)
  owes : ∀ q, (run sh start done).Owes q → ∃ a, actions a ∧ Found sh start done a q
  calm : .signal ∈ done ∨ (run sh start done).pending = false ∧
    ((run sh start done).loc.Ends → Vanished sh start done ∧ (run sh start done).loc = .exited)

theorem Follows.of_fresh (fresh : start.Fresh) (given : Written actions start.flag) : Follows sh start actions [] where
  flag := given
  loc := by
    show start.loc.Follows actions _
    rw [fresh.loc]
    trivial
  owes q owed := by
    obtain ⟨p, found, due⟩ := owed
    rw [fresh.procs q p found] at due
    cases due
  calm := Or.inr ⟨fresh.pending, fun ends => by
    have at_loc : (run sh start []).loc = .poll := fresh.loc
    rw [at_loc] at ends
    cases ends⟩

theorem Follows.step (decimal : sh.Decimal) (polls : sh.poll = true) (carriable : ∀ a, actions a → Carriable a)
    (h : Follows sh start actions done) {event : Event}
    (written : ∀ text, event = .flag (some text) → ∃ a, actions a ∧ text <+: flagText a) :
    Follows sh start actions (done ++ [event]) := by
  have longer : done <+: done ++ [event] := List.prefix_append done [event]
  have more : ∀ a q, Found sh start done a q → Found sh start (done ++ [event]) a q := fun a q => Found.mono longer
  have before : (run sh start done).loc.Follows actions (Found sh start (done ++ [event])) := h.loc.mono more
  have owed : ∀ q, (run sh start done).Owes q → ∃ a, actions a ∧ Found sh start (done ++ [event]) a q := by
    intro q owes
    obtain ⟨a, action, found⟩ := h.owes q owes
    exact ⟨a, action, more a q found⟩
  have gone : Vanished sh start done → Vanished sh start (done ++ [event]) := by
    rintro ⟨earlier, among, place⟩
    exact ⟨earlier, among.trans longer, place⟩
  cases own : event.isDaemon with
  | true =>
    obtain ⟨random, rfl⟩ := Event.eq_daemon own
    have moved : Moves sh random (run sh start done) (run sh start (done ++ [.daemon random])) := by
      rw [run_concat]
      exact moves
    obtain ⟨same, clear⟩ := moved.kept
    have searched : ∀ f a q, (ProcessFreezer.run sh start done).loc = .find f → ReadFrom a f →
        q ∈ findMatchingPids sh f.patterns (ProcessFreezer.run sh start done).procs →
          Found sh start (done ++ [.daemon random]) a q := by
      rintro f a q at_loc ⟨processes, among, eq⟩ matching
      obtain ⟨-, -, p, live, pattern, one, greps⟩ := mem_findMatchingPids.mp matching
      rw [eq] at one
      obtain ⟨name, inside, rfl⟩ := List.mem_map.mp one
      exact ⟨done, longer, ⟨f, at_loc⟩, p, live, name, among.subset inside, greps⟩
    obtain ⟨follows, ends⟩ := daemon_follows decimal polls carriable h.flag before searched moved
    refine ⟨same ▸ h.flag, follows, fun q owes => ?_, ?_⟩
    · rcases (daemon_did moved).owes owes with before_owed | aimed
      · exact owed q before_owed
      · exact before.target aimed
    · refine h.calm.imp (fun member => longer.subset member) fun calm => ⟨clear calm.1, fun ended => ?_⟩
      rcases ends ended with already | pending | ⟨at_loc, none, out⟩
      · obtain ⟨earlier, out⟩ := calm.2 already
        refine ⟨gone earlier, ?_⟩
        rw [run_concat]
        exact (congrArg State.loc (daemon_exited out random)).trans out
      · rw [calm.1] at pending
        cases pending
      · exact ⟨⟨done, longer, at_loc, none⟩, out⟩
  | false =>
    obtain ⟨-, signalled⟩ := kept_event sh (run sh start done) own
    obtain ⟨loc, fewer⟩ := owes_event sh (run sh start done) own
    have flag := flag_step sh (run sh start done) event
    rw [← run_concat] at signalled flag loc fewer
    refine ⟨fun text there => ?_, loc ▸ before, fun q owes => owed q (fewer q owes), ?_⟩
    · rcases flag with kept | eq
      · exact h.flag text (kept ▸ there)
      · exact written text (eq.trans (congrArg Event.flag there))
    · rcases signalled with pending | rfl
      · rw [loc, pending]
        refine h.calm.imp (fun member => longer.subset member) fun calm => ⟨calm.1, fun ended => ?_⟩
        obtain ⟨earlier, out⟩ := calm.2 ended
        exact ⟨gone earlier, out⟩
      · exact Or.inl (by simp)

theorem Follows.run (decimal : sh.Decimal) (polls : sh.poll = true) (carriable : ∀ a, actions a → Carriable a)
    (fresh : start.Fresh) (given : Written actions start.flag) {events : List Event}
    (written : ∀ text, .flag (some text) ∈ events → ∃ a, actions a ∧ text <+: flagText a) :
    Follows sh start actions events := by
  induction events using List.reverseRecOn with
  | nil => exact .of_fresh fresh given
  | append_singleton events event ih =>
    have earlier := ih fun text member => written text (List.mem_append_left _ member)
    refine earlier.step decimal polls carriable fun text eq => written text ?_
    rw [eq]
    exact List.mem_append_right _ (List.mem_singleton_self _)

end Run

/-- The steps of the daemon until it polls again or has ended, once the flag file is gone. -/
def Loc.left (asleep : Bool) : Loc → Nat
  | .find _ => 12
  | .pick .. => 11
  | .check .. => 10
  | .draw .. => 9
  | .stop .. => 8
  | .hold .. => if asleep then 6 else 7
  | .resume .. => 5
  | .pause _ => 4
  | .wait .. | .idle _ => if asleep then 2 else 3
  | .test _ | .parse => 1
  | _ => 0

section Heal

variable {sh : Shell} {s t : State} {random : Nat}

end Heal

end FaultStorm.ProcessFreezer
