import FaultStorm.Faults.ProcessFreezer
import Mathlib.Algebra.Group.Nat.Defs
import Mathlib.Data.List.Sort

/-!
# The process freezer

`process_freezer.sh` as a state machine: one step of `daemon` is one foreground command of the
script, or the trap that runs before the next one when a signal is pending. The flag file, the
processes and the signals may change between any two steps; the lines of the flag file are read in
one step, so a run has no rewriting of the file in the middle of a reading. A process that the daemon stopped is
owed a SIGCONT; a run in which every cleanup during a hold finds the held process by the flag
file owes nothing outside the holds.
-/

namespace FaultStorm.ProcessFreezer

open Python

/-- What the script takes from its shell and its surroundings. -/
structure Shell where
  /-- `$$` -/
  self : Nat
  /-- whether `pgrep -f` finds a command line by a pattern -/
  pgrep : List Char → List Char → Bool
  /-- the value of a text in `$((…))`, if it has one -/
  arith : List Char → Option Int
  /-- whether `sleep` takes `POLL_INTERVAL` -/
  poll : Bool

/-- A live process. It is owed a SIGCONT if the daemon sent it SIGSTOP, and no SIGCONT since. -/
structure Process where
  cmdline : List Char
  owed : Bool
  deriving DecidableEq

abbrev Processes := Dict Nat Process

/-- `find_matching_pids`, sorted as `sort -u` does. -/
def findMatchingPids (sh : Shell) (patterns : List (List Char)) (procs : Processes) : List Nat :=
  ((procs.items.filter fun (pid, p) =>
      pid ≠ sh.self ∧ pid ≠ 1 ∧ patterns.any fun pattern => sh.pgrep pattern p.cmdline).map Prod.fst).insertionSort
    fun a b => toString a ≤ toString b

/-- `random_delay`, in milliseconds, for the value of `RANDOM`; it fails if a bound is not a number.
The arithmetic of the shell is that of 64-bit integers. -/
def randomDelay (sh : Shell) (minMs maxMs : List Char) (random : Nat) : Option Int := do
  let hi ← sh.arith maxMs
  let lo ← sh.arith minMs
  let range := (hi - lo).bmod (2 ^ 64)
  if range ≤ 0 then return lo
  return (((random % 32768 : Nat) : Int) % range + lo).bmod (2 ^ 64)

/-- The commands of `cleanup` still to come. -/
inductive Cleanup
  | test
  | parse
  | find (patterns : List (List Char))
  | resume (pids : List Nat)
  deriving DecidableEq

/-- The command that is next, or the `sleep` that is running. -/
inductive Loc
  /-- `if [ -f "$FLAG_FILE" ]` of the main loop -/
  | poll
  /-- `sleep "$POLL_INTERVAL"` of the main loop -/
  | pollPause
  /-- `parse_flag_file` of `freeze_loop`, with all its lines -/
  | parse
  /-- `while [ -f "$FLAG_FILE" ]` -/
  | test (f : FlagFile)
  /-- `find_matching_pids` -/
  | find (f : FlagFile)
  /-- `sleep "$POLL_INTERVAL"` when there is no matching process -/
  | idle (f : FlagFile)
  /-- `pick_random` -/
  | pick (f : FlagFile) (pid : Nat) (pids : List Nat)
  /-- `kill -0` -/
  | check (f : FlagFile) (pid : Nat)
  /-- `random_delay "$FREEZE_MIN_MS" "$FREEZE_MAX_MS"` -/
  | draw (f : FlagFile) (pid : Nat)
  /-- `kill -STOP` -/
  | stop (f : FlagFile) (pid : Nat) (delay : Int)
  /-- `sleep "$delay"` after the SIGSTOP -/
  | hold (f : FlagFile) (pid : Nat) (delay : Int)
  /-- `kill -CONT` -/
  | resume (f : FlagFile) (pid : Nat)
  /-- `random_delay "$PAUSE_MIN_MS" "$PAUSE_MAX_MS"` -/
  | pause (f : FlagFile)
  /-- `sleep "$delay"` before the next cycle -/
  | wait (f : FlagFile) (delay : Int)
  /-- the trap, which interrupted the hold of a process or not -/
  | cleanup (held : Option Nat) (stage : Cleanup)
  | exited
  deriving DecidableEq

/-- The process whose hold is not over. -/
def Loc.held : Loc → Option Nat
  | .hold _ pid _ => some pid
  | .resume _ pid => some pid
  | .cleanup held _ => held
  | _ => none

/-- The `sleep` of a location: whether it takes its argument, and what comes after it. A delay below
zero is printed with a sign, which `sleep` refuses. -/
def Loc.sleep (sh : Shell) : Loc → Option (Bool × Loc)
  | .pollPause => some (sh.poll, .poll)
  | .idle f => some (sh.poll, .test f)
  | .hold f pid delay => some (0 ≤ delay, .resume f pid)
  | .wait f delay => some (0 ≤ delay, .test f)
  | _ => none

structure State where
  loc : Loc
  /-- a `sleep` is running -/
  asleep : Bool
  /-- SIGTERM or SIGINT has come and the trap has not run since -/
  pending : Bool
  flag : Option (List Char)
  procs : Processes
  deriving DecidableEq

/-- The daemon goes on with another command. -/
def State.goto (s : State) (loc : Loc) : State := { s with loc }

/-- `kill -CONT "$pid" || true`. -/
def State.resume (s : State) (pid : Nat) : State :=
  match s.procs.get? pid with
  | some p => { s with procs := s.procs.set pid { p with owed := false } }
  | none => s

/-- Run the next command, which is not a `sleep`. A command that fails where nothing handles it ends
the daemon, as `set -e` says. -/
def command (sh : Shell) (random : Nat) (s : State) : State :=
  match s.loc with
  | .poll => s.goto (if s.flag.isSome then .parse else .pollPause)
  | .parse => match s.flag with
    | none => s.goto .exited
    | some text =>
      if (parseFlagFile text).patterns = [] then s.goto .pollPause else s.goto (.test (parseFlagFile text))
  | .test f => s.goto (if s.flag.isSome then .find f else .pollPause)
  | .find f => match findMatchingPids sh f.patterns s.procs with
    | [] => s.goto (.idle f)
    | pid :: pids => s.goto (.pick f pid pids)
  | .pick f pid pids => s.goto (.check f ((pid :: pids).getD (random % (pids.length + 1)) pid))
  | .check f pid => s.goto (if (s.procs.get? pid).isSome then .draw f pid else .test f)
  | .draw f pid => match randomDelay sh f.freezeMin f.freezeMax random with
    | none => s.goto .exited
    | some delay => s.goto (.stop f pid delay)
  | .stop f pid delay => match s.procs.get? pid with
    | some p => { s with procs := s.procs.set pid { p with owed := true }, loc := .hold f pid delay }
    | none => s.goto (.pause f)
  | .resume f pid => (s.resume pid).goto (.pause f)
  | .pause f => match randomDelay sh f.pauseMin f.pauseMax random with
    | none => s.goto .exited
    | some delay => s.goto (.wait f delay)
  | .cleanup held .test => s.goto (if s.flag.isSome then .cleanup held .parse else .exited)
  | .cleanup held .parse => match s.flag with
    | none => s.goto .exited
    | some text =>
      if (parseFlagFile text).patterns = [] then s.goto .exited
      else s.goto (.cleanup held (.find (parseFlagFile text).patterns))
  | .cleanup held (.find patterns) => s.goto (.cleanup held (.resume (findMatchingPids sh patterns s.procs)))
  | .cleanup _ (.resume []) => s.goto .exited
  | .cleanup held (.resume (pid :: pids)) => (s.resume pid).goto (.cleanup held (.resume pids))
  | _ => s

/-- One step of the daemon: a `sleep` ends, the trap runs, a `sleep` starts, or another command
runs. -/
def daemon (sh : Shell) (random : Nat) (s : State) : State :=
  match s.loc.sleep sh with
  | some (taken, next) =>
    if s.asleep then { s with asleep := false, loc := if taken then next else .exited }
    else if s.pending then { s with pending := false, loc := .cleanup s.loc.held .test }
    else { s with asleep := true }
  | none =>
    if s.pending ∧ s.loc ≠ .exited then { s with pending := false, loc := .cleanup s.loc.held .test }
    else command sh random s

/-- What may happen next. -/
inductive Event
  /-- the flag file is written, or removed -/
  | flag (text : Option (List Char))
  | ended (pid : Nat)
  | started (pid : Nat) (cmdline : List Char)
  | renamed (pid : Nat) (cmdline : List Char)
  /-- SIGTERM or SIGINT -/
  | signal
  /-- a step of the daemon, with the value of `RANDOM` -/
  | daemon (random : Nat)

def step (sh : Shell) (s : State) : Event → State
  | .flag text => { s with flag := text }
  | .ended pid => { s with procs := s.procs.erase pid }
  | .started pid cmdline => match s.procs.get? pid with
    | some _ => s
    | none => { s with procs := s.procs.set pid ⟨cmdline, false⟩ }
  | .renamed pid cmdline => match s.procs.get? pid with
    | some p => { s with procs := s.procs.set pid { p with cmdline } }
    | none => s
  | .signal => { s with pending := true }
  | .daemon random => daemon sh random s

def run (sh : Shell) (s : State) (events : List Event) : State := events.foldl (step sh) s

/-- The daemon has just been started. -/
structure State.Fresh (s : State) : Prop where
  loc : s.loc = .poll
  asleep : s.asleep = false
  pending : s.pending = false
  procs : ∀ pid p, s.procs.get? pid = some p → p.owed = false

/-- A live process waits for its SIGCONT. -/
def State.Owes (s : State) (pid : Nat) : Prop := ∃ p ∈ s.procs.get? pid, p.owed = true

instance (s : State) (pid : Nat) : Decidable (s.Owes pid) := inferInstanceAs (Decidable (∃ _ ∈ _, _))

/-- What the next step of the daemon needs to owe nothing later: the `sleep` of a hold takes its
delay, and a cleanup that interrupted a hold finds a flag file, reads patterns from it and finds the
process by them. -/
def Finds (sh : Shell) (s : State) : Prop :=
  match s.loc with
  | .hold _ pid delay => s.asleep = true → s.Owes pid → 0 ≤ delay
  | .cleanup (some pid) .test => s.Owes pid → s.flag.isSome
  | .cleanup (some pid) .parse => s.Owes pid → ∃ text ∈ s.flag, (parseFlagFile text).patterns ≠ []
  | .cleanup (some pid) (.find patterns) => ∀ p ∈ s.procs.get? pid, p.owed = true →
      ∃ pattern ∈ patterns, sh.pgrep pattern p.cmdline = true
  | _ => True

instance (sh : Shell) (s : State) : Decidable (Finds sh s) := by
  unfold Finds
  split <;> infer_instance

/-- The step of the daemon is the trap, or has what it needs. -/
def Meets (sh : Shell) (s : State) : Prop := s.asleep = false ∧ s.pending = true ∨ Finds sh s

instance (sh : Shell) (s : State) : Decidable (Meets sh s) := inferInstanceAs (Decidable (_ ∨ _))

/-- Every step of the daemon in a run has what it needs. -/
def AllMeet (sh : Shell) : State → List Event → Prop
  | _, [] => True
  | s, .daemon random :: events => Meets sh s ∧ AllMeet sh (step sh s (.daemon random)) events
  | s, event :: events => AllMeet sh (step sh s event) events

instance (sh : Shell) : ∀ s events, Decidable (AllMeet sh s events)
  | _, [] => isTrue trivial
  | s, event :: events =>
    have : Decidable (AllMeet sh (step sh s event) events) := instDecidableAllMeet sh _ events
    match event with
    | .daemon _ => inferInstanceAs (Decidable (_ ∧ _))
    | .flag _ | .ended _ | .started _ _ | .renamed _ _ | .signal => this

/-! ## What a step can do -/

section Step

variable {sh : Shell} {s t : State} {pid q : Nat}

theorem mem_findMatchingPids {patterns : List (List Char)} {procs : Processes} :
    q ∈ findMatchingPids sh patterns procs ↔ q ≠ sh.self ∧ q ≠ 1 ∧
      ∃ p, procs.get? q = some p ∧ ∃ pattern ∈ patterns, sh.pgrep pattern p.cmdline = true := by
  unfold findMatchingPids
  rw [List.mem_insertionSort, List.mem_map]
  constructor
  · rintro ⟨⟨pid, p⟩, member, rfl⟩
    obtain ⟨among, found⟩ := List.mem_filter.mp member
    simp only [List.any_eq_true, decide_eq_true_eq] at found
    exact ⟨found.1, found.2.1, p, procs.get?_eq_some.mpr among, found.2.2⟩
  · rintro ⟨self, init, p, live, found⟩
    refine ⟨(q, p), List.mem_filter.mpr ⟨procs.get?_eq_some.mp live, ?_⟩, rfl⟩
    simp only [List.any_eq_true, decide_eq_true_eq]
    exact ⟨self, init, found⟩

/-- A SIGCONT settles what is owed to its process. -/
theorem owes_resume : (s.resume pid).Owes q ↔ s.Owes q ∧ q ≠ pid := by
  unfold State.resume State.Owes
  cases live : s.procs.get? pid with
  | none =>
    refine ⟨fun ⟨p, found, owed⟩ => ⟨⟨p, found, owed⟩, ?_⟩, And.left⟩
    rintro rfl
    rw [live] at found
    cases found
  | some p =>
    simp only [Dict.get?_set]
    by_cases same : q = pid
    · simp [same]
    · simp [same]

/-- The processes the daemon may act on are neither the first one nor itself. -/
def Loc.targets : Loc → List Nat
  | .pick _ pid pids => pid :: pids
  | .check _ pid => [pid]
  | .draw _ pid => [pid]
  | .stop _ pid _ => [pid]
  | loc => loc.held.toList

/-- The process that may be owed a SIGCONT, where it still will get one. -/
def Loc.MayOwe (q : Nat) : Loc → Prop
  | .cleanup held (.resume pids) => held = some q ∧ q ∈ pids
  | loc => loc.held = some q

/-- What every run keeps. -/
structure Inv (sh : Shell) (s : State) : Prop where
  owes : ∀ q, s.Owes q → s.loc.MayOwe q
  targets : ∀ q ∈ s.loc.targets, q ≠ sh.self ∧ q ≠ 1

theorem Loc.MayOwe.held {loc : Loc} (h : loc.MayOwe q) : loc.held = some q := by
  cases loc with
  | cleanup held stage => cases stage with
    | resume pids => exact h.1
    | _ => exact h
  | _ => exact h

theorem Inv.of_fresh (fresh : s.Fresh) : Inv sh s := by
  constructor
  · rintro q ⟨p, found, owed⟩
    rw [fresh.procs q p found] at owed
    cases owed
  · rw [fresh.loc]
    nofun

/-- Outside the holds nothing is owed. -/
theorem Inv.settled (h : Inv sh s) (outside : s.loc.held = none) (q : Nat) : ¬ s.Owes q := by
  intro owes
  have held := (h.owes q owes).held
  rw [outside] at held
  cases held

/-- A change that owes nothing new to the processes. -/
theorem Inv.mono (h : Inv sh s) (loc : t.loc = s.loc) (fewer : ∀ q, t.Owes q → s.Owes q) : Inv sh t :=
  ⟨fun q owes => loc ▸ h.owes q (fewer q owes), loc ▸ h.targets⟩

theorem Inv.goto (h : Inv sh s) (outside : s.loc.held = none) {loc : Loc}
    (targets : ∀ q ∈ loc.targets, q ≠ sh.self ∧ q ≠ 1) : Inv sh (s.goto loc) :=
  ⟨fun q owes => absurd owes (h.settled outside q), targets⟩

/-- The commands of `cleanup`. -/
theorem Inv.cleanup (h : Inv sh s) {held : Option Nat} {stage : Cleanup} (at_loc : s.loc = .cleanup held stage)
    (finds : Finds sh s) (random : Nat) : Inv sh (command sh random s) := by
  obtain ⟨owes, targets⟩ := h
  have waits : ∀ q, s.Owes q → held = some q := by
    intro q owed
    have may := (owes q owed).held
    rw [at_loc] at may
    exact may
  unfold Finds at finds
  unfold ProcessFreezer.command
  rw [at_loc] at owes targets finds ⊢
  cases stage with
  | test =>
    dsimp only
    by_cases there : s.flag.isSome
    · rw [if_pos there]
      exact ⟨fun q owed => owes q owed, targets⟩
    · rw [if_neg there]
      refine ⟨fun q owed => ?_, nofun⟩
      obtain rfl := waits q owed
      exact absurd (finds owed) there
  | parse =>
    dsimp only
    have read : ∀ q, s.Owes q → ∃ text ∈ s.flag, (parseFlagFile text).patterns ≠ [] := by
      intro q owed
      obtain rfl := waits q owed
      exact finds owed
    cases flag : s.flag with
    | none =>
      refine ⟨fun q owed => ?_, nofun⟩
      obtain ⟨text, there, -⟩ := read q owed
      rw [flag] at there
      cases there
    | some text =>
      dsimp only
      by_cases empty : (parseFlagFile text).patterns = []
      · rw [if_pos empty]
        refine ⟨fun q owed => ?_, nofun⟩
        obtain ⟨text', there, nonempty⟩ := read q owed
        rw [flag] at there
        cases there
        exact absurd empty nonempty
      · rw [if_neg empty]
        exact ⟨fun q owed => owes q owed, targets⟩
  | find patterns =>
    refine ⟨fun q owed => ⟨waits q owed, ?_⟩, targets⟩
    obtain rfl := waits q owed
    obtain ⟨self, init⟩ := targets q (List.mem_singleton_self q)
    obtain ⟨p, live, due⟩ := owed
    exact mem_findMatchingPids.mpr ⟨self, init, p, live, finds p live due⟩
  | resume pids =>
    cases pids with
    | nil =>
      refine ⟨fun q owed => ?_, nofun⟩
      cases (owes q owed).2
    | cons pid pids =>
      refine ⟨fun q owed => ?_, targets⟩
      obtain ⟨before, ne⟩ := owes_resume.mp owed
      obtain ⟨here, member⟩ := owes q before
      exact ⟨here, (List.mem_cons.mp member).resolve_left ne⟩

/-- A command keeps the invariant if the state has what it needs. -/
theorem Inv.command (h : Inv sh s) (finds : Finds sh s) (random : Nat) : Inv sh (command sh random s) := by
  by_cases trapped : ∃ held stage, s.loc = .cleanup held stage
  · obtain ⟨held, stage, at_loc⟩ := trapped
    exact h.cleanup at_loc finds random
  have owes := h.owes
  have targets := h.targets
  unfold ProcessFreezer.command
  cases at_loc : s.loc with
  | poll =>
    apply h.goto (by rw [at_loc]; rfl)
    split <;> exact List.forall_mem_nil _
  | parse =>
    have outside : s.loc.held = none := by rw [at_loc]; rfl
    dsimp only
    cases s.flag with
    | none => exact h.goto outside (List.forall_mem_nil _)
    | some text =>
      dsimp only
      split
      · exact h.goto outside (List.forall_mem_nil _)
      · exact h.goto outside (List.forall_mem_nil _)
  | test f =>
    apply h.goto (by rw [at_loc]; rfl)
    split <;> exact List.forall_mem_nil _
  | find f =>
    have outside : s.loc.held = none := by rw [at_loc]; rfl
    dsimp only
    cases found : findMatchingPids sh f.patterns s.procs with
    | nil => exact h.goto outside (List.forall_mem_nil _)
    | cons pid pids =>
      apply h.goto outside
      intro q member
      have among : q ∈ findMatchingPids sh f.patterns s.procs := by
        rw [found]
        exact member
      obtain ⟨self, init, -⟩ := mem_findMatchingPids.mp among
      exact ⟨self, init⟩
  | pick f pid pids =>
    rw [at_loc] at targets
    apply h.goto (by rw [at_loc]; rfl)
    intro q member
    rw [List.mem_singleton.mp member]
    apply targets
    have below : random % (pids.length + 1) < (pid :: pids).length := Nat.mod_lt _ (by omega)
    rw [List.getD_eq_getElem?_getD, List.getElem?_eq_getElem below]
    exact List.getElem_mem below
  | check f pid =>
    rw [at_loc] at targets
    apply h.goto (by rw [at_loc]; rfl)
    split
    · exact targets
    · exact List.forall_mem_nil _
  | draw f pid =>
    rw [at_loc] at targets
    have outside : s.loc.held = none := by rw [at_loc]; rfl
    dsimp only
    cases randomDelay sh f.freezeMin f.freezeMax random with
    | none => exact h.goto outside (List.forall_mem_nil _)
    | some delay => exact h.goto outside targets
  | stop f pid delay =>
    rw [at_loc] at targets
    have outside : s.loc.held = none := by rw [at_loc]; rfl
    dsimp only
    cases live : s.procs.get? pid with
    | none => exact h.goto outside (List.forall_mem_nil _)
    | some p =>
      refine ⟨?_, targets⟩
      rintro q ⟨p', found, owed⟩
      rw [Dict.get?_set] at found
      split at found
      · rename_i same
        exact congrArg some same.symm
      · exact absurd ⟨p', found, owed⟩ (h.settled outside q)
  | resume f pid =>
    rw [at_loc] at owes
    refine ⟨fun q owed => ?_, List.forall_mem_nil _⟩
    obtain ⟨before, ne⟩ := owes_resume.mp owed
    exact absurd (Option.some.inj (owes q before)).symm ne
  | pause f =>
    have outside : s.loc.held = none := by rw [at_loc]; rfl
    dsimp only
    cases randomDelay sh f.pauseMin f.pauseMax random with
    | none => exact h.goto outside (List.forall_mem_nil _)
    | some delay => exact h.goto outside (List.forall_mem_nil _)
  | cleanup held stage => exact absurd ⟨held, stage, at_loc⟩ trapped
  | pollPause => exact h
  | idle f => exact h
  | hold f pid delay => exact h
  | wait f delay => exact h
  | exited => exact h

/-- A process in whose hold the daemon is, is one of those it may act on. -/
theorem Loc.held_targets {loc : Loc} (held : q ∈ loc.held.toList) : q ∈ loc.targets := by
  cases loc <;> first | exact held | cases held

/-- A `sleep` that takes its argument, or of no hold, leads on. -/
theorem Inv.wake (h : Inv sh s) (asleep : s.asleep = true) (finds : Finds sh s) {taken : Bool} {next : Loc}
    (sleeps : s.loc.sleep sh = some (taken, next)) :
    Inv sh { s with asleep := false, loc := if taken then next else .exited } := by
  have targets := h.targets
  have owes := h.owes
  unfold Finds at finds
  cases at_loc : s.loc with
  | hold f pid delay =>
    rw [at_loc] at sleeps finds owes targets
    obtain ⟨rfl, rfl⟩ := Prod.mk.inj (Option.some.inj sleeps)
    by_cases valid : 0 ≤ delay
    · rw [if_pos (decide_eq_true valid)]
      exact ⟨fun q owed => owes q owed, targets⟩
    · refine ⟨fun q owed => ?_, ?_⟩
      · have here : pid = q := Option.some.inj (owes q owed)
        exact absurd (finds asleep (here ▸ owed)) valid
      · rw [if_neg (by simpa using valid)]
        nofun
  | pollPause | idle f | wait f delay =>
    rw [at_loc] at sleeps
    obtain ⟨rfl, rfl⟩ := Prod.mk.inj (Option.some.inj sleeps)
    refine ⟨fun q owed => absurd owed (h.settled (by rw [at_loc]; rfl) q), ?_⟩
    dsimp only
    split <;> nofun
  | _ =>
    rw [at_loc] at sleeps
    cases sleeps

/-- A step of the daemon. -/
theorem Inv.daemon (h : Inv sh s) (meets : Meets sh s) (random : Nat) : Inv sh (daemon sh random s) := by
  -- the trap keeps in mind which hold it interrupts
  have trap : Inv sh { s with pending := false, loc := .cleanup s.loc.held .test } :=
    ⟨fun q owed => (h.owes q owed).held, fun q member => h.targets q (Loc.held_targets member)⟩
  unfold ProcessFreezer.daemon
  cases sleeps : s.loc.sleep sh with
  | some next =>
    dsimp only
    by_cases asleep : s.asleep
    · rw [if_pos asleep]
      have finds : Finds sh s := meets.resolve_left fun trapped => by
        rw [asleep] at trapped
        cases trapped.1
      exact h.wake asleep finds sleeps
    · rw [if_neg asleep]
      split
      · exact trap
      · exact h.mono rfl fun q => id
  | none =>
    dsimp only
    by_cases trapped : s.pending ∧ s.loc ≠ .exited
    · rw [if_pos trapped]
      exact trap
    · rw [if_neg trapped]
      refine h.command (meets.elim (fun trap => ?_) id) random
      have gone : s.loc = .exited := not_not.mp fun there => trapped ⟨trap.2, there⟩
      rw [Finds, gone]
      trivial

/-- Whatever happens next, the invariant is kept if a step of the daemon has what it needs. -/
theorem Inv.step (h : Inv sh s) {event : Event} (meets : ∀ random, event = .daemon random → Meets sh s) :
    Inv sh (step sh s event) := by
  cases event with
  | flag text => exact h.mono rfl fun q => id
  | ended pid =>
    refine h.mono rfl ?_
    rintro q ⟨p, found, owed⟩
    have left : (if q = pid then none else s.procs.get? q) = some p := s.procs.get?_erase pid q ▸ found
    split at left
    · cases left
    · exact ⟨p, left, owed⟩
  | started pid cmdline =>
    unfold ProcessFreezer.step
    dsimp only
    cases taken : s.procs.get? pid with
    | some _ => exact h
    | none =>
      refine h.mono rfl ?_
      rintro q ⟨p, found, owed⟩
      have there : (if q = pid then some ⟨cmdline, false⟩ else s.procs.get? q) = some p :=
        s.procs.get?_set pid q _ ▸ found
      split at there
      · cases there
        cases owed
      · exact ⟨p, there, owed⟩
  | renamed pid cmdline =>
    unfold ProcessFreezer.step
    dsimp only
    cases live : s.procs.get? pid with
    | none => exact h
    | some p' =>
      refine h.mono rfl ?_
      rintro q ⟨p, found, owed⟩
      have there : (if q = pid then some { p' with cmdline } else s.procs.get? q) = some p :=
        s.procs.get?_set pid q _ ▸ found
      split at there
      · rename_i same
        cases there
        exact ⟨p', same ▸ live, owed⟩
      · exact ⟨p, there, owed⟩
  | signal => exact h.mono rfl fun q => id
  | daemon random => exact h.daemon (meets random rfl) random

theorem Inv.run (h : Inv sh s) {events : List Event} (meets : AllMeet sh s events) : Inv sh (run sh s events) := by
  induction events generalizing s with
  | nil => exact h
  | cons event events ih =>
    cases event with
    | daemon random => exact ih (h.step fun _ _ => meets.1) meets.2
    | flag | ended | started | renamed | signal => exact ih (h.step nofun) meets

end Step

/-- In a run whose steps have what they need, no process waits for a SIGCONT outside the holds. -/
theorem nothing_owed_outside_holds (sh : Shell) {s : State} (fresh : s.Fresh) {events : List Event}
    (meets : AllMeet sh s events) (outside : (run sh s events).loc.held = none) (pid : Nat) :
    ¬ (run sh s events).Owes pid :=
  ((Inv.of_fresh fresh).run meets).settled outside pid

/-- A shell whose `pgrep` takes patterns as plain texts, and whose numbers are decimal. -/
def plainShell : Shell where
  self := 100
  pgrep := fun pattern cmdline => cmdline.tails.any pattern.isPrefixOf
  arith := fun text => some (text.foldl (fun n c => 10 * n + (c.toNat - 48 : Nat)) 0)
  poll := true

def postgresFlag : List Char := "[config]\nfreeze_min_ms=100\nfreeze_max_ms=3000\n[patterns]\npostgres\n".toList

/-- One postgres is running, and it is to be frozen. -/
def postgresStart : State where
  loc := .poll
  asleep := false
  pending := false
  flag := some postgresFlag
  procs := Dict.empty.set 42 ⟨"postgres -D /data".toList, false⟩

theorem postgresStart_fresh : postgresStart.Fresh := by
  refine ⟨rfl, rfl, rfl, fun pid p found => ?_⟩
  have there : (if pid = 42 then some ⟨"postgres -D /data".toList, false⟩ else none) = some p :=
    Dict.get?_set Dict.empty 42 pid _ ▸ found
  split at there
  · cases there
    rfl
  · cases there

/-- The daemon runs until it holds postgres. -/
def untilHold : List Event := List.replicate 9 (.daemon 0)

/-- The daemon is asked to end during the hold, and the flag file stays. -/
theorem nothing_owed_after_signal :
    let events := untilHold ++ [.signal, .daemon 0, .daemon 0, .daemon 0, .daemon 0, .daemon 0, .daemon 0, .daemon 0]
    (run plainShell postgresStart events).loc = .exited ∧ ∀ pid, ¬ (run plainShell postgresStart events).Owes pid := by
  intro events
  have ended : (run plainShell postgresStart events).loc = .exited := by rfl
  have meets : AllMeet plainShell postgresStart events := by decide
  exact ⟨ended, nothing_owed_outside_holds plainShell postgresStart_fresh meets (by rw [ended]; rfl)⟩

/-- The flag file is removed during the hold, as a heal does, and the daemon is asked to end: it
exits and leaves postgres stopped. -/
theorem postgres_left_stopped :
    let events := untilHold ++ [.flag none, .signal, .daemon 0, .daemon 0, .daemon 0]
    postgresStart.Fresh ∧ (run plainShell postgresStart events).loc = .exited ∧
      (run plainShell postgresStart events).Owes 42 :=
  ⟨postgresStart_fresh, by decide, by decide⟩

end FaultStorm.ProcessFreezer
