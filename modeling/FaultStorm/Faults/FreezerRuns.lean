import FaultStorm.Faults.FreezerDaemon

/-!
# Runs of the process freezer

What holds in every run of the daemon, whatever happens to the flag file and the processes: never
more than one process is stopped, and a signal ends the daemon.
-/

namespace FaultStorm.ProcessFreezer

open Python

/-! ## What a step does -/

section Command

variable {sh : Shell} {random : Nat} {s : State}

/-- The command at each location, and the state after it. -/
inductive Goes (sh : Shell) (random : Nat) (s : State) : Loc → State → Prop
  | polls (there : s.flag.isSome) : Goes sh random s .poll (s.goto .parse)
  | rests (gone : s.flag = none) : Goes sh random s .poll (s.goto .pollPause)
  | fails (gone : s.flag = none) : Goes sh random s .parse (s.goto .exited)
  | blank {text : List Char} (there : s.flag = some text) (empty : (parseFlagFile text).patterns = []) :
      Goes sh random s .parse (s.goto .pollPause)
  | reads {text : List Char} (there : s.flag = some text) (patterns : (parseFlagFile text).patterns ≠ []) :
      Goes sh random s .parse (s.goto (.test (parseFlagFile text)))
  | tests {f : FlagFile} (there : s.flag.isSome) : Goes sh random s (.test f) (s.goto (.find f))
  | leaves {f : FlagFile} (gone : s.flag = none) : Goes sh random s (.test f) (s.goto .pollPause)
  | finds {f : FlagFile} {pid : Nat} {pids : List Nat} (found : findMatchingPids sh f.patterns s.procs = pid :: pids) :
      Goes sh random s (.find f) (s.goto (.pick f pid pids))
  | idles {f : FlagFile} : Goes sh random s (.find f) (s.goto (.idle f))
  | picks {f : FlagFile} {pid q : Nat} {pids : List Nat} (among : q ∈ pid :: pids) :
      Goes sh random s (.pick f pid pids) (s.goto (.check f q))
  | checks {f : FlagFile} {pid : Nat} : Goes sh random s (.check f pid) (s.goto (.draw f pid))
  | skips {f : FlagFile} {pid : Nat} : Goes sh random s (.check f pid) (s.goto (.test f))
  | draws {f : FlagFile} {pid : Nat} {delay : Int} (drawn : randomDelay sh f.freezeMin f.freezeMax random = some delay) :
      Goes sh random s (.draw f pid) (s.goto (.stop f pid delay))
  | undrawn {f : FlagFile} {pid : Nat} (drawn : randomDelay sh f.freezeMin f.freezeMax random = none) :
      Goes sh random s (.draw f pid) (s.goto .exited)
  | stops {f : FlagFile} {pid : Nat} {delay : Int} {p : Process} (live : s.procs.get? pid = some p) :
      Goes sh random s (.stop f pid delay)
        { s with procs := s.procs.set pid { p with owed := true }, loc := .hold f pid delay }
  | misses {f : FlagFile} {pid : Nat} {delay : Int} : Goes sh random s (.stop f pid delay) (s.goto (.pause f))
  | resumes {f : FlagFile} {pid : Nat} : Goes sh random s (.resume f pid) ((s.resume pid).goto (.pause f))
  | pauses {f : FlagFile} {delay : Int} (drawn : randomDelay sh f.pauseMin f.pauseMax random = some delay) :
      Goes sh random s (.pause f) (s.goto (.wait f delay))
  | unpaused {f : FlagFile} (drawn : randomDelay sh f.pauseMin f.pauseMax random = none) :
      Goes sh random s (.pause f) (s.goto .exited)
  | trapTests {held : Option Nat} : Goes sh random s (.cleanup held .test) (s.goto (.cleanup held .parse))
  | trapReads {held : Option Nat} {patterns : List (List Char)} :
      Goes sh random s (.cleanup held .parse) (s.goto (.cleanup held (.find patterns)))
  | trapFinds {held : Option Nat} {patterns : List (List Char)} :
      Goes sh random s (.cleanup held (.find patterns))
        (s.goto (.cleanup held (.resume (findMatchingPids sh patterns s.procs))))
  | trapResumes {held : Option Nat} {pid : Nat} {pids : List Nat} :
      Goes sh random s (.cleanup held (.resume (pid :: pids))) ((s.resume pid).goto (.cleanup held (.resume pids)))
  | trapEnds {held : Option Nat} {stage : Cleanup} : Goes sh random s (.cleanup held stage) (s.goto .exited)
  | sleeps {loc : Loc} (sleeps : (loc.sleep sh).isSome) : Goes sh random s loc s
  | ended : Goes sh random s .exited s

theorem goes {loc : Loc} (at_loc : s.loc = loc) : Goes sh random s loc (command sh random s) := by
  unfold command
  rw [at_loc]
  cases loc with
  | poll =>
    dsimp only
    cases there : s.flag with
    | none => exact .rests there
    | some text => exact .polls (by rw [there]; rfl)
  | parse =>
    dsimp only
    cases there : s.flag with
    | none => exact .fails there
    | some text =>
      dsimp only
      split
      · exact .blank there ‹_›
      · exact .reads there ‹_›
  | test f =>
    dsimp only
    cases there : s.flag with
    | none => exact .leaves there
    | some text => exact .tests (by rw [there]; rfl)
  | find f =>
    dsimp only
    cases found : findMatchingPids sh f.patterns s.procs with
    | nil => exact .idles
    | cons pid pids => exact .finds found
  | pick f pid pids =>
    refine .picks ?_
    have below : random % (pids.length + 1) < (pid :: pids).length := Nat.mod_lt _ (by omega)
    rw [List.getD_eq_getElem?_getD, List.getElem?_eq_getElem below]
    exact List.getElem_mem below
  | check f pid =>
    dsimp only
    split
    · exact .checks
    · exact .skips
  | draw f pid =>
    dsimp only
    cases drawn : randomDelay sh f.freezeMin f.freezeMax random with
    | none => exact .undrawn drawn
    | some delay => exact .draws drawn
  | stop f pid delay =>
    dsimp only
    cases live : s.procs.get? pid with
    | none => exact .misses
    | some p => exact .stops live
  | resume f pid => exact .resumes
  | pause f =>
    dsimp only
    cases drawn : randomDelay sh f.pauseMin f.pauseMax random with
    | none => exact .unpaused drawn
    | some delay => exact .pauses drawn
  | cleanup held stage =>
    cases stage with
    | test =>
      dsimp only
      split
      · exact .trapTests
      · exact .trapEnds
    | parse =>
      dsimp only
      cases s.flag with
      | none => exact .trapEnds
      | some text =>
        dsimp only
        split
        · exact .trapEnds
        · exact .trapReads
    | find patterns => exact .trapFinds
    | resume pids =>
      cases pids with
      | nil => exact .trapEnds
      | cons pid pids => exact .trapResumes
  | pollPause | idle f | hold f pid delay | wait f delay => exact .sleeps rfl
  | exited => exact .ended

/-- A step of the daemon. -/
inductive Moves (sh : Shell) (random : Nat) (s : State) : State → Prop
  | wakes {taken : Bool} {next : Loc} (sleeps : s.loc.sleep sh = some (taken, next)) (asleep : s.asleep = true) :
      Moves sh random s { s with asleep := false, loc := if taken then next else .exited }
  | traps (pending : s.pending = true) (runs : s.loc ≠ .exited) :
      Moves sh random s { s with pending := false, loc := .cleanup s.loc.held .test }
  | sleeps (sleeps : (s.loc.sleep sh).isSome) (awake : s.asleep = false) (calm : s.pending = false) :
      Moves sh random s { s with asleep := true }
  | goes {t : State} (runs : s.loc.sleep sh = none) (calm : s.pending = false ∨ s.loc = .exited)
      (goes : Goes sh random s s.loc t) : Moves sh random s t

theorem moves : Moves sh random s (daemon sh random s) := by
  unfold daemon
  cases sleeps : s.loc.sleep sh with
  | some next =>
    dsimp only
    have runs : s.loc ≠ .exited := by
      intro ended
      rw [ended] at sleeps
      cases sleeps
    split
    · exact .wakes sleeps ‹_›
    · rename_i awake
      split
      · exact .traps ‹_› runs
      · exact .sleeps (by rw [sleeps]; rfl) (Bool.eq_false_iff.mpr awake) (Bool.eq_false_iff.mpr ‹_›)
  | none =>
    dsimp only
    split
    · rename_i trapped
      exact .traps trapped.1 trapped.2
    · rename_i untrapped
      refine .goes sleeps ?_ (goes rfl)
      by_cases pending : s.pending = true
      · exact Or.inr (not_not.mp fun runs => untrapped ⟨pending, runs⟩)
      · exact Or.inl (Bool.eq_false_iff.mpr pending)

@[simp] theorem State.resume_flag (s : State) (pid : Nat) : (s.resume pid).flag = s.flag := by
  unfold State.resume
  split <;> rfl

@[simp] theorem State.resume_pending (s : State) (pid : Nat) : (s.resume pid).pending = s.pending := by
  unfold State.resume
  split <;> rfl

theorem Goes.kept {loc : Loc} {t : State} (goes : Goes sh random s loc t) : t.flag = s.flag ∧ t.pending = s.pending := by
  cases goes with
  | resumes | trapResumes => exact ⟨State.resume_flag s _, State.resume_pending s _⟩
  | _ => exact ⟨rfl, rfl⟩

/-- The daemon leaves the flag file as it is, and sends itself no signal. -/
theorem Moves.kept {t : State} (moved : Moves sh random s t) : t.flag = s.flag ∧ (s.pending = false → t.pending = false) := by
  cases moved with
  | goes _ _ goes => exact ⟨goes.kept.1, goes.kept.2.trans⟩
  | traps => exact ⟨rfl, fun _ => rfl⟩
  | _ => exact ⟨rfl, id⟩

end Command

/-! ## Never more than one -/

section Stopped

variable {sh : Shell} {s t : State} {pid q : Nat}

/-- What a step of the daemon did. -/
inductive Did (sh : Shell) (s t : State) : Prop
  /-- it went on in the same hold or outside the holds, or ended -/
  | went (procs : t.procs = s.procs) (held : t.loc.held = s.loc.held ∨ t.loc = .exited)
      (targets : ∀ q ∈ t.loc.targets, q ∈ s.loc.targets ∨ q ≠ sh.self ∧ q ≠ 1)
  /-- it began a hold -/
  | stopped (pid : Nat) (outside : s.loc.held = none) (aimed : pid ∈ s.loc.targets) (targets : t.loc.targets = [pid])
      (held : t.loc.held = some pid) (owes : ∀ q, t.Owes q → s.Owes q ∨ q = pid)
  /-- it sent a SIGCONT, which may have ended the hold -/
  | resumed (pid : Nat) (owes : ∀ q, t.Owes q ↔ s.Owes q ∧ q ≠ pid)
      (held : t.loc.held = s.loc.held ∨ s.loc.held = some pid) (targets : ∀ q ∈ t.loc.targets, q ∈ s.loc.targets)

theorem did_command {random : Nat} {loc : Loc} (moved : Goes sh random s loc t) (at_loc : s.loc = loc) : Did sh s t := by
  have targets : s.loc.targets = loc.targets := congrArg Loc.targets at_loc
  have held : s.loc.held = loc.held := congrArg Loc.held at_loc
  -- a command that goes on with what it had
  have goes : ∀ {next : Loc}, next.held = loc.held ∨ next = .exited → (∀ q ∈ next.targets, q ∈ loc.targets) →
      Did sh s (s.goto next) := by
    intro next same fewer
    exact .went rfl (held ▸ same) fun q member => Or.inl (targets ▸ fewer q member)
  cases moved with
  | @finds f pid pids found =>
    refine .went rfl (Or.inl held.symm) fun q member => Or.inr ?_
    have among : q ∈ findMatchingPids sh f.patterns s.procs := by
      rw [found]
      exact member
    obtain ⟨self, init, -⟩ := mem_findMatchingPids.mp among
    exact ⟨self, init⟩
  | picks among =>
    refine goes (Or.inl rfl) fun q member => ?_
    rw [List.mem_singleton.mp member]
    exact among
  | checks | draws drawn => exact goes (Or.inl rfl) fun q => id
  | @stops f pid delay p live =>
    refine .stopped pid held (targets ▸ List.mem_singleton_self pid) rfl rfl ?_
    rintro q ⟨p', found, owed⟩
    rw [Dict.get?_set] at found
    split at found
    · rename_i same
      exact Or.inr same
    · exact Or.inl ⟨p', found, owed⟩
  | resumes => exact .resumed _ (fun q => owes_resume) (Or.inr held) (List.forall_mem_nil _)
  | trapTests | trapReads | trapFinds => exact goes (Or.inl rfl) fun q => id
  | trapResumes => exact .resumed _ (fun q => owes_resume) (Or.inl held.symm) fun q member => targets ▸ member
  | fails | undrawn | unpaused | trapEnds => exact goes (Or.inr rfl) (List.forall_mem_nil _)
  | sleeps | ended => exact .went rfl (Or.inl rfl) fun q member => Or.inl member
  | _ => exact goes (Or.inl rfl) (List.forall_mem_nil _)

/-- A `sleep` is over. -/
theorem did_wake {taken : Bool} {next : Loc} (sleeps : s.loc.sleep sh = some (taken, next)) :
    Did sh s { s with asleep := false, loc := if taken then next else .exited } := by
  cases taken with
  | false => exact .went rfl (Or.inr rfl) (List.forall_mem_nil _)
  | true =>
    have goes : next.held = s.loc.held ∧ next.targets = s.loc.targets := by
      cases at_loc : s.loc with
      | pollPause | idle f | hold f pid delay | wait f delay =>
        rw [at_loc] at sleeps
        obtain ⟨-, rfl⟩ := Prod.mk.inj (Option.some.inj sleeps)
        exact ⟨rfl, rfl⟩
      | _ =>
        rw [at_loc] at sleeps
        cases sleeps
    exact .went rfl (Or.inl goes.1) fun q member => Or.inl (goes.2 ▸ member)

theorem daemon_did {random : Nat} (moved : Moves sh random s t) : Did sh s t := by
  cases moved with
  | wakes sleeps asleep => exact did_wake sleeps
  | traps => exact .went rfl (Or.inl rfl) fun q member => Or.inl (Loc.held_targets member)
  | sleeps => exact .went rfl (Or.inl rfl) fun q member => Or.inl member
  | goes _ _ goes => exact did_command goes rfl

theorem Did.owes (did : Did sh s t) (owed : t.Owes q) : s.Owes q ∨ q ∈ s.loc.targets := by
  cases did with
  | went procs held targets =>
    unfold State.Owes at owed ⊢
    rw [procs] at owed
    exact Or.inl owed
  | stopped pid outside aimed targets held owes =>
    rcases owes q owed with before | rfl
    · exact Or.inl before
    · exact Or.inr aimed
  | resumed pid owes held targets => exact Or.inl ((owes q).mp owed).1

/-- A daemon that has ended does nothing. -/
theorem daemon_exited (ended : s.loc = .exited) (random : Nat) : daemon sh random s = s := by
  have still : ¬ (s.pending = true ∧ s.loc ≠ .exited) := fun trapped => trapped.2 ended
  have none : s.loc.sleep sh = none := by rw [ended]; rfl
  rw [daemon, none]
  dsimp only
  rw [if_neg still, command, ended]

/-- The process that is stopped is the one that is held, unless the daemon has ended. -/
structure OneStopped (sh : Shell) (s : State) : Prop where
  unique : ∀ p q, s.Owes p → s.Owes q → p = q
  held : s.loc ≠ .exited → ∀ q, s.Owes q → s.loc.held = some q
  spared : ∀ q, s.Owes q ∨ q ∈ s.loc.targets → q ≠ sh.self ∧ q ≠ 1

theorem OneStopped.mono (h : OneStopped sh s) (loc : t.loc = s.loc) (fewer : ∀ q, t.Owes q → s.Owes q) :
    OneStopped sh t where
  unique p q hp hq := h.unique p q (fewer p hp) (fewer q hq)
  held runs q owed := loc ▸ h.held (loc ▸ runs) q (fewer q owed)
  spared q aimed := h.spared q (aimed.imp (fewer q) fun member => loc ▸ member)

theorem OneStopped.daemon (h : OneStopped sh s) (random : Nat) : OneStopped sh (daemon sh random s) := by
  by_cases ended : s.loc = .exited
  · rw [daemon_exited ended]
    exact h
  have did : Did sh s (ProcessFreezer.daemon sh random s) := daemon_did moves
  cases did with
  | went procs held targets =>
    have same : ∀ q, (ProcessFreezer.daemon sh random s).Owes q → s.Owes q := fun q owed => by
      unfold State.Owes at owed ⊢
      rwa [procs] at owed
    refine ⟨fun p q hp hq => h.unique p q (same p hp) (same q hq), fun runs q owed => ?_, fun q aimed => ?_⟩
    · rw [held.resolve_right runs]
      exact h.held ended q (same q owed)
    · rcases aimed with owed | member
      · exact h.spared q (Or.inl (same q owed))
      · exact (targets q member).elim (fun before => h.spared q (Or.inr before)) id
  | stopped pid outside aimed targets held owes =>
    -- nothing is owed outside the holds
    have only : ∀ q, (ProcessFreezer.daemon sh random s).Owes q → q = pid := by
      intro q owed
      refine (owes q owed).resolve_left fun before => ?_
      have inside := h.held ended q before
      rw [outside] at inside
      cases inside
    refine ⟨fun p q hp hq => (only p hp).trans (only q hq).symm, fun _ q owed => ?_, fun q aims => ?_⟩
    · rw [only q owed, held]
    · have here : q = pid := by
        rcases aims with owed | member
        · exact only q owed
        · rw [targets] at member
          exact List.mem_singleton.mp member
      rw [here]
      exact h.spared pid (Or.inr aimed)
  | resumed pid owes held targets =>
    refine ⟨fun p q hp hq => h.unique p q ((owes p).mp hp).1 ((owes q).mp hq).1, fun _ q owed => ?_, fun q aimed => ?_⟩
    · obtain ⟨before, ne⟩ := (owes q).mp owed
      have inside := h.held ended q before
      rcases held with same | settled
      · rw [same, inside]
      · rw [settled] at inside
        exact absurd (Option.some.inj inside).symm ne
    · exact h.spared q (aimed.imp (fun owed => ((owes q).mp owed).1) (targets q))

def Event.isDaemon : Event → Bool
  | .daemon _ => true
  | _ => false

theorem Event.eq_daemon {event : Event} (own : event.isDaemon = true) : ∃ random, event = .daemon random := by
  cases event with
  | daemon random => exact ⟨random, rfl⟩
  | _ => cases own

/-- What the processes and the flag file do leaves nothing more to be owed. -/
theorem owes_event (sh : Shell) (s : State) {event : Event} (other : event.isDaemon = false) :
    (step sh s event).loc = s.loc ∧ ∀ q, (step sh s event).Owes q → s.Owes q := by
  cases event with
  | flag text => exact ⟨rfl, fun q => id⟩
  | ended pid =>
    refine ⟨rfl, ?_⟩
    rintro q ⟨p, found, owed⟩
    have left : (if q = pid then none else s.procs.get? q) = some p := s.procs.get?_erase pid q ▸ found
    split at left
    · cases left
    · exact ⟨p, left, owed⟩
  | started pid cmdline =>
    unfold step
    dsimp only
    cases taken : s.procs.get? pid with
    | some _ => exact ⟨rfl, fun q => id⟩
    | none =>
      refine ⟨rfl, ?_⟩
      rintro q ⟨p, found, owed⟩
      have there : (if q = pid then some ⟨cmdline, false⟩ else s.procs.get? q) = some p :=
        s.procs.get?_set pid q _ ▸ found
      split at there
      · cases there
        cases owed
      · exact ⟨p, there, owed⟩
  | renamed pid cmdline =>
    unfold step
    dsimp only
    cases live : s.procs.get? pid with
    | none => exact ⟨rfl, fun q => id⟩
    | some p' =>
      refine ⟨rfl, ?_⟩
      rintro q ⟨p, found, owed⟩
      have there : (if q = pid then some { p' with cmdline } else s.procs.get? q) = some p :=
        s.procs.get?_set pid q _ ▸ found
      split at there
      · rename_i same
        cases there
        exact ⟨p', same ▸ live, owed⟩
      · exact ⟨p, there, owed⟩
  | signal => exact ⟨rfl, fun q => id⟩
  | daemon random => cases other

/-- What happens around the daemon does not wake it, and only a signal is pending after it. -/
theorem kept_event (sh : Shell) (s : State) {event : Event} (other : event.isDaemon = false) :
    (step sh s event).asleep = s.asleep ∧ ((step sh s event).pending = s.pending ∨ event = .signal) := by
  cases event with
  | signal => exact ⟨rfl, Or.inr rfl⟩
  | started pid cmdline | renamed pid cmdline =>
    unfold step
    dsimp only
    split <;> exact ⟨rfl, Or.inl rfl⟩
  | daemon random => cases other
  | _ => exact ⟨rfl, Or.inl rfl⟩

/-- The flag file changes only where it is written or removed. -/
theorem flag_step (sh : Shell) (s : State) (event : Event) :
    (step sh s event).flag = s.flag ∨ event = .flag (step sh s event).flag := by
  cases event with
  | flag text => exact Or.inr rfl
  | started pid cmdline | renamed pid cmdline =>
    unfold step
    dsimp only
    split <;> exact Or.inl rfl
  | daemon random =>
    have moved : Moves sh random s (step sh s (.daemon random)) := moves
    exact Or.inl moved.kept.1
  | _ => exact Or.inl rfl

theorem OneStopped.run (h : OneStopped sh s) (events : List Event) : OneStopped sh (run sh s events) := by
  induction events generalizing s with
  | nil => exact h
  | cons event events ih =>
    apply ih
    cases own : event.isDaemon with
    | true =>
      obtain ⟨random, rfl⟩ := Event.eq_daemon own
      exact h.daemon random
    | false =>
      have around := owes_event sh s own
      exact h.mono around.1 around.2

end Stopped

/-- Whatever happens: never are two processes stopped, the one that is stopped is being held unless the
daemon has ended, and it is neither the daemon nor the first process. -/
theorem one_process_stopped (sh : Shell) {s : State} (fresh : s.Fresh) (events : List Event) :
    let t := run sh s events
    (∀ p q, t.Owes p → t.Owes q → p = q) ∧ ∀ q, t.Owes q →
      (t.loc.held = some q ∨ t.loc = .exited) ∧ q ≠ sh.self ∧ q ≠ 1 := by
  have start : OneStopped sh s := by
    have nothing : ∀ q, ¬ s.Owes q := by
      rintro q ⟨p, found, owed⟩
      rw [fresh.procs q p found] at owed
      cases owed
    refine ⟨fun p q owed => absurd owed (nothing p), fun _ q owed => absurd owed (nothing q), fun q aimed => ?_⟩
    rw [fresh.loc] at aimed
    exact aimed.elim (fun owed => absurd owed (nothing q)) fun member => absurd member List.not_mem_nil
  have h := start.run events
  refine ⟨h.unique, fun q owed => ⟨?_, h.spared q (Or.inl owed)⟩⟩
  by_cases ended : (run sh s events).loc = .exited
  · exact Or.inr ended
  · exact Or.inl (h.held ended q owed)

/-- The daemon holds postgres while another one is started. -/
theorem one_postgres_stopped :
    let t := run plainShell postgresStart (untilHold ++ [.started 43 "postgres -D /data".toList, .daemon 0])
    t.Owes 42 ∧ ¬ t.Owes 43 := by
  intro t
  have first : t.Owes 42 := by decide
  refine ⟨first, fun second => ?_⟩
  have same := (one_process_stopped plainShell postgresStart_fresh _).1 42 43 first second
  omega

/-! ## A signal ends the daemon -/

section Signal

variable (sh : Shell) {s : State}

def Event.isStarted : Event → Bool
  | .started _ _ => true
  | _ => false

/-- The trap is to run, or runs, or has run. -/
def Ending (s : State) : Prop := s.pending = true ∨ (∃ held stage, s.loc = .cleanup held stage) ∨ s.loc = .exited

/-- The commands of `cleanup` that are left, for so many processes. -/
def Cleanup.left (processes : Nat) : Cleanup → Nat
  | .test => processes + 4
  | .parse => processes + 3
  | .find _ => processes + 2
  | .resume pids => pids.length + 1

/-- The steps of the daemon until it has ended, if no process is started. -/
def rank (s : State) : Nat :=
  if s.loc = .exited then 0
  else if s.pending then s.procs.items.length + (if s.asleep then 6 else 5)
  else match s.loc with
    | .cleanup _ stage => stage.left s.procs.items.length
    | _ => 0

theorem rank_exited (ended : s.loc = .exited) : rank s = 0 := if_pos ended

theorem rank_pending (runs : s.loc ≠ .exited) (pending : s.pending = true) :
    rank s = s.procs.items.length + if s.asleep then 6 else 5 := by
  rw [rank, if_neg runs, if_pos pending]

theorem rank_cleanup {held : Option Nat} {stage : Cleanup} (at_loc : s.loc = .cleanup held stage)
    (clear : s.pending = false) : rank s = stage.left s.procs.items.length := by
  have runs : s.loc ≠ .exited := by
    intro ended
    rw [at_loc] at ended
    cases ended
  rw [rank, if_neg runs, if_neg (by rw [clear]; exact Bool.false_ne_true), at_loc]

theorem length_findMatchingPids (patterns : List (List Char)) (procs : Processes) :
    (findMatchingPids sh patterns procs).length ≤ procs.items.length := by
  rw [findMatchingPids, List.length_insertionSort, List.length_map]
  exact List.length_filter_le _ _

/-- A command of `cleanup` leaves one command less. -/
theorem command_ending {held : Option Nat} {stage : Cleanup} {t : State} {random : Nat}
    (moved : Goes sh random s (.cleanup held stage) t) (at_loc : s.loc = .cleanup held stage) (clear : s.pending = false) :
    Ending t ∧ rank t + 1 ≤ rank s := by
  have before := rank_cleanup at_loc clear
  have stays : ∀ stage', stage'.left s.procs.items.length + 1 ≤ stage.left s.procs.items.length →
      Ending (s.goto (.cleanup held stage')) ∧ rank (s.goto (.cleanup held stage')) + 1 ≤ rank s := by
    intro stage' lower
    refine ⟨Or.inr (Or.inl ⟨held, stage', rfl⟩), ?_⟩
    rw [rank_cleanup (s := s.goto (.cleanup held stage')) rfl clear, before]
    exact lower
  cases moved with
  | trapTests => exact stays .parse (by simp only [Cleanup.left]; omega)
  | trapReads => exact stays _ (by simp only [Cleanup.left]; omega)
  | @trapFinds _ patterns =>
    apply stays
    have few := length_findMatchingPids sh patterns s.procs
    simp only [Cleanup.left]
    omega
  | @trapResumes _ pid pids =>
    have still : ((s.resume pid).goto (.cleanup held (.resume pids))).pending = false := (s.resume_pending pid).trans clear
    refine ⟨Or.inr (Or.inl ⟨held, _, rfl⟩), ?_⟩
    rw [rank_cleanup (s := (s.resume pid).goto (.cleanup held (.resume pids))) rfl still, before]
    simp only [Cleanup.left, List.length_cons]
    omega
  | trapEnds =>
    refine ⟨Or.inr (Or.inr rfl), ?_⟩
    rw [rank_exited rfl, before]
    cases stage <;> simp only [Cleanup.left] <;> omega
  | sleeps sleeps => cases sleeps

/-- A step of a daemon that is to end brings its end nearer. -/
theorem daemon_ending {t : State} {random : Nat} (h : Ending s) (moved : Moves sh random s t) :
    t.loc = .exited ∨ Ending t ∧ rank t + 1 ≤ rank s := by
  have asked : (s.loc.sleep sh).isSome → s.pending = true := by
    intro sleeps
    refine h.resolve_right fun ends => ?_
    rcases ends with ⟨held, stage, at_loc⟩ | ended
    · rw [at_loc] at sleeps
      cases sleeps
    · rw [ended] at sleeps
      cases sleeps
  cases moved with
  | wakes sleeps asleep =>
    have there : (s.loc.sleep sh).isSome := by rw [sleeps]; rfl
    have runs : s.loc ≠ .exited := by
      intro ended
      rw [ended] at there
      cases there
    refine (em _).imp_right fun left => ⟨Or.inl (asked there), ?_⟩
    rw [rank_pending left (asked there), rank_pending runs (asked there), if_pos asleep]
    simp
  | traps pending runs =>
    refine Or.inr ⟨Or.inr (Or.inl ⟨_, _, rfl⟩), ?_⟩
    rw [rank_cleanup (s := { s with pending := false, loc := .cleanup s.loc.held .test }) rfl rfl,
      rank_pending runs pending]
    simp only [Cleanup.left]
    split <;> omega
  | sleeps sleeps _ calm =>
    rw [asked sleeps] at calm
    cases calm
  | goes _ calm goes =>
    by_cases ended : s.loc = .exited
    · rw [ended] at goes
      cases goes with
      | sleeps | ended => exact Or.inl ended
    · have clear := calm.resolve_right ended
      have untouched : s.pending ≠ true := by rw [clear]; exact Bool.false_ne_true
      obtain ⟨held, stage, at_loc⟩ := (h.resolve_left untouched).resolve_right ended
      rw [at_loc] at goes
      exact Or.inr (command_ending sh goes at_loc clear)

/-- The processes may be more by those that are started. -/
theorem length_step (s : State) {event : Event} (other : event.isDaemon = false) :
    (step sh s event).procs.items.length ≤ s.procs.items.length + if event.isStarted then 1 else 0 := by
  cases event with
  | flag text => exact Nat.le_refl _
  | signal => exact Nat.le_refl _
  | ended pid => exact (List.length_filter_le _ _)
  | started pid cmdline =>
    unfold step
    dsimp only
    cases taken : s.procs.get? pid with
    | some _ => exact Nat.le_succ _
    | none =>
      have fresh : pid ∉ s.procs.keys := s.procs.get?_eq_none.mp taken
      dsimp only
      rw [Dict.items_set_of_not_mem fresh, List.length_append]
      exact Nat.le_refl _
  | renamed pid cmdline =>
    unfold step
    dsimp only
    cases live : s.procs.get? pid with
    | none => exact Nat.le_refl _
    | some p =>
      have known : pid ∈ s.procs.keys := Dict.mem_keys_of_get? live
      have keys := s.procs.keys_set pid { p with cmdline }
      rw [if_pos known] at keys
      have same := congrArg List.length keys
      simp only [Dict.keys, List.length_map] at same
      exact Nat.le_of_eq same
  | daemon random => cases other

/-- What happens around a daemon that is to end puts its end off by one step for a new process. -/
theorem event_ending (h : Ending s) {event : Event} (other : event.isDaemon = false) (quiet : event ≠ .signal) :
    Ending (step sh s event) ∧ rank (step sh s event) ≤ rank s + if event.isStarted then 1 else 0 := by
  obtain ⟨asleep, signalled⟩ := kept_event sh s other
  have pending := signalled.resolve_right quiet
  have loc := (owes_event sh s other).1
  have more := length_step sh s other
  refine ⟨by unfold Ending; rwa [loc, pending], ?_⟩
  unfold rank
  rw [loc, pending, asleep]
  split
  · exact Nat.zero_le _
  · split
    · omega
    · cases s.loc with
      | cleanup held stage =>
        cases stage <;> simp only [Cleanup.left] <;> omega
      | _ => exact Nat.zero_le _

theorem run_exited (ended : s.loc = .exited) (events : List Event) : (run sh s events).loc = .exited := by
  induction events generalizing s with
  | nil => exact ended
  | cons event events ih =>
    apply ih
    cases own : event.isDaemon with
    | true =>
      obtain ⟨random, rfl⟩ := Event.eq_daemon own
      exact (congrArg State.loc (daemon_exited ended random)).trans ended
    | false => exact (owes_event sh s own).1.trans ended

/-- A daemon that is to end and has not ended has a step left. -/
theorem Ending.exited (h : Ending s) (finished : rank s = 0) : s.loc = .exited := by
  by_contra runs
  by_cases pending : s.pending = true
  · rw [rank_pending runs pending] at finished
    split at finished <;> omega
  · obtain ⟨held, stage, at_loc⟩ := (h.resolve_left pending).resolve_right runs
    rw [rank_cleanup at_loc (Bool.eq_false_iff.mpr pending)] at finished
    cases stage <;> simp only [Cleanup.left] at finished <;> omega

/-- While no other signal comes, the daemon makes no more steps than its rank and the processes that
are started, or it has ended. -/
theorem run_ending (h : Ending s) {events : List Event} (quiet : .signal ∉ events) :
    (run sh s events).loc = .exited ∨ Ending (run sh s events) ∧
      rank (run sh s events) + events.countP Event.isDaemon ≤ rank s + events.countP Event.isStarted := by
  induction events generalizing s with
  | nil => exact Or.inr ⟨h, Nat.le_refl _⟩
  | cons event events ih =>
    have later : .signal ∉ events := fun member => quiet (List.mem_cons_of_mem _ member)
    have here : event ≠ .signal := fun eq => quiet (eq ▸ List.mem_cons_self)
    have run_cons : run sh s (event :: events) = run sh (step sh s event) events := rfl
    rw [List.countP_cons, List.countP_cons, run_cons]
    cases own : event.isDaemon with
    | true =>
      obtain ⟨random, rfl⟩ := Event.eq_daemon own
      have step_eq : step sh s (.daemon random) = daemon sh random s := rfl
      rw [if_pos rfl, if_neg (by simp [Event.isStarted]), step_eq]
      have moved : Moves sh random s (daemon sh random s) := moves
      rcases daemon_ending sh h moved with ended | ⟨ending, lower⟩
      · exact Or.inl (run_exited sh ended events)
      · refine (ih ending later).imp_right fun next => ?_
        obtain ⟨still, bound⟩ := next
        exact ⟨still, by omega⟩
    | false =>
      obtain ⟨ending, nearly⟩ := event_ending sh h own here
      rw [if_neg Bool.false_ne_true]
      refine (ih ending later).imp_right fun next => ?_
      obtain ⟨still, bound⟩ := next
      exact ⟨still, by omega⟩

/-- A daemon that was asked to end, and is not asked again, has ended after as many of its steps as there
are processes, six more, and one for each process that is started meanwhile. -/
theorem signal_ends_daemon (asked : s.pending = true) {events : List Event} (quiet : .signal ∉ events)
    (long : s.procs.items.length + 6 + events.countP Event.isStarted ≤ events.countP Event.isDaemon) :
    (run sh s events).loc = .exited := by
  have first : rank s ≤ s.procs.items.length + 6 := by
    by_cases ended : s.loc = .exited
    · rw [rank_exited ended]
      omega
    · rw [rank_pending ended asked]
      split <;> omega
  rcases run_ending sh (Or.inl asked) quiet with ended | ⟨ending, bound⟩
  · exact ended
  · exact ending.exited (by omega)

/-- The daemon is asked to end while it holds postgres. -/
theorem signal_ends_hold :
    (run plainShell (run plainShell postgresStart (untilHold ++ [.signal])) (List.replicate 7 (.daemon 0))).loc = .exited :=
  signal_ends_daemon plainShell (by decide) (by simp) (by decide)

end Signal

end FaultStorm.ProcessFreezer
