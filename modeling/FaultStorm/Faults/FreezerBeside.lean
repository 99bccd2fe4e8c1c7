import FaultStorm.Faults.FreezerFollows

/-!
# Freeze actions and the process freezer side by side

The `execute()` and `heal()` calls of freeze actions reach the daemon of a node through the flag file.
Whichever freezes overlap, the daemon stops only what a freeze aimed at its node asks for, and lets go
of it once no active freeze is aimed at the node.
-/

namespace FaultStorm.Freezes

open Python ProcessFreezer

/-! ## The flag file of a node -/

section Flag

variable {s : Freezes} {node : String}

theorem flag_execute (works : s.world.env.Works) (f : Freeze) :
    (s.step (.execute f)).world.env.flag node =
      if node ∈ (f.chosen s.world.draws).targets then some (flagText f.base) else s.world.env.flag node := by
  obtain ⟨later, eq⟩ := f.execute_eq works
  rw [step, eq]
  exact Cluster.flag_setFlag ..

theorem flag_heal (works : s.world.env.Works) {i : Nat} {f : Freeze} (found : s.active[i]? = some f) :
    (s.step (.heal i)).world.env.flag node = if node ∈ f.targets then none else s.world.env.flag node := by
  rw [step, found]
  dsimp only
  rw [f.heal_eq works]
  exact Cluster.flag_setFlag ..

/-- A node that carries the flag file has an active freeze aimed at it. -/
def Covered (s : Freezes) (node : String) : Prop := (s.world.env.flag node).isSome → ∃ f ∈ s.active, node ∈ f.targets

/-- A freeze of some calls that is aimed at a node when it is executed. -/
def Aimed (s : Freezes) (calls : List Call) (node : String) (a : BaseFreezeAction) : Prop :=
  ∃ done f, done ++ [.execute f] <+: calls ∧ f.base = a ∧ node ∈ (f.chosen (s.run done).world.draws).targets

theorem Aimed.cons {call : Call} {calls : List Call} {a : BaseFreezeAction} (h : Aimed (s.step call) calls node a) :
    Aimed s (call :: calls) node a := by
  obtain ⟨done, f, among, base, aimed⟩ := h
  exact ⟨call :: done, f, List.cons_prefix_cons.mpr ⟨rfl, among⟩, base, aimed⟩

theorem Aimed.head {f : Freeze} {calls : List Call} (aimed : node ∈ (f.chosen s.world.draws).targets) :
    Aimed s (.execute f :: calls) node f.base :=
  ⟨[], f, List.cons_prefix_cons.mpr ⟨rfl, List.nil_prefix⟩, rfl, aimed⟩

/-- A call leaves the flag file, removes it, or writes that of a freeze that is aimed at the node. -/
theorem written_step (works : s.world.env.Works) {actions : BaseFreezeAction → Prop} {call : Call} {calls : List Call}
    (aimed : ∀ a, Aimed s (call :: calls) node a → actions a) (given : Written actions (s.world.env.flag node)) :
    Written actions ((s.step call).world.env.flag node) := by
  cases call with
  | execute f =>
    rw [flag_execute works]
    split
    · rintro text there
      cases there
      exact ⟨f.base, aimed _ (.head ‹_›), List.prefix_refl _⟩
    · exact given
  | heal i =>
    cases found : s.active[i]? with
    | none =>
      have still : s.step (.heal i) = s := by rw [step, found]
      rwa [still]
    | some f =>
      rw [flag_heal works found]
      split
      · rintro text there
        cases there
      · exact given

end Flag

/-! ## Side by side -/

/-- The calls of freeze actions, and what happens to the daemon of a node meanwhile. The flag file that an
`execute()` writes may be seen before it is written whole. -/
inductive Beside (node : String) : Freezes → List Call → List ProcessFreezer.Event → Prop
  | ended {s : Freezes} : Beside node s [] []
  | around {s : Freezes} {calls : List Call} {event : ProcessFreezer.Event} {events : List ProcessFreezer.Event}
      (other : ∀ text, event ≠ .flag text) (rest : Beside node s calls events) : Beside node s calls (event :: events)
  | writing {s : Freezes} {f : Freeze} {calls : List Call} {text : List Char} {events : List ProcessFreezer.Event}
      (aimed : node ∈ (f.chosen s.world.draws).targets) (torn : text <+: flagText f.base)
      (rest : Beside node s (.execute f :: calls) events) :
      Beside node s (.execute f :: calls) (.flag (some text) :: events)
  | call {s : Freezes} {call : Call} {calls : List Call} {events : List ProcessFreezer.Event}
      (rest : Beside node (s.step call) calls events) :
      Beside node s (call :: calls) (.flag ((s.step call).world.env.flag node) :: events)

section Beside

variable {s : Freezes} {node : String} {calls : List Call} {events : List ProcessFreezer.Event}

theorem Beside.written (beside : Beside node s calls events) (works : s.world.env.Works) {actions : BaseFreezeAction → Prop}
    (aimed : ∀ a, Aimed s calls node a → actions a) (given : Written actions (s.world.env.flag node)) :
    ∀ text, .flag (some text) ∈ events → ∃ a, actions a ∧ text <+: flagText a := by
  induction beside with
  | ended => exact fun text member => absurd member List.not_mem_nil
  | around other rest ih =>
    intro text member
    rcases List.mem_cons.mp member with eq | later
    · exact absurd eq.symm (other _)
    · exact ih works aimed given text later
  | @writing s f calls torn_text events here torn rest ih =>
    intro text member
    rcases List.mem_cons.mp member with eq | later
    · cases eq
      exact ⟨f.base, aimed _ (.head here), torn⟩
    · exact ih works aimed given text later
  | @call s call calls events rest ih =>
    have after := written_step works aimed given
    intro text member
    rcases List.mem_cons.mp member with eq | later
    · exact after text (ProcessFreezer.Event.flag.inj eq).symm
    · exact ih (works_step works call) (fun a h => aimed a h.cons) after text later

/-- After the calls the daemon sees the flag file of the node. -/
theorem Beside.flag (beside : Beside node s calls events) {sh : Shell} {start : ProcessFreezer.State}
    (given : calls = [] → start.flag = s.world.env.flag node) :
    (ProcessFreezer.run sh start events).flag = (s.run calls).world.env.flag node := by
  induction beside generalizing start with
  | ended => exact given rfl
  | @around s calls event events other rest ih =>
    exact ih fun none => ((flag_step sh start event).resolve_right (other _)).trans (given none)
  | writing aimed torn rest ih => exact ih fun none => absurd none (List.cons_ne_nil _ _)
  | call rest ih => exact ih fun _ => rfl

end Beside

end FaultStorm.Freezes
