import FaultStorm.Faults.ProcessFreezer
import Mathlib.Data.List.Perm.Basic

/-!
# Overlapping freezes

Every freeze action writes and removes the same flag file on the nodes it targets. `setFlag`
is what one `execute()` or `heal()` does to the cluster; a run of such calls keeps the flag
files in step with the active freezes as long as no call touches what another freeze needs.
-/

namespace FaultStorm

open Python ProcessFreezer

/-! ## The flag file of a node -/

/-- Put a text in the flag file, its here-document perhaps straying, or remove the file. -/
def Node.withFlag (n : Node) (text : Option (List Char)) (stray : Bool) : Node :=
  { n with
    files := fun p => if p = BaseFreezeAction.flagFile then text else n.files p
    stray := n.stray || stray }

theorem Node.withFlag_withFlag (n : Node) (text : Option (List Char)) (stray : Bool) :
    (n.withFlag text stray).withFlag text stray = n.withFlag text stray := by
  unfold Node.withFlag
  congr 1
  · funext p
    split
    · rfl
    · rename_i other
      exact if_neg other
  · rw [Bool.or_assoc, Bool.or_self]

namespace Cluster

/-- The flag file of a node. -/
def flag (c : Cluster) (name : String) : Option (List Char) := (c.node name).files BaseFreezeAction.flagFile

/-- Write or remove the flag file on some nodes. -/
def setFlag (c : Cluster) (text : Option (List Char)) (stray : Bool) (targets : List String) : Cluster :=
  { c with node := fun name => if name ∈ targets then (c.node name).withFlag text stray else c.node name }

variable {c : Cluster}

@[simp] theorem setFlag_nil (c : Cluster) (text : Option (List Char)) (stray : Bool) :
    c.setFlag text stray [] = c := by
  simp [setFlag]

theorem flag_setFlag (c : Cluster) (text : Option (List Char)) (stray : Bool) (targets : List String) (name : String) :
    (c.setFlag text stray targets).flag name = if name ∈ targets then text else c.flag name := by
  unfold flag setFlag
  dsimp only
  split
  · simp [Node.withFlag]
  · rfl

theorem setNode_setFlag (c : Cluster) (text : Option (List Char)) (stray : Bool) (name : String) (targets : List String) :
    (c.setNode name ((c.node name).withFlag text stray)).setFlag text stray targets =
      c.setFlag text stray (name :: targets) := by
  unfold setFlag setNode
  congr 1
  funext other
  by_cases here : other = name
  · subst here
    simp [Node.withFlag_withFlag]
  · simp [here]

/-- A loop that writes, or removes, the flag file. -/
theorem exec_flagLoop (works : c.Works) {text : Option (List Char)} {stray : Bool} {command : NodeCommand}
    (runs : ∀ n : Node, n.run command = some (n.withFlag text stray)) (targets : List String) :
    (Proc.forEach targets fun node => Proc.swallow (ClusterManager.execOnNode node command)).exec c =
      (.ok (), c.setFlag text stray targets) := by
  induction targets generalizing c with
  | nil =>
    rw [setFlag_nil]
    rfl
  | cons name targets ih =>
    have one : (ClusterManager.execOnNode name command).exec c =
        (.ok (), c.setNode name ((c.node name).withFlag text stray)) := by
      rw [exec_execOnNode works, runs]
    have again : (c.setNode name ((c.node name).withFlag text stray)).Works := works
    rw [Proc.forEach_cons, Proc.exec_bind_ok (Proc.exec_swallow _ c), one, ih again, setNode_setFlag]

end Cluster

open Cluster

theorem exec_writeFlagToNodes {c : Cluster} (works : c.Works) (a : BaseFreezeAction) (targets : List String) :
    (a.writeFlagToNodes targets).exec c = (.ok (), c.setFlag (some (flagText a)) (strays a) targets) :=
  exec_flagLoop works (fun _ => rfl) targets

theorem exec_removeFlagFromNodes {c : Cluster} (works : c.Works) (targets : List String) :
    (BaseFreezeAction.removeFlagFromNodes targets).exec c = (.ok (), c.setFlag none false targets) :=
  exec_flagLoop works (fun n => by rw [Node.withFlag, Bool.or_false]; rfl) targets

/-! ## The two freeze actions -/

/-- A freeze action. -/
inductive Freeze
  | processes (a : FreezeProcessesAction)
  | group (a : FreezeProcessesGroupAction)
  deriving DecidableEq

namespace Freeze

def base : Freeze → BaseFreezeAction
  | .processes a => a.toBaseFreezeAction
  | .group a => a.toBaseFreezeAction

/-- Run a method of the action: the object and the world it leaves. -/
def run {α : Type} (wrap : α → Freeze) (m : ActionM α Unit) (a : α) (w : World Cluster) :
    Freeze × World Cluster :=
  let (a, w) := (m.exec (a, w)).2
  (wrap a, w)

/-- `execute()`. Whether it raised makes no difference to the engine. -/
def execute (f : Freeze) (w : World Cluster) : Freeze × World Cluster :=
  match f with
  | .processes a => run .processes FreezeProcessesAction.execute a w
  | .group a => run .group FreezeProcessesGroupAction.execute a w

/-- `heal()`. -/
def heal (f : Freeze) (w : World Cluster) : World Cluster :=
  match f with
  | .processes a => (run .processes FreezeProcessesAction.heal a w).2
  | .group a => (run .group FreezeProcessesGroupAction.heal a w).2

/-- The nodes the action freezes. -/
def targets : Freeze → List String
  | .processes a => a.node.toList
  | .group a => a.targetNodes

/-- The action with the target that the random numbers to come give it, if it has none. -/
def chosen (f : Freeze) (draws : Nat → Nat) : Freeze :=
  match f with
  | .processes a => match a.node, ((Random.choice a.dbNodes).exec draws).1 with
    | none, .ok node => .processes { a with node := some node }
    | _, _ => f
  | .group a => match a.group, ((Random.choice a.candidates).exec draws).1 with
    | none, .ok name => .group { a with group := some name }
    | _, _ => f

variable {w : World Cluster}

theorem heal_eq (works : w.env.Works) (f : Freeze) :
    f.heal w = { w with env := w.env.setFlag none false f.targets } := by
  cases f with
  | processes a =>
    obtain ⟨base, node⟩ := a
    cases node with
    | none =>
      have nothing : (processes ⟨base, none⟩).targets = [] := rfl
      rw [nothing, setFlag_nil]
      rfl
    | some node =>
      show World.mk _ ((BaseFreezeAction.removeFlagFromNodes [node]).exec w.env).2 = _
      rw [exec_removeFlagFromNodes works]
      rfl
  | group a =>
    show World.mk _ ((BaseFreezeAction.removeFlagFromNodes a.targetNodes).exec w.env).2 = _
    rw [exec_removeFlagFromNodes works]
    rfl

/-- The last part of `execute()`, whose targets are known. -/
theorem exec_write {α : Type} (works : w.env.Works) (view : α → BaseFreezeAction) (a : α) (targets : List String) :
    (do let a ← this
        onCluster ((view a).writeFlagToNodes targets)).exec (a, w) =
      (.ok (), a, { w with env := w.env.setFlag (some (flagText (view a))) (strays (view a)) targets }) := by
  rw [Proc.exec_bind_ok (exec_this _), exec_onCluster, exec_writeFlagToNodes works]

theorem execute_processes (works : w.env.Works) (a : FreezeProcessesAction) :
    ∃ later, execute (processes a) w = (chosen (processes a) w.draws,
      ⟨later, w.env.setFlag (some (flagText a.toBaseFreezeAction)) (strays a.toBaseFreezeAction)
        (chosen (processes a) w.draws).targets⟩) := by
  unfold execute run FreezeProcessesAction.execute FreezeProcessesAction.resolveTargets
  dsimp only
  obtain ⟨base, node⟩ := a
  cases node with
  | some node =>
    have given : (choose (·.node) (fun a v => { a with node := some v }) (·.dbNodes)).exec
        (FreezeProcessesAction.mk base (some node), w) = (.ok (), ⟨base, some node⟩, w) := exec_choose_set rfl
    rw [bind_assoc, Proc.exec_bind_ok given, bind_assoc, Proc.exec_bind_ok (exec_this _), pure_bind,
      exec_write works FreezeProcessesAction.toBaseFreezeAction]
    exact ⟨w.draws, rfl⟩
  | none =>
    by_cases empty : base.dbNodes = []
    · have drawn := Random.exec_choice_nil (α := String) w.draws
      rw [← empty] at drawn
      have raises := @exec_choose_raises FreezeProcessesAction (·.node) (fun a v => { a with node := some v })
        (·.dbNodes) (⟨base, none⟩, w) rfl _ _ drawn
      have same : chosen (processes ⟨base, none⟩) w.draws = processes ⟨base, none⟩ := by
        simp only [chosen, drawn]
      have nothing : targets (processes ⟨base, none⟩) = [] := rfl
      rw [bind_assoc, Proc.exec_bind_error raises, same, nothing, setFlag_nil]
      exact ⟨w.draws, rfl⟩
    · obtain ⟨v, -, drawn⟩ := Random.exec_choice empty w.draws
      have picks := @exec_choose_drawn FreezeProcessesAction (·.node) (fun a v => { a with node := some v })
        (·.dbNodes) (⟨base, none⟩, w) rfl _ _ drawn
      have picked : chosen (processes ⟨base, none⟩) w.draws = processes ⟨base, some v⟩ := by
        simp only [chosen, drawn]
      have works' : ({ w with draws := fun k => w.draws (k + 1) } : World Cluster).env.Works := works
      rw [bind_assoc, Proc.exec_bind_ok picks, bind_assoc, Proc.exec_bind_ok (exec_this _), pure_bind,
        exec_write works' FreezeProcessesAction.toBaseFreezeAction, picked]
      exact ⟨_, rfl⟩

theorem execute_group (works : w.env.Works) (a : FreezeProcessesGroupAction) :
    ∃ later, execute (group a) w = (chosen (group a) w.draws,
      ⟨later, w.env.setFlag (some (flagText a.toBaseFreezeAction)) (strays a.toBaseFreezeAction)
        (chosen (group a) w.draws).targets⟩) := by
  have targeted : ∀ (b : FreezeProcessesGroupAction) (draws : Nat → Nat),
      Proc.exec (if b.targetNodes.isEmpty then pure () else do
          let a ← this
          onCluster (a.toBaseFreezeAction.writeFlagToNodes b.targetNodes)) (b, ⟨draws, w.env⟩) =
        (.ok (), b, ⟨draws, w.env.setFlag (some (flagText b.toBaseFreezeAction)) (strays b.toBaseFreezeAction)
          b.targetNodes⟩) := by
    intro b draws
    by_cases empty : b.targetNodes.isEmpty
    · rw [if_pos empty, List.isEmpty_iff.mp empty, setFlag_nil]
      rfl
    · have works' : (⟨draws, w.env⟩ : World Cluster).env.Works := works
      rw [if_neg empty, exec_write works' FreezeProcessesGroupAction.toBaseFreezeAction]
  unfold execute run FreezeProcessesGroupAction.execute FreezeProcessesGroupAction.resolveTargets
  dsimp only
  rw [bind_assoc, Proc.exec_bind_ok (exec_this _)]
  obtain ⟨base, name⟩ := a
  cases name with
  | some name =>
    have given : ¬ (some name).isNone = true := nofun
    rw [if_neg given, bind_assoc, Proc.exec_bind_ok (exec_this _), pure_bind]
    exact ⟨w.draws, congrArg (fun r => (group r.2.1, r.2.2)) (targeted ⟨base, some name⟩ w.draws)⟩
  | none =>
    rw [if_pos (by rfl)]
    by_cases empty : FreezeProcessesGroupAction.candidates ⟨base, none⟩ = []
    · have drawn := Random.exec_choice_nil (α := String) w.draws
      rw [← empty] at drawn
      have same : chosen (group ⟨base, none⟩) w.draws = group ⟨base, none⟩ := by
        simp only [chosen, drawn]
      have nothing : targets (group ⟨base, none⟩) = [] := by
        show base.dbNodes = []
        by_contra nonempty
        have candidate : "db" ∈ FreezeProcessesGroupAction.candidates ⟨base, none⟩ :=
          List.mem_filter.mpr ⟨by decide, by simpa using nonempty⟩
        rw [empty] at candidate
        exact absurd candidate List.not_mem_nil
      rw [if_pos (List.isEmpty_iff.mpr empty), pure_bind, same, nothing, setFlag_nil]
      exact ⟨w.draws, rfl⟩
    · obtain ⟨v, -, drawn⟩ := Random.exec_choice empty w.draws
      have picked : chosen (group ⟨base, none⟩) w.draws = group ⟨base, some v⟩ := by
        simp only [chosen, drawn]
      rw [if_neg fun eq => empty (List.isEmpty_iff.mp eq), bind_assoc, Proc.exec_bind_ok (exec_pick_ok drawn),
        bind_assoc, Proc.exec_bind_ok (exec_assign _ _), bind_assoc, Proc.exec_bind_ok (exec_this _), pure_bind,
        picked]
      exact ⟨_, congrArg (fun r => (group r.2.1, r.2.2)) (targeted ⟨base, some v⟩ _)⟩

/-- What `execute()` comes to: the flag file is written on the nodes of the action, its target
chosen. -/
theorem execute_eq (works : w.env.Works) (f : Freeze) :
    ∃ later, f.execute w = (f.chosen w.draws,
      ⟨later, w.env.setFlag (some (flagText f.base)) (strays f.base) (f.chosen w.draws).targets⟩) := by
  cases f with
  | processes a => exact execute_processes works a
  | group a => exact execute_group works a

theorem chosen_base (f : Freeze) (draws : Nat → Nat) : (f.chosen draws).base = f.base := by
  unfold chosen
  split
  · split <;> rfl
  · split <;> rfl

/-- Both actions freeze a node. -/
def Share (f g : Freeze) : Prop := ∃ node ∈ f.targets, node ∈ g.targets

/-- Each pattern of the action can stand as a line of the flag file. -/
def PlainPatterns (f : Freeze) : Prop := ∀ p ∈ f.base.processes, PlainPattern p.toList

end Freeze

/-! ## Runs -/

/-- The cluster and the freezes that are executed and not yet healed. -/
structure Freezes where
  world : World Cluster
  active : List Freeze

namespace Freezes

/-- One whole `execute()` or `heal()` call, the latter of the `i`-th active freeze. -/
inductive Call
  | execute (f : Freeze)
  | heal (i : Nat)

def step (s : Freezes) : Call → Freezes
  | .execute f => ⟨(f.execute s.world).2, s.active ++ [(f.execute s.world).1]⟩
  | .heal i => match s.active[i]? with
    | some f => ⟨f.heal s.world, s.active.eraseIdx i⟩
    | none => s

def run (s : Freezes) (calls : List Call) : Freezes := calls.foldl step s

/-- A node carries the flag file if and only if an active freeze targets it, and the patterns in
the file include those of every active freeze that does. -/
def Lawful (s : Freezes) : Prop :=
  ∀ node, ((s.world.env.flag node).isSome ↔ ∃ f ∈ s.active, node ∈ f.targets) ∧
    ∀ text, s.world.env.flag node = some text → ∀ f ∈ s.active, node ∈ f.targets →
      ∀ p ∈ f.base.processes, p.toList ∈ (parseFlagFile text).patterns

/-- What a call must respect: a new freeze, its target chosen, brings patterns the freezer can
read, among them those of the active freezes it shares a node with; a freeze that ends shares no
node with another. -/
def Meets (s : Freezes) : Call → Prop
  | .execute f =>
      let f := f.chosen s.world.draws
      (f.targets ≠ [] → f.PlainPatterns) ∧ ∀ g ∈ s.active, f.Share g → g.base.processes ⊆ f.base.processes
  | .heal i => ∀ f, s.active[i]? = some f → ∀ g ∈ s.active.eraseIdx i, ¬ f.Share g

variable {s : Freezes}

theorem run_append (s : Freezes) (done : List Call) (call : Call) :
    s.run (done ++ [call]) = (s.run done).step call := by
  rw [run, run, List.foldl_append]
  rfl

theorem works_step (works : s.world.env.Works) (call : Call) : (s.step call).world.env.Works := by
  cases call with
  | execute f =>
    obtain ⟨later, eq⟩ := f.execute_eq works
    rw [step, eq]
    exact works
  | heal i =>
    unfold step
    dsimp only
    split
    · rename_i f _
      rw [f.heal_eq works]
      exact works
    · exact works

theorem works_run (works : s.world.env.Works) (calls : List Call) : (s.run calls).world.env.Works := by
  induction calls using List.reverseRecOn with
  | nil => exact works
  | append_singleton calls call ih =>
    rw [run_append]
    exact works_step ih call

/-- Writing the flag file for one more freeze. -/
theorem lawful_added_iff (lawful : s.Lawful) (f : Freeze) (draws : Nat → Nat) :
    Lawful ⟨⟨draws, s.world.env.setFlag (some (flagText f.base)) (strays f.base) f.targets⟩, s.active ++ [f]⟩ ↔
      (f.targets ≠ [] → f.PlainPatterns) ∧ ∀ g ∈ s.active, f.Share g → g.base.processes ⊆ f.base.processes := by
  constructor
  · intro after
    have read : ∀ node ∈ f.targets, ∀ g ∈ s.active ++ [f], node ∈ g.targets → ∀ p ∈ g.base.processes,
        p.toList ∈ (parseFlagFile (flagText f.base)).patterns := by
      intro node target
      refine (after node).2 (flagText f.base) ?_
      rw [flag_setFlag, if_pos target]
    have plain : f.targets ≠ [] → f.PlainPatterns := by
      intro nonempty
      obtain ⟨node, target⟩ := List.exists_mem_of_ne_nil _ nonempty
      exact (reads_patterns_iff f.base).mp (read node target f (by simp) target)
    refine ⟨plain, fun g active shared p among => ?_⟩
    obtain ⟨node, target, other⟩ := shared
    have inside := read node target g (List.mem_append_left _ active) other p among
    rw [patterns_flagText (plain (List.ne_nil_of_mem target))] at inside
    obtain ⟨q, member, same⟩ := List.mem_map.mp inside
    rwa [← String.toList_inj.mp same]
  · rintro ⟨plain, others⟩ node
    rw [flag_setFlag]
    by_cases target : node ∈ f.targets
    · rw [if_pos target]
      constructor
      · exact ⟨fun _ => ⟨f, by simp, target⟩, fun _ => rfl⟩
      · intro text eq g member also p among
        rw [← Option.some.inj eq, patterns_flagText (plain (List.ne_nil_of_mem target))]
        apply List.mem_map_of_mem
        rcases List.mem_append.mp member with active | new
        · exact others g active ⟨node, target, also⟩ among
        · rwa [← List.mem_singleton.mp new]
    · rw [if_neg target]
      constructor
      · rw [(lawful node).1]
        constructor
        · rintro ⟨g, active, also⟩
          exact ⟨g, List.mem_append_left _ active, also⟩
        · rintro ⟨g, member, also⟩
          rcases List.mem_append.mp member with active | new
          · exact ⟨g, active, also⟩
          · exact absurd (List.mem_singleton.mp new ▸ also) target
      · intro text eq g member also
        rcases List.mem_append.mp member with active | new
        · exact (lawful node).2 text eq g active also
        · exact absurd (List.mem_singleton.mp new ▸ also) target

/-- Removing the flag file for one of the freezes. -/
theorem lawful_removed_iff (lawful : s.Lawful) {i : Nat} {f : Freeze} (found : s.active[i]? = some f)
    (draws : Nat → Nat) :
    Lawful ⟨⟨draws, s.world.env.setFlag none false f.targets⟩, s.active.eraseIdx i⟩ ↔
      ∀ g ∈ s.active.eraseIdx i, ¬ f.Share g := by
  obtain ⟨inside, rfl⟩ := List.getElem?_eq_some_iff.mp found
  have members : ∀ g, g ∈ s.active ↔ g = s.active[i] ∨ g ∈ s.active.eraseIdx i := by
    intro g
    rw [← (List.getElem_cons_eraseIdx_perm inside).mem_iff, List.mem_cons]
  constructor
  · rintro after g left ⟨node, target, other⟩
    have present := (after node).1.mpr ⟨g, left, other⟩
    rw [flag_setFlag, if_pos target] at present
    cases present
  · intro apart node
    rw [flag_setFlag]
    by_cases target : node ∈ s.active[i].targets
    · rw [if_pos target]
      constructor
      · constructor
        · exact nofun
        · rintro ⟨g, left, also⟩
          exact absurd ⟨node, target, also⟩ (apart g left)
      · exact nofun
    · rw [if_neg target]
      constructor
      · rw [(lawful node).1]
        constructor
        · rintro ⟨g, active, also⟩
          rcases (members g).mp active with rfl | left
          · exact absurd also target
          · exact ⟨g, left, also⟩
        · rintro ⟨g, left, also⟩
          exact ⟨g, (members g).mpr (Or.inr left), also⟩
      · intro text eq g left
        exact (lawful node).2 text eq g ((members g).mpr (Or.inr left))

theorem lawful_execute_iff (works : s.world.env.Works) (lawful : s.Lawful) (f : Freeze) :
    (s.step (.execute f)).Lawful ↔ s.Meets (.execute f) := by
  obtain ⟨later, eq⟩ := f.execute_eq works
  show Lawful ⟨(f.execute s.world).2, s.active ++ [(f.execute s.world).1]⟩ ↔ _
  rw [eq, ← f.chosen_base s.world.draws]
  exact lawful_added_iff lawful (f.chosen s.world.draws) later

theorem lawful_heal_iff (works : s.world.env.Works) (lawful : s.Lawful) (i : Nat) :
    (s.step (.heal i)).Lawful ↔ s.Meets (.heal i) := by
  cases found : s.active[i]? with
  | none =>
    have same : s.step (.heal i) = s := by
      unfold step
      dsimp only
      rw [found]
    rw [same]
    refine iff_of_true lawful fun f eq => ?_
    rw [found] at eq
    cases eq
  | some f =>
    have after : s.step (.heal i) =
        ⟨⟨s.world.draws, s.world.env.setFlag none false f.targets⟩, s.active.eraseIdx i⟩ := by
      unfold step
      dsimp only
      rw [found]
      dsimp only
      rw [f.heal_eq works]
    rw [after, lawful_removed_iff lawful found]
    constructor
    · intro apart g eq
      rw [found] at eq
      exact Option.some.inj eq ▸ apart
    · exact fun meets => meets f found

/-- A call leaves a lawful state lawful if and only if it respects what the others need. -/
theorem lawful_step_iff (works : s.world.env.Works) (lawful : s.Lawful) (call : Call) :
    (s.step call).Lawful ↔ s.Meets call := by
  cases call with
  | execute f => exact lawful_execute_iff works lawful f
  | heal i => exact lawful_heal_iff works lawful i

/-- In a run of `execute()` and `heal()` calls on a cluster without flag files, every state is
lawful if and only if every call respects what the others need. -/
theorem run_lawful_iff {c : Cluster} (works : c.Works) (clean : ∀ node, c.flag node = none) (draws : Nat → Nat)
    (calls : List Call) :
    (∀ done, done <+: calls → (run ⟨⟨draws, c⟩, []⟩ done).Lawful) ↔
      ∀ done call, done ++ [call] <+: calls → (run ⟨⟨draws, c⟩, []⟩ done).Meets call := by
  constructor
  · intro lawful done call member
    rw [← lawful_step_iff (works_run works done) (lawful done ((List.prefix_append _ _).trans member)), ← run_append]
    exact lawful (done ++ [call]) member
  · intro meets done member
    induction done using List.reverseRecOn with
    | nil =>
      intro node
      have none : (run ⟨⟨draws, c⟩, []⟩ []).world.env.flag node = none := clean node
      rw [none]
      exact ⟨by simp [run], nofun⟩
    | append_singleton done call ih =>
      rw [run_append, lawful_step_iff (works_run works done) (ih ((List.prefix_append _ _).trans member))]
      exact meets done call member

section Examples

/-- A freeze of the processes of pg1. -/
def nodeFreeze : Freeze :=
  .processes ⟨.init ⟨["pg1", "pg2"], [], 1, .empty⟩, some "pg1"⟩

/-- A freeze of the processes of every database node. -/
def groupFreeze : Freeze :=
  .group ⟨.init ⟨["pg1", "pg2"], [], 2, .empty⟩, some "db"⟩

/-- A freeze of pg1 that ends before the group is frozen. -/
theorem apart_lawful_iff :
    let calls : List Call := [.execute nodeFreeze, .heal 0, .execute groupFreeze]
    (∀ done, done <+: calls → (run ⟨⟨fun _ => 0, idleCluster⟩, []⟩ done).Lawful) ↔
      ∀ done call, done ++ [call] <+: calls → (run ⟨⟨fun _ => 0, idleCluster⟩, []⟩ done).Meets call :=
  run_lawful_iff (fun _ => rfl) (fun _ => rfl) _ _

/-- The heal of a node takes the flag file of an active group freeze away. -/
theorem overlap_not_lawful :
    ¬ ∀ done, done <+: [Call.execute nodeFreeze, .execute groupFreeze, .heal 0] →
      (run ⟨⟨fun _ => 0, idleCluster⟩, []⟩ done).Lawful := by
  intro lawful
  have last := lawful _ (List.prefix_refl _) "pg1"
  have present := last.1.mpr ⟨groupFreeze, by decide, by decide⟩
  exact absurd present (by decide)

end Examples

end Freezes

end FaultStorm
