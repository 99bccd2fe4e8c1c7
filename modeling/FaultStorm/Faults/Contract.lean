import FaultStorm.Faults.Engine.Journal
import FaultStorm.Faults.Presets

/-!
# The contract of the built-in classes

What a built-in action does to itself is to pick its missing parameters: the attributes set by
`FaultAction.__init__` stay, and `serialize()` begins with one of them, the ordinal.
-/

namespace FaultStorm

open Python Proc Random

section ActionM

variable {α δ : Type} {P : α → Prop}

/-- The method keeps a property of its object. -/
def KeepsSelf (P : α → Prop) (m : ActionM α δ) : Prop := Keeps (fun s => P s.1) m

namespace KeepsSelf

theorem pure (d : δ) : KeepsSelf P (Pure.pure d : ActionM α δ) := fun _ hs => hs

theorem throw (e : PyExc) : KeepsSelf P (MonadExcept.throw e : ActionM α δ) := fun _ hs => hs

theorem bind {γ : Type} {m : ActionM α δ} {f : δ → ActionM α γ} (first : KeepsSelf P m)
    (next : ∀ d, KeepsSelf P (f d)) : KeepsSelf P (m >>= f) :=
  Keeps.bind first next

theorem ite {c : Prop} [Decidable c] {m n : ActionM α δ} (yes : KeepsSelf P m) (no : KeepsSelf P n) :
    KeepsSelf P (if c then m else n) :=
  Triple.ite (fun _ => yes) fun _ => no

theorem this : KeepsSelf P (FaultStorm.this : ActionM α α) := fun _ hs => hs

theorem assign {f : α → α} (keeps : ∀ a, P a → P (f a)) : KeepsSelf P (FaultStorm.assign f) :=
  fun s hs => keeps s.1 hs

theorem pick (d : Draw δ) : KeepsSelf P (FaultStorm.pick d) := by
  intro s hs
  rw [FaultStorm.pick, exec_focus]
  rcases (d.exec s.2.draws).1 with _ | _ <;> exact hs

theorem onCluster (m : ClusterM δ) : KeepsSelf P (FaultStorm.onCluster m) := by
  intro s hs
  rw [FaultStorm.onCluster, exec_focus]
  rcases (m.exec s.2.env).1 with _ | _ <;> exact hs

theorem choose {view : α → Option String} {put : α → String → α} {options : α → List String}
    (keeps : ∀ a v, P a → P (put a v)) : KeepsSelf P (FaultStorm.choose view put options) :=
  this.bind fun _ => ite ((pick _).bind fun v => assign fun a => keeps a v) (pure ())

/-- `this`, and a call on the cluster that depends on it. -/
theorem act (m : α → ClusterM δ) :
    KeepsSelf P (do let a ← FaultStorm.this; FaultStorm.onCluster (m a) : ActionM α δ) :=
  this.bind fun a => onCluster (m a)

end KeepsSelf

end ActionM

theorem leadingInt_spaced (ordinal : Int) (part : String) (parts : List String) :
    leadingInt (spaced (toString ordinal :: part :: parts)) = some ordinal := by
  have text : spaced (toString ordinal :: part :: parts) =
      String.ofList ((toString ordinal).toList ++ ' ' :: Text.join ' ' ((part :: parts).map String.toList)) := by
    unfold spaced
    rw [List.map_cons, List.map_cons, Text.join_cons, Text.join_cons]
    rfl
  rw [text, leadingInt_cons]

section Builtin

variable {base : ActionBase}

theorem KillProcessAction.execute_base : KeepsSelf (fun a => a.toActionBase = base) execute := by
  unfold execute
  exact KeepsSelf.bind (.choose fun _ _ h => h) fun _ => KeepsSelf.bind (.choose fun _ _ h => h) fun _ => .act _

theorem PartitionRandomHalvesAction.execute_base : KeepsSelf (fun a => a.toActionBase = base) execute := by
  unfold execute
  refine KeepsSelf.bind .this fun a => .ite ?_ (.act _)
  exact KeepsSelf.bind (.pick _) fun nodes => KeepsSelf.bind (.assign fun _ h => h) fun _ => .act _

theorem PartitionMajoritiesRingAction.execute_base : KeepsSelf (fun a => a.toActionBase = base) execute := by
  unfold execute
  refine KeepsSelf.bind .this fun a => .ite ?_ (.act _)
  exact KeepsSelf.bind (.pick _) fun nodes => KeepsSelf.bind (.assign fun _ h => h) fun _ => .act _

theorem PartitionRandomNodeAction.execute_base : KeepsSelf (fun a => a.toActionBase = base) execute := by
  unfold execute
  exact KeepsSelf.bind (.choose fun _ _ h => h) fun _ => .act _

theorem PartitionRandomSubnetAction.execute_base : KeepsSelf (fun a => a.toActionBase = base) execute := by
  unfold execute
  refine KeepsSelf.bind (.choose fun _ _ h => h) fun _ => KeepsSelf.bind (.choose fun _ _ h => h) fun _ =>
    KeepsSelf.bind (.choose fun _ _ h => h) fun _ => KeepsSelf.bind .this fun a => .ite ?_ (.act _)
  exact KeepsSelf.bind (.assign fun _ h => h) fun _ => .act _

theorem PartitionRandomSubnetAction.heal_base : KeepsSelf (fun a => a.toActionBase = base) heal := by
  unfold heal
  refine KeepsSelf.bind .this fun a => ?_
  cases a.node with
  | none => exact .throw _
  | some node => exact .onCluster _

theorem PartitionRandomDcAction.execute_base : KeepsSelf (fun a => a.toActionBase = base) execute := by
  unfold execute
  refine KeepsSelf.bind .this fun a => .ite (.pure ()) ?_
  refine KeepsSelf.bind (.choose fun _ _ h => h) fun _ => KeepsSelf.bind .this fun a => ?_
  exact .ite (.pure ()) (.onCluster _)

theorem FreezeProcessesAction.execute_base : KeepsSelf (fun a => a.toActionBase = base) execute := by
  unfold execute resolveTargets
  exact KeepsSelf.bind (KeepsSelf.bind (.choose fun _ _ h => h) fun _ => KeepsSelf.bind .this fun a => .pure _)
    fun _ => .act _

theorem FreezeProcessesAction.heal_base : KeepsSelf (fun a => a.toActionBase = base) heal := by
  unfold heal
  refine KeepsSelf.bind .this fun a => ?_
  cases a.node with
  | none => exact .throw _
  | some node => exact .onCluster _

theorem FreezeProcessesGroupAction.execute_base : KeepsSelf (fun a => a.toActionBase = base) execute := by
  have targets : KeepsSelf (fun a : FreezeProcessesGroupAction => a.toActionBase = base) resolveTargets := by
    unfold resolveTargets
    refine KeepsSelf.bind .this fun a => .ite (.ite (.pure _) ?_) (KeepsSelf.bind .this fun a => .pure _)
    exact KeepsSelf.bind (.pick _) fun group => KeepsSelf.bind (.assign fun _ h => h) fun _ =>
      KeepsSelf.bind .this fun a => .pure _
  unfold execute
  exact targets.bind fun _ => .ite (.pure ()) (.act _)

/-- A built-in class whose methods keep the base attributes keeps the contract. -/
theorem builtinClass_ordinalFirst {α : Type} {wrap : α → Builtin} {view : Builtin → Option α} {name : String}
    {healable hostTargetable : Bool} {init : ActionBase → Kwargs → Except PyExc α} {execute heal : ActionM α Unit}
    {ordinal : α → Int} {serialize : α → String}
    {deserialize : String → List String → List String → DcMap → Except PyExc α} (baseOf : α → ActionBase)
    (viewed : ∀ a, view (wrap a) = some a)
    (init_base : ∀ {base kwargs a}, init base kwargs = .ok a → baseOf a = base)
    (execute_base : ∀ base, KeepsSelf (fun a => baseOf a = base) execute)
    (heal_base : ∀ base, KeepsSelf (fun a => baseOf a = base) heal)
    (leading : ∀ a, leadingInt (serialize a) = some (baseOf a).ordinal) :
    OrdinalFirst (builtinClass wrap view name healable hostTargetable init execute heal ordinal serialize deserialize) := by
  intro dbNodes extraNodes n dcMap kwargs self made
  obtain ⟨a, built, rfl⟩ := map_ok made
  have first : baseOf a = ⟨dbNodes, extraNodes, n, dcMap⟩ := init_base built
  refine ⟨fun self => ∃ b, self = .custom (wrap b) ∧ baseOf b = baseOf a, ⟨a, rfl, rfl⟩, ?_, ?_⟩
  · rintro _ ⟨b, rfl, same⟩
    have text : (builtinClass wrap view name healable hostTargetable init execute heal ordinal serialize deserialize).serialize
        (.custom (wrap b)) = serialize b := by
      show ((view (wrap b)).map serialize).getD "" = _
      rw [viewed]
      rfl
    rw [text, leading, same, first]
  · have method : ∀ m : ActionM α Unit, KeepsSelf (fun b => baseOf b = baseOf a) m → ∀ self world,
        (∃ b, self = .custom (wrap b) ∧ baseOf b = baseOf a) →
        ∃ b, ((builtinMethod wrap view m).exec (self, world)).2.1 = .custom (wrap b) ∧ baseOf b = baseOf a := by
      rintro m keeps _ world ⟨b, rfl, same⟩
      have ran : (builtinMethod wrap view m).exec (.custom (wrap b), world) =
          ((m.exec (b, world)).1, .custom (wrap (m.exec (b, world)).2.1), (m.exec (b, world)).2.2) := by
        show builtinMethod wrap view m (.custom (wrap b), world) = _
        unfold builtinMethod
        simp only [viewed]
      rw [ran]
      have kept : baseOf (m.exec (b, world)).2.1 = baseOf a :=
        Keeps.final (I := fun s : α × World Cluster => baseOf s.1 = baseOf a) keeps same
      exact ⟨_, rfl, kept⟩
    intro m among
    simp only [List.mem_cons, List.not_mem_nil, or_false] at among
    rcases among with rfl | rfl
    · exact method execute (execute_base _)
    · exact method heal (heal_base _)

end Builtin

theorem WaitAction.cls_ordinalFirst {β ω : Type} : OrdinalFirst (WaitAction.cls : ActionClass β ω) := by
  intro dbNodes extraNodes n dcMap kwargs self made
  obtain ⟨a, built, rfl⟩ := map_ok made
  have first : a.ordinal = n := congrArg ActionBase.ordinal (WaitAction.init_base built)
  exact first ▸ WaitAction.carries a

/-- Every built-in class serializes its ordinal first. -/
theorem builtin_ordinalFirst {cls : ActionClass Builtin Cluster} (member : cls ∈ builtinClasses) : OrdinalFirst cls := by
  simp only [builtinClasses, List.mem_cons, List.not_mem_nil, or_false] at member
  rcases member with rfl | rfl | rfl | rfl | rfl | rfl | rfl | rfl | rfl
  · exact WaitAction.cls_ordinalFirst
  · exact builtinClass_ordinalFirst KillProcessAction.toActionBase (fun _ => rfl) KillProcessAction.init_base
      (fun _ => KillProcessAction.execute_base) (fun _ => .pure ()) fun a => leadingInt_spaced a.ordinal _ _
  · exact builtinClass_ordinalFirst PartitionRandomHalvesAction.toActionBase (fun _ => rfl)
      PartitionRandomHalvesAction.init_base (fun _ => PartitionRandomHalvesAction.execute_base)
      (fun _ => .act _) fun a => leadingInt_spaced a.ordinal _ _
  · exact builtinClass_ordinalFirst PartitionMajoritiesRingAction.toActionBase (fun _ => rfl)
      PartitionMajoritiesRingAction.init_base (fun _ => PartitionMajoritiesRingAction.execute_base)
      (fun _ => .act _) fun a => leadingInt_spaced a.ordinal _ _
  · exact builtinClass_ordinalFirst PartitionRandomNodeAction.toActionBase (fun _ => rfl)
      PartitionRandomNodeAction.init_base (fun _ => PartitionRandomNodeAction.execute_base)
      (fun _ => .act _) fun a => leadingInt_spaced a.ordinal _ _
  · exact builtinClass_ordinalFirst PartitionRandomSubnetAction.toActionBase (fun _ => rfl)
      PartitionRandomSubnetAction.init_base (fun _ => PartitionRandomSubnetAction.execute_base)
      (fun _ => PartitionRandomSubnetAction.heal_base) fun a => leadingInt_spaced a.ordinal _ _
  · exact builtinClass_ordinalFirst PartitionRandomDcAction.toActionBase (fun _ => rfl)
      PartitionRandomDcAction.init_base (fun _ => PartitionRandomDcAction.execute_base)
      (fun _ => .act _) fun a => leadingInt_spaced a.ordinal _ _
  · exact builtinClass_ordinalFirst (fun a => a.toActionBase) (fun _ => rfl)
      FreezeProcessesAction.init_base (fun _ => FreezeProcessesAction.execute_base)
      (fun _ => FreezeProcessesAction.heal_base) fun a => leadingInt_spaced a.ordinal _ _
  · exact builtinClass_ordinalFirst (fun a => a.toActionBase) (fun _ => rfl)
      FreezeProcessesGroupAction.init_base (fun _ => FreezeProcessesGroupAction.execute_base)
      (fun _ => .act _) fun a => leadingInt_spaced a.ordinal _ _

end FaultStorm
