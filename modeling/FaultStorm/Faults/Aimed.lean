import FaultStorm.Faults.Contract
import FaultStorm.Faults.Effects

/-!
# Actions aimed at a node

The constructor of a class that can be aimed takes the node it is given, and `execute()` draws no
other. What such an action cuts off or freezes is that node.
-/

namespace FaultStorm

open Python Proc

/-- The node of an action that can be aimed at one. -/
def aimOf : ActionObj Builtin → Option String
  | .custom (.kill a) => a.node
  | .custom (.node a) => a.node
  | .custom (.subnet a) => a.node
  | .custom (.freeze a) => a.node
  | _ => none

/-- The node is an end of every packet that is cut, and no other is frozen. -/
def Effect.Strikes (node : String) : Effect → Prop
  | .partition p => ∀ hook name peer, p.Cuts hook name peer → name = node ∨ peer = node
  | .freeze f => ∀ name ∈ f.targets, name = node
  | .nothing => True

theorem strikes_of_aimOf {obj : ActionObj Builtin} {node : String} (aimed : aimOf obj = some node) :
    (effectOf obj).Strikes node := by
  match obj, aimed with
  | .custom (.kill a), _ => trivial
  | .custom (.node a), aimed =>
    rintro hook name peer ⟨-, -, -, -, mine | mine⟩
    · exact Or.inl (Option.some.inj (mine.symm.trans aimed))
    · exact Or.inr (Option.some.inj (mine.symm.trans aimed))
  | .custom (.subnet a), aimed =>
    rintro hook name peer ⟨mine, -⟩
    exact Or.inl (Option.some.inj (mine.symm.trans aimed))
  | .custom (.freeze a), aimed =>
    intro name member
    have mine : a.node = some name := Option.mem_toList.mp member
    exact Option.some.inj (mine.symm.trans aimed)

/-! ## The constructor -/

section Init

variable {base : ActionBase} {kwargs : Kwargs} {node : String}

/-- The node is the last keyword argument. -/
theorem foldlM_setNode {α : Type} {f : α → Kwarg → Except PyExc α} {a b : α}
    (made : (kwargs.setNode node).foldlM f a = .ok b) : ∃ c, f c (.node (some node)) = .ok b := by
  rw [Kwargs.setNode, List.foldlM_append] at made
  obtain ⟨c, -, last⟩ := bind_ok made
  rw [List.foldlM_cons] at last
  obtain ⟨d, given, done⟩ := bind_ok last
  cases done
  exact ⟨c, given⟩

/-- The constructor of a class that can be aimed aims its object. -/
theorem init_aimOf {cls : ActionClass Builtin Cluster} (member : cls ∈ builtinClasses) (targetable : cls.hostTargetable = true)
    {dbNodes extraNodes : List String} {ordinal : Int} {dcMap : DcMap} {obj : ActionObj Builtin}
    (made : cls.init dbNodes extraNodes ordinal dcMap (kwargs.setNode node) = .ok obj) : aimOf obj = some node := by
  simp only [builtinClasses, List.mem_cons, List.not_mem_nil, or_false] at member
  rcases member with rfl | rfl | rfl | rfl | rfl | rfl | rfl | rfl | rfl <;> try cases targetable
  all_goals
    obtain ⟨a, built, rfl⟩ := map_ok made
    obtain ⟨c, given⟩ := foldlM_setNode built
    cases given
    rfl

end Init

/-! ## `execute()` -/

section Execute

variable {node : String}

/-- An attribute that is set is not chosen. -/
theorem KeepsSelf.chosen {α : Type} {P : α → Prop} {view : α → Option String} {put : α → String → α}
    {options : α → List String} (set : ∀ a, P a → (view a).isSome) : KeepsSelf P (FaultStorm.choose view put options) := by
  intro s held
  rw [exec_choose_set (set s.1 held)]
  exact held

theorem isSome_of_aimed {α : Type} {view : α → Option String} (a : α) (aimed : view a = some node) : (view a).isSome := by
  rw [aimed]
  rfl

theorem KillProcessAction.execute_aimed : KeepsSelf (fun a => a.node = some node) execute := by
  unfold execute
  exact KeepsSelf.bind (.choose fun _ _ h => h) fun _ => KeepsSelf.bind (.chosen isSome_of_aimed) fun _ => .act _

theorem PartitionRandomNodeAction.execute_aimed : KeepsSelf (fun a => a.node = some node) execute := by
  unfold execute
  exact KeepsSelf.bind (.chosen isSome_of_aimed) fun _ => .act _

theorem PartitionRandomSubnetAction.execute_aimed : KeepsSelf (fun a => a.node = some node) execute := by
  unfold execute
  refine KeepsSelf.bind (.chosen isSome_of_aimed) fun _ => KeepsSelf.bind (.choose fun _ _ h => h) fun _ =>
    KeepsSelf.bind (.choose fun _ _ h => h) fun _ => KeepsSelf.bind .this fun a => .ite ?_ (.act _)
  exact KeepsSelf.bind (.assign fun _ h => h) fun _ => .act _

theorem FreezeProcessesAction.execute_aimed : KeepsSelf (fun a => a.node = some node) execute := by
  unfold execute resolveTargets
  exact KeepsSelf.bind (KeepsSelf.bind (.chosen isSome_of_aimed) fun _ => KeepsSelf.bind .this fun a => .pure _)
    fun _ => .act _

/-- `execute()` leaves an action aimed where it was. -/
theorem execute_aimOf {a : FaultAction Builtin Cluster} {w : World Cluster} (built : a.cls = builtinOf a.self)
    (aimed : aimOf a.self = some node) : aimOf (a.call a.cls.execute w).2.1.self = some node := by
  obtain ⟨id, cls, self⟩ := a
  obtain rfl : cls = builtinOf self := built
  match self, aimed with
  | .custom (.kill a), aimed => exact Keeps.final (s := (a, w)) KillProcessAction.execute_aimed aimed
  | .custom (.node a), aimed => exact Keeps.final (s := (a, w)) PartitionRandomNodeAction.execute_aimed aimed
  | .custom (.subnet a), aimed => exact Keeps.final (s := (a, w)) PartitionRandomSubnetAction.execute_aimed aimed
  | .custom (.freeze a), aimed => exact Keeps.final (s := (a, w)) FreezeProcessesAction.execute_aimed aimed

end Execute

end FaultStorm
