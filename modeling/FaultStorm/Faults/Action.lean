import FaultStorm.Config
import FaultStorm.Python.Random
import FaultStorm.Python.Text

/-!
# Fault actions

What the engine knows of an action class, and the registry of classes. A class is the
record of its attributes and methods; the state of its instances is `ActionObj β`, where
`β` holds the instances of every class but `WaitAction`, and `ω` is whatever the methods
act on. `WaitAction` is here because the engine itself constructs it.
-/

namespace FaultStorm

open Python

/-- The attributes `FaultAction.__init__` sets. -/
structure ActionBase where
  dbNodes : List String
  extraNodes : List String
  ordinal : Int
  dcMap : DcMap
  deriving DecidableEq

/-- `FaultAction.all_nodes`. -/
def ActionBase.allNodes (a : ActionBase) : List String := a.dbNodes ++ a.extraNodes

/-- An instance of `WaitAction`. -/
structure WaitAction extends ActionBase where
  seconds : Int
  deriving DecidableEq

/-- An instance of some action class. -/
inductive ActionObj (β : Type)
  | wait (a : WaitAction)
  | custom (b : β)
  deriving DecidableEq

/-- What the methods read and change: the random numbers to come, and the environment. -/
structure World (ω : Type) where
  draws : Nat → Nat
  env : ω

/-- A method without a result: it may change its object and the world before it raises. -/
abbrev Method (β ω : Type) := Proc (ActionObj β × World ω) PyExc Unit

/-- A method body that does nothing. -/
def Method.pass {β ω : Type} : Method β ω := (pure () : Proc (ActionObj β × World ω) PyExc Unit)

/-- A subclass of `FaultAction`. -/
structure ActionClass (β ω : Type) where
  name : String
  healable : Bool := false
  destructive : Bool := false
  hostTargetable : Bool := false
  init : List String → List String → Int → DcMap → Kwargs → Except PyExc (ActionObj β)
  execute : Method β ω
  heal : Method β ω := Method.pass
  ordinal : ActionObj β → Int
  serialize : ActionObj β → String
  deserialize : String → List String → List String → DcMap → Except PyExc (ActionObj β)

variable {β ω : Type}

/-! ## WaitAction -/

namespace WaitAction

/-- `WaitAction.__init__`. -/
def init (base : ActionBase) (kwargs : Kwargs) : Except PyExc WaitAction :=
  kwargs.foldlM (fun a kwarg => match kwarg with
    | .seconds v => .ok { a with seconds := v }
    | _ => .error .typeError) { base with seconds := 0 }

def serialize (a : WaitAction) : String := toString a.ordinal ++ " " ++ toString a.seconds

end WaitAction

@[simp] theorem ok_bind {α δ : Type} (a : α) (f : α → Except PyExc δ) : (Except.ok a >>= f) = f a := rfl

@[simp] theorem ok_map {α δ : Type} (a : α) (f : α → δ) : f <$> (Except.ok a : Except PyExc α) = .ok (f a) := rfl

theorem bind_ok {α δ : Type} {m : Except PyExc α} {f : α → Except PyExc δ} {d : δ} (ok : m >>= f = .ok d) :
    ∃ a, m = .ok a ∧ f a = .ok d := by
  cases m with
  | error e => cases ok
  | ok a => exact ⟨a, rfl, ok⟩

theorem map_ok {α δ : Type} {m : Except PyExc α} {f : α → δ} {d : δ} (ok : f <$> m = .ok d) :
    ∃ a, m = .ok a ∧ d = f a := by
  cases m with
  | error e => cases ok
  | ok a => exact ⟨a, rfl, (Except.ok.inj ok).symm⟩

/-- What a loop of fallible calls returns, one of the calls returned. -/
theorem mem_of_mapM_ok {α δ : Type} {f : α → Except PyExc δ} {l : List α} {r : List δ} (ok : l.mapM f = .ok r) :
    ∀ d ∈ r, ∃ a ∈ l, f a = .ok d := by
  induction l generalizing r with
  | nil =>
    cases ok
    exact fun d none => nomatch none
  | cons a l ih =>
    rw [List.mapM_cons] at ok
    cases first : f a with
    | error e =>
      rw [first] at ok
      cases ok
    | ok b =>
      rw [first, ok_bind] at ok
      cases later : l.mapM f with
      | error e =>
        rw [later] at ok
        cases ok
      | ok rest =>
        rw [later] at ok
        cases ok
        intro d member
        rcases List.mem_cons.mp member with rfl | member
        · exact ⟨a, List.mem_cons_self, first⟩
        · obtain ⟨x, among, called⟩ := ih later d member
          exact ⟨x, List.mem_cons_of_mem a among, called⟩

/-- `parts[i]`. -/
def part (parts : List (List Char)) (i : Nat) : Except PyExc (List Char) :=
  match parts[i]? with
  | some p => .ok p
  | none => .error .indexError

/-- `int(text)`. -/
def pyInt (text : List Char) : Except PyExc Int :=
  match Text.parseInt text with
  | some z => .ok z
  | none => .error .valueError

/-- `params.strip().split()`. -/
def paramParts (params : String) : List (List Char) := Text.split (Text.strip params.toList)

namespace WaitAction

def deserialize (params : String) (dbNodes extraNodes : List String) (dcMap : DcMap) :
    Except PyExc WaitAction := do
  let parts := paramParts params
  let ordinal ← pyInt (← part parts 0)
  let seconds ← pyInt (← part parts 1)
  return { dbNodes, extraNodes, ordinal, dcMap, seconds }

/-- The class `WaitAction`. Its `execute` only lets time pass. -/
def cls : ActionClass β ω where
  name := "wait"
  init dbNodes extraNodes ordinal dcMap kwargs :=
    .wait <$> WaitAction.init { dbNodes, extraNodes, ordinal, dcMap } kwargs
  execute := Method.pass
  ordinal
    | .wait a => a.ordinal
    | .custom _ => 0
  serialize
    | .wait a => a.serialize
    | .custom _ => ""
  deserialize params dbNodes extraNodes dcMap :=
    .wait <$> WaitAction.deserialize params dbNodes extraNodes dcMap

end WaitAction

/-! ## FaultRegistry -/

/-- `FaultRegistry`: action name to class. -/
abbrev FaultRegistry (β ω : Type) := Dict String (ActionClass β ω)

namespace FaultRegistry

def register (registry : FaultRegistry β ω) (cls : ActionClass β ω) :
    Except PyExc (FaultRegistry β ω) :=
  if cls.name = "" then .error .valueError
  else if (registry.get? cls.name).isSome then .error .valueError
  else .ok (registry.set cls.name cls)

/-- `get_classes`: all classes without `names`, else the named ones in the order of `names`. -/
def getClasses (registry : FaultRegistry β ω) : Option (List String) → Except PyExc (List (ActionClass β ω))
  | none => .ok (registry.items.map Prod.snd)
  | some names => names.mapM fun name => match registry.get? name with
    | some cls => .ok cls
    | none => .error .valueError

end FaultRegistry

/-- An action object: its class, its state, and the number that tells it from every other
object of its run. -/
structure FaultAction (β ω : Type) where
  id : Nat
  cls : ActionClass β ω
  self : ActionObj β

namespace FaultAction

def ordinal (a : FaultAction β ω) : Int := a.cls.ordinal a.self

/-- Run a method of the action: whether it raised, the object it leaves, the world it leaves. -/
def call (a : FaultAction β ω) (method : Method β ω) (world : World ω) :
    Option PyExc × FaultAction β ω × World ω :=
  let (result, self, world) := method.exec (a.self, world)
  (match result with | .ok _ => none | .error e => some e, { a with self }, world)

@[simp] theorem call_id (a : FaultAction β ω) (method : Method β ω) (world : World ω) :
    (a.call method world).2.1.id = a.id := rfl

@[simp] theorem call_cls (a : FaultAction β ω) (method : Method β ω) (world : World ω) :
    (a.call method world).2.1.cls = a.cls := rfl

end FaultAction

end FaultStorm
