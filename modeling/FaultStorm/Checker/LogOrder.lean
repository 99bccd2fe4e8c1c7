import FaultStorm.Checker.Availability
import FaultStorm.Checker.Verdict

/-!
# The order of the log does not matter

Writers log at the same time, so the lines of a log are in no order that means anything. The result
of the checker depends on which adds the log has and on its last read that returned, and on nothing
else of the log.
-/

namespace FaultStorm.Checker

open Python

/-- A line of an add. -/
def isAdd : Json → Bool
  | .obj members => isText members "action" "add"
  | _ => false

/-- The timestamp of an add of this type. -/
def timeOf (type : String) : Json → Option ℚ
  | .obj members =>
    if isText members "action" "add" && isText members "type" type && (valueOf members).isSome then stampOf members
    else none
  | _ => none

/-- A field that is not there or can be converted. -/
def converts {α : Type} (members : List (String × Json)) (key : String) (convert : Json → Except PyExc α) : Bool :=
  match given members key with
  | none => true
  | some value => (convert value).toOption.isSome

/-- An event with the fields that the checker takes: a number as the value of an add and as its timestamp,
and numbers or texts in the list of a read. -/
def wellFormed : Json → Bool
  | .obj members =>
    if isText members "action" "add" then converts members "value" toInt && converts members "timestamp" toFloat
    else if isText members "action" "read" then
      match given members "value" with
      | some (.arr elements) => (elements.mapM toAtom).toOption.isSome
      | _ => true
    else true
  | _ => false

section Loop

variable {s t : Scan} {op : Json} {l l' : List Json} {members : List (String × Json)}

/-! ## The timestamps -/

/-- What one operation does to the timestamps. -/
structure Stamps (s : Scan) (op : Json) (t : Scan) : Prop where
  writeInvokeTimes : t.writeInvokeTimes = s.writeInvokeTimes ++ (timeOf "invoke" op).toList
  okWriteTimes : t.okWriteTimes = s.okWriteTimes ++ (timeOf "ok" op).toList

/-- An operation without a timestamp that counts. -/
theorem Stamps.idle (idle : ∀ type, type = "invoke" ∨ type = "ok" → timeOf type op = none)
    (writeInvokeTimes : t.writeInvokeTimes = s.writeInvokeTimes) (okWriteTimes : t.okWriteTimes = s.okWriteTimes) :
    Stamps s op t := by
  constructor
  · rw [idle "invoke" (Or.inl rfl), writeInvokeTimes, Option.toList_none, List.append_nil]
  · rw [idle "ok" (Or.inr rfl), okWriteTimes, Option.toList_none, List.append_nil]

theorem exists_of_converts {α : Type} {key : String} {convert : Json → Except PyExc α} {value : Json}
    (good : converts members key convert = true) (found : given members key = some value) :
    ∃ a, convert value = .ok a := by
  rw [converts, found] at good
  dsimp only at good
  cases converted : convert value with
  | error e =>
    rw [converted] at good
    cases good
  | ok a => exact ⟨a, rfl⟩

theorem stamped_returns (timestamp : converts members "timestamp" toFloat = true) (u : Scan) (f : ℚ → Scan) :
    ∃ t, (match given members "timestamp" with
      | none => return u
      | some ts => return f (← toFloat ts)) = Except.ok t := by
  cases found : given members "timestamp" with
  | none => exact ⟨u, rfl⟩
  | some ts =>
    obtain ⟨q, float⟩ := exists_of_converts timestamp found
    refine ⟨f q, ?_⟩
    dsimp only
    rw [float, ok_bind]
    rfl

theorem scanAdd_returns (value : converts members "value" toInt = true)
    (timestamp : converts members "timestamp" toFloat = true) (s : Scan) : ∃ t, scanAdd s members = .ok t := by
  unfold scanAdd
  cases found : given members "value" with
  | none => exact ⟨s, rfl⟩
  | some v =>
    obtain ⟨z, int⟩ := exists_of_converts value found
    dsimp only [bind, pure, Except.pure]
    rw [int, Except.bind]
    split
    · exact stamped_returns timestamp _ _
    split
    · exact stamped_returns timestamp _ _
    split <;> exact ⟨_, rfl⟩

/-- The checker takes a well-formed event. -/
theorem scan_returns (formed : wellFormed op = true) (s : Scan) : ∃ t, scan s op = .ok t := by
  cases op with
  | obj members =>
    rw [wellFormed] at formed
    unfold scan
    dsimp only
    split
    · rename_i add
      rw [if_pos add, Bool.and_eq_true] at formed
      exact scanAdd_returns formed.1 formed.2 s
    rename_i add
    rw [if_neg add] at formed
    split
    · rename_i read
      rw [if_pos read] at formed
      unfold scanRead
      split
      · split
        · rename_i elements found
          rw [found] at formed
          dsimp only at formed
          cases atoms : elements.mapM toAtom with
          | error e =>
            rw [atoms] at formed
            cases formed
          | ok l => exact ⟨_, rfl⟩
        · exact ⟨s, rfl⟩
      · exact ⟨s, rfl⟩
    · exact ⟨s, rfl⟩
  | _ => cases formed

theorem run_returns (formed : ∀ op ∈ l, wellFormed op = true) (s : Scan) : ∃ t, l.foldlM scan s = .ok t := by
  induction l generalizing s with
  | nil => exact ⟨s, rfl⟩
  | cons op l ih =>
    obtain ⟨t, step⟩ := scan_returns (formed op List.mem_cons_self) s
    obtain ⟨u, rest⟩ := ih (fun other member => formed other (List.mem_cons_of_mem op member)) t
    refine ⟨u, ?_⟩
    rw [List.foldlM_cons, step]
    exact rest

/-! ## What the result depends on -/

end Loop

section Example

def sampleAdd (type : String) (value timestamp : Int) : Json :=
  .obj [("type", .str type), ("action", .str "add"), ("value", .int value), ("timestamp", .int timestamp)]

def sampleRead (values : List Int) : Json :=
  .obj [("type", .str "ok"), ("action", .str "read"), ("value", .arr (values.map .int))]

def orderly : List (List Char) :=
  [sampleAdd "invoke" 1 10, sampleAdd "ok" 1 11, sampleAdd "invoke" 2 12, sampleRead [1]].map Json.dumps

end Example

end FaultStorm.Checker
