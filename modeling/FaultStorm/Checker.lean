import FaultStorm.Faults.Action
import FaultStorm.Python.Json
import Mathlib.Data.Finset.Max

/-!
# The consistency checker

`checkConsistency` reads the operations log line by line and compares the values that were tried,
the values that were confirmed and the last read. Floats are exact rational numbers here; a timestamp that is not finite
is refused where it is converted, not where it is first calculated with.
-/

namespace FaultStorm

open Python

namespace Checker

/-! ## Values of the log -/

/-- An element of a set: equal numbers are one element, whatever their types. -/
inductive Atom
  | none
  | number (q : ℚ)
  | special (c : Special)
  | text (s : String)
  deriving DecidableEq

/-- A value as an element of a set; a list or a dictionary cannot be one. -/
def toAtom : Json → Except PyExc Atom
  | .null => .ok .none
  | .bool b => .ok (.number (if b then 1 else 0))
  | .int z => .ok (.number z)
  | .float lit => .ok (.number lit.value)
  | .special c => .ok (.special c)
  | .str s => .ok (.text s)
  | .arr _ | .obj _ => .error .typeError

/-- `int(q)`. -/
def truncate (q : ℚ) : Int := if 0 ≤ q then ⌊q⌋ else ⌈q⌉

/-- `int(value)`. -/
def toInt : Json → Except PyExc Int
  | .bool b => .ok (if b then 1 else 0)
  | .int z => .ok z
  | .float lit => .ok (truncate lit.value)
  | .special .nan => .error .valueError
  | .special _ => .error .overflowError
  | .str s => pyInt s.toList
  | .null | .arr _ | .obj _ => .error .typeError

/-- `float(ts)`. -/
def toFloat : Json → Except PyExc ℚ
  | .bool b => .ok (if b then 1 else 0)
  | .int z => .ok z
  | .float lit => .ok lit.value
  | .special _ => .error .valueError
  | .str s => match PyFloat.exact s.toList with
    | some q => .ok q
    | none => .error .valueError
  | .null | .arr _ | .obj _ => .error .typeError

/-- `op.get(key)`, where a null is as good as nothing. -/
def given (members : List (String × Json)) (key : String) : Option Json :=
  match Json.member members key with
  | some .null => none
  | value => value

/-- `op.get(key, "") == text`. -/
def isText (members : List (String × Json)) (key text : String) : Bool :=
  match Json.member members key with
  | some (.str s) => s == text
  | some _ => false
  | none => text == ""

/-! ## One pass over the log -/

/-- The variables of the loop. -/
structure Scan where
  attempted : Finset Atom
  successful : Finset Atom
  failed : Finset Atom
  finalRead : Finset Atom
  readCount : Nat
  valueToInvokeTs : Dict Int ℚ
  writeInvokeTimes : List ℚ
  okWriteTimes : List ℚ

def Scan.start : Scan where
  attempted := ∅
  successful := ∅
  failed := ∅
  finalRead := ∅
  readCount := 0
  valueToInvokeTs := Dict.empty
  writeInvokeTimes := []
  okWriteTimes := []

/-- A line of an add. -/
def scanAdd (s : Scan) (members : List (String × Json)) : Except PyExc Scan :=
  match given members "value" with
  | none => .ok s
  | some value => do
    let intValue ← toInt value
    if isText members "type" "invoke" then
      let s := { s with attempted := insert (.number intValue) s.attempted }
      match given members "timestamp" with
      | none => return s
      | some ts =>
        let floatTs ← toFloat ts
        return { s with
          valueToInvokeTs := s.valueToInvokeTs.set intValue floatTs
          writeInvokeTimes := s.writeInvokeTimes ++ [floatTs] }
    else if isText members "type" "ok" then
      let s := { s with successful := insert (.number intValue) s.successful }
      match given members "timestamp" with
      | none => return s
      | some ts => return { s with okWriteTimes := s.okWriteTimes ++ [← toFloat ts] }
    else if isText members "type" "fail" then
      return { s with failed := insert (.number intValue) s.failed }
    else return s

/-- A line of a read. -/
def scanRead (s : Scan) (members : List (String × Json)) : Except PyExc Scan :=
  if isText members "type" "ok" then
    match given members "value" with
    | some (.arr elements) => do
      let atoms ← elements.mapM toAtom
      return { s with finalRead := atoms.toFinset, readCount := s.readCount + 1 }
    | _ => .ok s
  else .ok s

/-- One turn of the loop; only a dictionary has a `get`. -/
def scan (s : Scan) : Json → Except PyExc Scan
  | .obj members =>
    if isText members "action" "add" then scanAdd s members
    else if isText members "action" "read" then scanRead s members
    else .ok s
  | _ => .error .attributeError

/-- The lines that are JSON texts. -/
def ops (log : List Char) : List Json :=
  (Text.readLines log).filterMap fun line => if Text.strip line = [] then none else Json.loads (Text.strip line)

/-! ## The result -/

/-- The bucket of a timestamp. -/
def bucket (start interval : ℚ) (total : Int) (ts : ℚ) : Int :=
  min (truncate ((ts - start) / interval)) (total - 1)

/-- `_compute_interval_availability`. -/
def computeIntervalAvailability (writeInvokeTimes okWriteTimes : List ℚ) (interval : ℚ) : ℚ :=
  match writeInvokeTimes with
  | [] => 0
  | first :: rest =>
    let startTime := rest.foldl min first
    let endTime := rest.foldl max first
    let totalIntervals : Int := max 1 ⌈(endTime - startTime) / interval⌉
    if okWriteTimes = [] then 0
    else (okWriteTimes.map (bucket startTime interval totalIntervals)).toFinset.card / totalIntervals

structure CheckResult where
  valid : Bool
  lost : Finset Atom
  unexpected : Finset Atom
  recovered : Finset Atom
  totalAttempts : Nat
  successfulAdds : Nat
  failedAdds : Nat
  writeAvailability : ℚ
  errors : Option String
  deriving DecidableEq

/-- What `check_consistency` makes of the variables. -/
def Scan.result (s : Scan) : CheckResult :=
  if s.readCount = 0 then
    { valid := false, lost := ∅, unexpected := ∅, recovered := ∅, totalAttempts := 0, successfulAdds := 0,
      failedAdds := 0, writeAvailability := 0, errors := some "No successful reads found in operations log" }
  else
    let lost := s.successful \ s.finalRead
    let unexpected := s.finalRead \ s.attempted
    { valid := lost.card == 0 && unexpected.card == 0
      lost
      unexpected
      recovered := (s.finalRead ∩ s.attempted) \ s.successful
      totalAttempts := s.attempted.card
      successfulAdds := s.successful.card
      failedAdds := s.failed.card
      writeAvailability := computeIntervalAvailability s.writeInvokeTimes s.okWriteTimes (1 / 10)
      errors := none }

/-- `check_consistency`, of the text of the log file. -/
def checkConsistency (log : List Char) : Except PyExc CheckResult := do
  let s ← (ops log).foldlM scan Scan.start
  return s.result

end Checker

end FaultStorm
