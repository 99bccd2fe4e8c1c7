import FaultStorm.Python.Regex
import FaultStorm.Faults.Action
import Mathlib.Data.List.DropRight

/-!
# The scenario log

The line format: `[timestamp] +name params` enables a healable action, `-name params` heals
it, and a line without a prefix is a fire-and-forget action. `actionLine` is what
`_write_action` writes and `parseLog` what `_parse_log` reads.
-/

namespace FaultStorm

open Python

variable {β ω : Type}

/-- A `datetime`. -/
structure DateTime where
  year : Nat
  month : Nat
  day : Nat
  hour : Nat
  minute : Nat
  second : Nat
  microsecond : Nat

/-- A number printed with at least `width` digits. -/
def padded (width n : Nat) : List Char := (Nat.toDigits 10 n).leftpad width '0'

/-- `_timestamp()` at the time `t`: `%Y-%m-%dT%H:%M:%S.%f` without its last three characters. -/
def timestamp (t : DateTime) : List Char :=
  padded 4 t.year ++ '-' :: padded 2 t.month ++ '-' :: padded 2 t.day ++ 'T' :: padded 2 t.hour ++
    ':' :: padded 2 t.minute ++ ':' :: padded 2 t.second ++ '.' :: (padded 6 t.microsecond).rdrop 3

/-- `[\d\-T:.]`. -/
def stampChar (c : Char) : Bool :=
  (Text.decimalValue c).isSome || c == '-' || c == 'T' || c == ':' || c == '.'

/-- `_TIMESTAMP_RE`: `^\[[\d\-T:.]+\]\s*`. -/
def timestampRe : Regex :=
  .seq .start (.seq (.char (· == '[')) (.seq (Regex.some1 stampChar)
    (.seq (.char (· == ']')) (.many true Text.isSpace))))

/-! ## Writing -/

/-- What `_open_log` writes at the time `t`. -/
def headerLines (t : DateTime) : List (List Char) :=
  ["# FaultStorm scenario log".toList,
   "# Generated at ".toList ++ timestamp t,
   "#".toList,
   "# Replay with: python main.py --replay-scenario <this_file>".toList,
   []]

/-- The prefix `_write_action` gives the name. -/
def linePrefix (healable healing : Bool) : List Char :=
  if healable then (if healing then ['-'] else ['+']) else []

/-- The line `_write_action` writes at the time `t`, without its line end. -/
def actionLine (t : DateTime) (a : FaultAction β ω) (healing : Bool) : List Char :=
  let params := a.cls.serialize a.self
  let name := linePrefix a.cls.healable healing ++ a.cls.name.toList
  if params ≠ "" then '[' :: timestamp t ++ "] ".toList ++ name ++ ' ' :: params.toList
  else '[' :: timestamp t ++ "] ".toList ++ name

/-- The text of a file of written lines. -/
def fileText (lines : List (List Char)) : List Char := lines.flatMap (· ++ ['\n'])

/-! ## Reading -/

/-- `not line or line.startswith("#")`. -/
def skipped (line : List Char) : Bool := line.isEmpty || line.head? == some '#'

/-- One line of `_parse_log`: nothing for a blank or comment line, else whether it is a heal,
the action name, and the parameters. -/
def parseLine (raw : List Char) : Except PyExc (Option (Bool × String × String)) :=
  let line := Text.strip raw
  if skipped line then .ok none
  else
    let line := timestampRe.remove line
    if skipped line then .ok none
    else
      let isHeal := line.head? == some '-'
      let line := if line.head? == some '+' || isHeal then line.tail else line
      match Text.splitOnce line with
      | [] => .error .indexError
      | [name] => .ok (some (isHeal, String.ofList name, ""))
      | name :: params :: _ => .ok (some (isHeal, String.ofList name, String.ofList params))

/-- The action a line names, as the object numbered `id`. -/
def parseAction (registry : FaultRegistry β ω) (dbNodes extraNodes : List String) (dcMap : DcMap)
    (id : Nat) (name params : String) : Except PyExc (FaultAction β ω) :=
  match registry.get? name with
  | none => .error .valueError
  | some cls => (fun self => ⟨id, cls, self⟩) <$> cls.deserialize params dbNodes extraNodes dcMap

/-- The lines of `_parse_log`, the next object being numbered `id`. -/
def parseLines (registry : FaultRegistry β ω) (dbNodes extraNodes : List String) (dcMap : DcMap) :
    Nat → List (List Char) → Except PyExc (List (FaultAction β ω × Bool))
  | _, [] => .ok []
  | id, raw :: rest => do
    match ← parseLine raw with
    | none => parseLines registry dbNodes extraNodes dcMap id rest
    | some (isHeal, name, params) =>
      let action ← parseAction registry dbNodes extraNodes dcMap id name params
      let results ← parseLines registry dbNodes extraNodes dcMap (id + 1) rest
      return (action, isHeal) :: results

/-- `_parse_log` on the text of a file. -/
def parseLog (registry : FaultRegistry β ω) (dbNodes extraNodes : List String) (dcMap : DcMap)
    (file : List Char) : Except PyExc (List (FaultAction β ω × Bool)) :=
  parseLines registry dbNodes extraNodes dcMap 0 (Text.readLines file)

end FaultStorm
