import FaultStorm.Python.Float

/-!
# JSON

`json.loads` and `json.dumps` with their defaults. A float is kept as a decimal literal of it,
so that it is printed as it was read; an integer of any size is an integer. The floats that are
no numbers are read and written under the names that Python has for them.
-/

namespace Python

/-- A decimal literal with a fraction or an exponent. -/
structure FloatLit where
  negative : Bool
  whole : Nat
  frac : List (Fin 10)
  exp : Option Int
  float : frac ≠ [] ∨ exp.isSome
  deriving DecidableEq

/-- The number it stands for. -/
def FloatLit.value (lit : FloatLit) : ℚ :=
  let digits : Nat := lit.frac.foldl (fun n d => 10 * n + d) lit.whole
  (if lit.negative then -1 else 1) * (digits / 10 ^ lit.frac.length) * 10 ^ lit.exp.getD 0

/-- A float that is not finite. -/
inductive Special
  | nan
  | infinity
  | minusInfinity
  deriving DecidableEq

/-- A JSON value; the members of an object are those written, duplicates included. -/
inductive Json
  | null
  | bool (b : Bool)
  | int (z : Int)
  | float (lit : FloatLit)
  | special (c : Special)
  | str (s : String)
  | arr (elements : List Json)
  | obj (members : List (String × Json))

namespace Json

/-- `op.get(key)` of an object: a later member hides an earlier one. -/
def member (members : List (String × Json)) (key : String) : Option Json := members.reverse.lookup key

/-! ## dumps -/

/-- The UTF-16 units of a character. -/
def units (c : Char) : List Nat :=
  if c.toNat < 0x10000 then [c.toNat]
  else [0xd800 + (c.toNat - 0x10000) / 0x400, 0xdc00 + (c.toNat - 0x10000) % 0x400]

/-- A unit as `\uXXXX`. -/
def escapeUnit (n : Nat) : List Char :=
  ['\\', 'u', Nat.digitChar (n / 0x1000 % 16), Nat.digitChar (n / 0x100 % 16), Nat.digitChar (n / 0x10 % 16),
   Nat.digitChar (n % 16)]

/-- The escapes of one letter, and the code points they stand for. -/
def shortEscapes : List (Char × Nat) :=
  [('"', 0x22), ('\\', 0x5c), ('/', 0x2f), ('b', 0x8), ('f', 0xc), ('n', 0xa), ('r', 0xd), ('t', 0x9)]

/-- A character of a string, escaped unless it is printable ASCII. -/
def escape (c : Char) : List Char :=
  if c = '/' then [c]
  else match shortEscapes.find? (·.2 = c.toNat) with
    | some (letter, _) => ['\\', letter]
    | none => if ' ' ≤ c ∧ c ≤ '~' then [c] else (units c).flatMap escapeUnit

def dumpsString (s : String) : List Char := '"' :: s.toList.flatMap escape ++ ['"']

/-- A number with two digits at least. -/
def padded (n : Nat) : List Char := (if n < 10 then ['0'] else []) ++ Nat.toDigits 10 n

/-- The digits behind the point. -/
def dumpsFrac (frac : List (Fin 10)) : List Char :=
  if frac = [] then [] else '.' :: frac.map fun d : Fin 10 => Nat.digitChar d

/-- The exponent. -/
def dumpsExp : Option Int → List Char
  | none => []
  | some e => 'e' :: (if e < 0 then '-' else '+') :: padded e.natAbs

def dumpsFloat (lit : FloatLit) : List Char :=
  (if lit.negative then ['-'] else []) ++ Nat.toDigits 10 lit.whole ++ dumpsFrac lit.frac ++ dumpsExp lit.exp

def dumpsSpecial : Special → List Char
  | .nan => "NaN".toList
  | .infinity => "Infinity".toList
  | .minusInfinity => "-Infinity".toList

mutual

/-- `json.dumps(j)`. -/
def dumps : Json → List Char
  | null => "null".toList
  | bool true => "true".toList
  | bool false => "false".toList
  | int z => (toString z).toList
  | float lit => dumpsFloat lit
  | special c => dumpsSpecial c
  | str s => dumpsString s
  | arr elements => '[' :: dumpsElements elements ++ [']']
  | obj members => '\x7b' :: dumpsMembers members ++ ['\x7d']

def dumpsElements : List Json → List Char
  | [] => []
  | [j] => dumps j
  | j :: k :: rest => dumps j ++ ',' :: ' ' :: dumpsElements (k :: rest)

def dumpsMembers : List (String × Json) → List Char
  | [] => []
  | [(key, j)] => dumpsString key ++ ':' :: ' ' :: dumps j
  | (key, j) :: m :: rest => dumpsString key ++ ':' :: ' ' :: dumps j ++ ',' :: ' ' :: dumpsMembers (m :: rest)

end

/-! ## loads -/

def isBlank (c : Char) : Bool := c == ' ' || c == '\t' || c == '\n' || c == '\r'

def skip (s : List Char) : List Char := s.dropWhile isBlank

/-- The code units of a string up to its closing quote, and what follows it. -/
def scanString : List Char → Option (List Nat × List Char)
  | [] => none
  | '"' :: rest => some ([], rest)
  | '\\' :: 'u' :: a :: b :: c :: d :: rest =>
    (Text.parseHex [a, b, c, d]).bind fun unit => (scanString rest).map (Prod.map (unit :: ·) id)
  | '\\' :: letter :: rest =>
    (shortEscapes.lookup letter).bind fun unit => (scanString rest).map (Prod.map (unit :: ·) id)
  | c :: rest => if c.toNat < 0x20 ∨ c = '\\' then none else (scanString rest).map (Prod.map (c.toNat :: ·) id)

def isHigh (n : Nat) : Bool := 0xd800 ≤ n && n < 0xdc00

def isLow (n : Nat) : Bool := 0xdc00 ≤ n && n < 0xe000

/-- A code point; a surrogate without its other half is replaced. -/
def charOf (n : Nat) : Char := if isHigh n || isLow n then '\uFFFD' else Char.ofNat n

/-- Put surrogate pairs together. -/
def joinUnits : List Nat → List Char
  | [] => []
  | [n] => [charOf n]
  | high :: low :: rest =>
    if isHigh high && isLow low then
      Char.ofNat (0x10000 + (high - 0xd800) * 0x400 + (low - 0xdc00)) :: joinUnits rest
    else charOf high :: joinUnits (low :: rest)

def stringAt (s : List Char) : Option (String × List Char) := do
  let (codes, rest) ← scanString s
  return (String.ofList (joinUnits codes), rest)

/-- The digits at the front. -/
def digits (s : List Char) : List Char := s.takeWhile Char.isDigit

/-- `0|[1-9][0-9]*` at the front. -/
def wholeAt : List Char → Option (Nat × List Char)
  | '0' :: rest => some (0, rest)
  | s => if digits s = [] then none else some (Nat.ofDigitChars 10 (digits s) 0, s.dropWhile Char.isDigit)

/-- `(\.[0-9]+)?` at the front. -/
def fracAt : List Char → List (Fin 10) × List Char
  | '.' :: rest =>
    if digits rest = [] then ([], '.' :: rest)
    else ((digits rest).map fun c => Fin.ofNat 10 (c.toNat - '0'.toNat), rest.dropWhile Char.isDigit)
  | s => ([], s)

/-- An optional sign, and whether it is a minus. -/
def signAt : List Char → Bool × List Char
  | '-' :: rest => (true, rest)
  | '+' :: rest => (false, rest)
  | s => (false, s)

/-- `([eE][-+]?[0-9]+)?` at the front. -/
def expAt (s : List Char) : Option Int × List Char :=
  match s with
  | e :: rest =>
    let (negative, rest) := signAt rest
    if (e = 'e' ∨ e = 'E') ∧ digits rest ≠ [] then
      let n : Int := Nat.ofDigitChars 10 (digits rest) 0
      (some (if negative then -n else n), rest.dropWhile Char.isDigit)
    else (none, s)
  | [] => (none, s)

/-- A number at the front. -/
def numberAt (s : List Char) : Option (Json × List Char) := do
  let (negative, s) := if s.head? = some '-' then (true, s.tail) else (false, s)
  let (whole, s) ← wholeAt s
  let (frac, s) := fracAt s
  let (exp, s) := expAt s
  if float : frac ≠ [] ∨ exp.isSome then return (.float ⟨negative, whole, frac, exp, float⟩, s)
  else return (.int (if negative then -whole else whole), s)

/-- The constants. -/
def constants : List (List Char × Json) :=
  [("null".toList, null), ("true".toList, bool true), ("false".toList, bool false), ("NaN".toList, special .nan),
   ("Infinity".toList, special .infinity), ("-Infinity".toList, special .minusInfinity)]

/-- A constant at the front. -/
def constantAt (s : List Char) : Option (Json × List Char) :=
  constants.findSome? fun (word, j) => if word <+: s then some (j, s.drop word.length) else none

mutual

/-- A value at the front, nested less deep than `fuel`. -/
def valueAt : Nat → List Char → Option (Json × List Char)
  | 0, _ | _, [] => none
  | fuel + 1, c :: s =>
    if c = '"' then (stringAt s).map fun (t, rest) => (str t, rest)
    else if c = '[' then
      if (skip s).head? = some ']' then some (arr [], (skip s).tail)
      else (elementsAt fuel (skip s)).map fun (elements, rest) => (arr elements, rest)
    else if c = '\x7b' then
      if (skip s).head? = some '\x7d' then some (obj [], (skip s).tail)
      else (membersAt fuel (skip s)).map fun (members, rest) => (obj members, rest)
    else (constantAt (c :: s)).orElse fun _ => numberAt (c :: s)

/-- The elements of an array up to its closing bracket. -/
def elementsAt : Nat → List Char → Option (List Json × List Char)
  | 0, _ => none
  | fuel + 1, s => do
    let (j, rest) ← valueAt fuel s
    match skip rest with
    | ']' :: rest => return ([j], rest)
    | ',' :: rest =>
      let (later, rest) ← elementsAt fuel (skip rest)
      return (j :: later, rest)
    | _ => none

/-- The members of an object up to its closing brace. -/
def membersAt : Nat → List Char → Option (List (String × Json) × List Char)
  | 0, _ => none
  | fuel + 1, s => do
    if s.head? ≠ some '"' then none
    let (key, rest) ← stringAt s.tail
    if (skip rest).head? ≠ some ':' then none
    let (j, rest) ← valueAt fuel (skip (skip rest).tail)
    match skip rest with
    | '\x7d' :: rest => return ([(key, j)], rest)
    | ',' :: rest =>
      let (later, rest) ← membersAt fuel (skip rest)
      return ((key, j) :: later, rest)
    | _ => none

end

/-- `json.loads(s)`; `none` is its `JSONDecodeError`. -/
def loads (s : List Char) : Option Json := do
  let (j, rest) ← valueAt (2 * s.length + 2) (skip s)
  if skip rest = [] then return j else none

end Json

end Python
