import Treeline.Base64
import Treeline.Data
import Treeline.Number.Decimal
import Treeline.Number.Integer
import Treeline.Text.Lowercase
import Treeline.Yaml.Tag

/-!
# Values of scalars

The value that the text of a scalar stands for, by its tag. A tag that is written out can stand
before any text, so the text need not have the form of a value at all; that is a fault.
-/

namespace Treeline.Datum

/-- Reads a truth value, in any case. -/
def ofBoolText (text : String) : Except Fault Datum :=
  let word := Text.lowercase text
  if Yaml.Tag.trueWords.contains word then .ok (.bool true)
  else if Yaml.Tag.falseWords.contains word then .ok (.bool false)
  else .error (.unknownWord word)

/-- A text without underscores, the sign before it, and whether that is a minus sign. -/
def unsigned (cs : List Char) : Except Fault (Bool × List Char) :=
  match cs.filter (· != '_') with
  | [] => .error .endOfText
  | '-' :: body => .ok (true, body)
  | '+' :: body => .ok (false, body)
  | body => .ok (false, body)

/-- Reads a whole number without a sign. A leading zero stands for base eight, and colons separate
the places of base sixty. -/
def magnitude (body : List Char) : Except Fault Int :=
  match body with
  | [] => .error .endOfText
  | ['0'] => .ok 0
  | '0' :: 'b' :: digits => Number.Integer.read 2 digits
  | '0' :: 'x' :: digits => Number.Integer.read 16 digits
  | '0' :: _ => Number.Integer.read 8 body
  | _ =>
    if body.contains ':' then do
      let places ← (Text.split ':' body).mapM (Number.Integer.read 10)
      return places.foldl (fun n place => 60 * n + place) 0
    else Number.Integer.read 10 body

def ofIntText (text : String) : Except Fault Datum := do
  let (isNegative, body) ← unsigned text.toList
  let n ← magnitude body
  return .int (if isNegative then -n else n)

/-- The floating-point number nearest to a power of sixty. -/
def sixtyTo (n : Nat) : Except Fault Float :=
  let x := Number.Decimal.nearest (Nat.pow 60 n) 0
  if x.isInf then .error .hugeNumber else .ok x

/-- The sum of places of base sixty, lowest one first, from a power of sixty on. -/
def sumPlaces (sum : Float) (power : Nat) : List Float → Except Fault Float
  | [] => .ok sum
  | place :: rest => do
    sumPlaces (sum + place * (← sixtyTo power)) (power + 1) rest

/-- Reads a floating-point number without a sign. -/
def floatMagnitude (body : List Char) : Except Fault Float :=
  if body = ['.', 'i', 'n', 'f'] then .ok (1 / 0)
  else if body = ['.', 'n', 'a', 'n'] then .ok (0 / 0)
  else if body.contains ':' then do
    let places ← (Text.split ':' body).mapM Number.Decimal.read
    sumPlaces 0 0 places.reverse
  else Number.Decimal.read body

def ofFloatText (text : String) : Except Fault Datum := do
  let (isNegative, body) ← unsigned (Text.lowercase text).toList
  let x ← floatMagnitude body
  return .float ((if isNegative then -1 else 1) * x)

def ofTimestampText (text : String) : Except Fault Datum :=
  match Yaml.Timestamp.parse? (Yaml.Tag.withoutLineFeed text.toList) with
  | none => .error .notTimestamp
  | some t =>
    match t.resolve with
    | .error problem => .error (.calendar problem)
    | .ok (.date d) => .ok (.date d)
    | .ok (.moment m) => .ok (.moment m)

end Treeline.Datum
