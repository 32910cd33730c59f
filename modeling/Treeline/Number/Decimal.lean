import Treeline.Fault
import Treeline.Number.Shortest
import Treeline.Text.Digit

/-!
# Decimal numbers

Floating-point numbers as text. They are written with the fewest digits that read back; a number
from `10 ^ -4` up to `10 ^ 16` is written with its point in place, any other with an exponent of at
least two digits. A number that a person types may stand between blanks, may be written in the
digits of any script, and may have single underscores between digits.
-/

namespace Treeline.Number.Decimal

/-! ### Writing -/

/-- Digits with the point in place. -/
def positional (d : Digits) : List Char :=
  let point := d.point.toNat
  if d.point ≤ 0 then
    '0' :: '.' :: (List.replicate (-d.point).toNat '0' ++ d.digits)
  else if d.digits.length ≤ point then
    d.digits ++ List.replicate (point - d.digits.length) '0' ++ ['.', '0']
  else d.digits.take point ++ '.' :: d.digits.drop point

/-- Digits with an exponent. -/
def scientific (d : Digits) : List Char :=
  let exponent := d.point - 1
  let fraction := d.digits.drop 1
  d.digits.take 1 ++ (if fraction.isEmpty then [] else '.' :: fraction)
    ++ 'e' :: (if exponent < 0 then '-' else '+') :: Numeral.padded 2 exponent.natAbs

/-- The text of the absolute value of a number. -/
def magnitude (m : Nat) (q : Int) : List Char :=
  if m = 0 then ['0', '.', '0']
  else
    let d := shortest m q
    if -4 < d.point ∧ d.point ≤ 16 then positional d else scientific d

def ofBinary : Binary → List Char
  | .nan => ['n', 'a', 'n']
  | .infinite isNegative => (if isNegative then ['-'] else []) ++ ['i', 'n', 'f']
  | .finite isNegative m q => (if isNegative then ['-'] else []) ++ magnitude m q

def write (x : Float) : List Char := ofBinary (.ofFloat x)

/-- The text of a number, without a fraction that is zero. -/
def writeBrief (x : Float) : List Char :=
  let cs := write x
  if cs.drop (cs.length - 2) = ['.', '0'] then cs.take (cs.length - 2) else cs

/-! ### Reading -/

/-- The number nearest to `mantissa · 10 ^ exponent`. -/
def nearest (mantissa : Nat) (exponent : Int) : Float :=
  let top := (Numeral.ofNat mantissa).length + exponent
  if mantissa = 0 ∨ top < -400 then 0
  else if 400 < top then 1 / 0
  else Float.ofScientific mantissa (decide (exponent < 0)) exponent.natAbs

/-- A text without the underscores in it, if each stands alone between digits. -/
def withoutGaps? (before : Char) : List Char → Option (List Char)
  | [] => if before = '_' then none else some []
  | c :: rest =>
    if c = '_' then if Text.isDigit before then withoutGaps? c rest else none
    else if before = '_' && !Text.isDigit c then none
    else (withoutGaps? c rest).map (c :: ·)

/-- The exponent that a text consists of. No text is the exponent zero. -/
def exponent? : List Char → Option Int
  | [] => some 0
  | e :: rest =>
    if e = 'e' ∨ e = 'E' then
      let (isNegative, digits) := match rest with
        | '-' :: digits => (true, digits)
        | '+' :: digits => (false, digits)
        | digits => (false, digits)
      if digits.isEmpty || !digits.all Text.isDigit then none
      else
        let n : Int := Numeral.value digits
        some (if isNegative then -n else n)
    else none

/-- The number that digits, a point and an exponent make up. -/
def unsigned? (cs : List Char) : Option Float := do
  let whole := cs.takeWhile Text.isDigit
  let rest := cs.dropWhile Text.isDigit
  let (fraction, rest) := match rest with
    | '.' :: rest => (rest.takeWhile Text.isDigit, rest.dropWhile Text.isDigit)
    | rest => ([], rest)
  let digits := whole ++ fraction
  if digits.isEmpty then none
  let exponent ← exponent? rest
  return nearest (Numeral.value digits) (exponent - fraction.length)

/-- The number that a text without blanks consists of. -/
def signed? (cs : List Char) : Option Float :=
  let (isNegative, body) := match cs with
    | '-' :: body => (true, body)
    | '+' :: body => (false, body)
    | body => (false, body)
  let word := String.ofList (body.map Char.toLower)
  let size :=
    if word = "inf" ∨ word = "infinity" then some (1 / 0)
    else if word = "nan" then some (0 / 0)
    else unsigned? body
  size.map fun x => if isNegative then -x else x

def read? (cs : List Char) : Option Float :=
  (withoutGaps? '\x00' (Text.trimBlanks (cs.map Text.asciiNumeral))).bind signed?

/-- Reads a number; a text that is none is a fault. -/
def read (cs : List Char) : Except Fault Float :=
  match read? cs with
  | some x => .ok x
  | none => .error (.notDecimal (String.ofList cs))

end Treeline.Number.Decimal
