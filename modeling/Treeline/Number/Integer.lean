import Treeline.Fault
import Treeline.Text.Digit

/-!
# Whole numbers in several bases

Whole numbers that a person types may stand between blanks, may have a sign, may be written in the
digits of any script, and may have single underscores between digits. In bases two, eight and
sixteen a zero and a letter may come first. In other bases the number of digits is limited.
-/

namespace Treeline.Number.Integer

/-- The letter that stands behind the leading zero in a base. -/
def baseLetter? : Nat → Option Char
  | 2 => some 'b'
  | 8 => some 'o'
  | 16 => some 'x'
  | _ => none

def isDigit (base : Nat) (c : Char) : Bool := (Text.hexValue? c).any (· < base)

def value (base : Nat) (digits : List Char) : Nat :=
  digits.foldl (fun n c => base * n + (Text.hexValue? c).getD 0) 0

/-- A text without the zero and the letter that name a base, and the underscore behind them. -/
def withoutBase (base : Nat) (cs : List Char) : List Char :=
  match cs, baseLetter? base with
  | '0' :: c :: rest, some letter =>
    if c.toLower = letter then
      match rest with
      | '_' :: rest => rest
      | rest => rest
    else cs
  | _, _ => cs

/-- Whether underscores stand one at a time and between digits. -/
def hasGoodGaps : List Char → Bool
  | [] => true
  | ['_'] => false
  | '_' :: '_' :: _ => false
  | _ :: rest => hasGoodGaps rest

def readDigits (base : Nat) (text : String) (cs : List Char) : Except Fault Nat :=
  let isInside (c : Char) : Bool := isDigit base c || c = '_'
  let run := cs.takeWhile isInside
  let digits := run.filter (· != '_')
  if run.isEmpty || run.head? = some '_' || !hasGoodGaps run then .error (.notInteger base text)
  else if (baseLetter? base).isNone && Numeral.maxDigits < digits.length then
    .error (.longNumeral digits.length)
  else if (cs.dropWhile isInside).isEmpty then .ok (value base digits)
  else .error (.notInteger base text)

/-- Reads a whole number in a base. -/
def read (base : Nat) (cs : List Char) : Except Fault Int := do
  let body := Text.trimBlanks (cs.map Text.asciiNumeral)
  let (isNegative, body) := match body with
    | '-' :: body => (true, body)
    | '+' :: body => (false, body)
    | body => (false, body)
  let n : Int ← readDigits base (String.ofList cs) (withoutBase base body)
  return if isNegative then -n else n

end Treeline.Number.Integer
