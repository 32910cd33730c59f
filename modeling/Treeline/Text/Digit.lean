import Treeline.Text.CodePoints

/-!
# Decimal digits and blanks

Numbers that a person types may be written in the decimal digits of any script and may stand
between blanks. Both are brought to ASCII before a number is read. Among ASCII characters the
blanks are the space and the five layout characters.
-/

namespace Treeline.Text

/-- Whether a character is an ASCII decimal digit. -/
def isDigit (c : Char) : Bool := 0x30 ≤ c.toNat && c.toNat ≤ 0x39

/-- Whether an ASCII character is a blank. -/
def isBlank (c : Char) : Bool := c = ' ' || (0x09 ≤ c.toNat && c.toNat ≤ 0x0D)

/-- The value of a decimal digit of a script other than ASCII. -/
def scriptDigit? (n : Nat) : Option Nat :=
  (CodePoints.zeros.find? fun z => z ≤ n && n ≤ z + 9).map (n - ·)

/-- Whether a character is a decimal digit of any script. -/
def isAnyDigit (c : Char) : Bool := isDigit c || (scriptDigit? c.toNat).isSome

/-- The ASCII form of one character of a number: blanks become spaces, digits become ASCII digits,
and a character that is neither becomes a question mark, which no number holds. -/
def asciiNumeral (c : Char) : Char :=
  if c.toNat < 0x7F then c
  else if CodePoints.contains CodePoints.blanks c.toNat then ' '
  else match scriptDigit? c.toNat with
    | some d => Char.ofNat (0x30 + d)
    | none => '?'

/-- A text without the blanks at its two ends. -/
def trimBlanks (cs : List Char) : List Char :=
  ((cs.dropWhile isBlank).reverse.dropWhile isBlank).reverse

end Treeline.Text
