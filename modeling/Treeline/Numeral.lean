/-!
# Decimal numerals

Whole numbers are written in decimal without leading zeros. Numerals of more than `maxDigits` digits
are neither read nor written.
-/

namespace Treeline.Numeral

/-- The most digits, signs and leading zeros apart, that a numeral may have. -/
def maxDigits : Nat := 4300

def ofNat (n : Nat) : List Char := Nat.toDigits 10 n

def ofInt : Int → List Char
  | .ofNat n => ofNat n
  | .negSucc n => '-' :: ofNat (n + 1)

def text (n : Nat) : String := String.ofList (ofNat n)

def intText (i : Int) : String := String.ofList (ofInt i)

/-- The value of a string of ASCII digits. -/
def value (digits : List Char) : Nat :=
  digits.foldl (fun n c => 10 * n + (c.toNat - 0x30)) 0

/-- Whether the numeral of an integer is short enough to be written. -/
def isShort (i : Int) : Bool := decide (i.natAbs < Nat.pow 10 maxDigits)

/-- A numeral padded with zeros to at least `width` digits. -/
def padded (width n : Nat) : List Char :=
  let digits := ofNat n
  List.replicate (width - digits.length) '0' ++ digits

end Treeline.Numeral
