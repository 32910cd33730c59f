/-!
# Hexadecimal digits

Writing a number with a fixed count of hexadecimal digits, and the value of a digit.
-/

namespace Treeline.Text

/-- The digit of a value below sixteen, in small letters. -/
def hexDigit (n : Nat) : Char :=
  if n < 10 then Char.ofNat (0x30 + n) else Char.ofNat (0x61 + (n - 10))

/-- The digit of a value below sixteen, in capital letters. -/
def hexDigitUpper (n : Nat) : Char :=
  if n < 10 then Char.ofNat (0x30 + n) else Char.ofNat (0x41 + (n - 10))

/-- The last `width` digits of a number in base sixteen. -/
def hexWith (digit : Nat → Char) : (width : Nat) → Nat → List Char
  | 0, _ => []
  | width + 1, n => hexWith digit width (n / 16) ++ [digit (n % 16)]

/-- A number in small hexadecimal digits, padded with zeros to `width`. -/
def hex (width n : Nat) : List Char := hexWith hexDigit width n

/-- A number in capital hexadecimal digits, padded with zeros to `width`. -/
def hexUpper (width n : Nat) : List Char := hexWith hexDigitUpper width n

/-- A number in small hexadecimal digits, at least `width` of them. -/
def hexAtLeast (width n : Nat) : List Char :=
  let digits := Nat.toDigits 16 n
  List.replicate (width - digits.length) '0' ++ digits

/-- The value of a hexadecimal digit in either case. -/
def hexValue? (c : Char) : Option Nat :=
  let n := c.toNat
  if 0x30 ≤ n ∧ n ≤ 0x39 then some (n - 0x30)
  else if 0x61 ≤ n ∧ n ≤ 0x66 then some (n - 0x61 + 10)
  else if 0x41 ≤ n ∧ n ≤ 0x46 then some (n - 0x41 + 10)
  else none

/-- The number that hexadecimal digits write; other characters count as zero. -/
def hexNumber (cs : List Char) : Nat :=
  cs.foldl (fun n c => 16 * n + (hexValue? c).getD 0) 0

end Treeline.Text
