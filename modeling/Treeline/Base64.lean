import Treeline.Yaml.Problem

/-!
# Binary data as text

Three bytes are written as four characters of an alphabet of sixty-four. What is missing at the end
is filled up with equality signs. Text is written in lines of 76 characters; reading passes over
characters that do not belong to the alphabet.
-/

namespace Treeline.Base64

/-- The character for a value below sixty-four. -/
def symbol (n : Nat) : Char :=
  if n < 26 then Char.ofNat (0x41 + n)
  else if n < 52 then Char.ofNat (0x61 + (n - 26))
  else if n < 62 then Char.ofNat (0x30 + (n - 52))
  else if n = 62 then '+' else '/'

/-- The value of a character of the alphabet. -/
def value? (c : Char) : Option Nat :=
  let n := c.toNat
  if 0x41 ≤ n ∧ n ≤ 0x5A then some (n - 0x41)
  else if 0x61 ≤ n ∧ n ≤ 0x7A then some (n - 0x61 + 26)
  else if 0x30 ≤ n ∧ n ≤ 0x39 then some (n - 0x30 + 52)
  else if c = '+' then some 62
  else if c = '/' then some 63
  else none

/-- The characters for bytes, without line breaks. -/
def encode : List UInt8 → List Char
  | [] => []
  | [a] =>
    let n := a.toNat * 16
    [symbol (n / 64), symbol (n % 64), '=', '=']
  | [a, b] =>
    let n := (a.toNat * 256 + b.toNat) * 4
    [symbol (n / 4096), symbol (n / 64 % 64), symbol (n % 64), '=']
  | a :: b :: c :: rest =>
    let n := (a.toNat * 256 + b.toNat) * 256 + c.toNat
    symbol (n / 262144) :: symbol (n / 4096 % 64) :: symbol (n / 64 % 64) :: symbol (n % 64)
      :: encode rest

def lineLength : Nat := 76

/-- Lines of characters with a line feed after each. -/
def lines : (fuel : Nat) → List Char → List Char
  | 0, _ => []
  | fuel + 1, cs =>
    if cs.isEmpty then []
    else cs.take lineLength ++ '\n' :: lines fuel (cs.drop lineLength)

def encodeLines (bytes : List UInt8) : List Char :=
  let cs := encode bytes
  lines (cs.length / lineLength + 1) cs

/-- Where the reading of a text stands: the values of the last group of four that are not used up,
how many of its characters have come, and how many equality signs behind them. -/
structure Progress where
  bytes : List UInt8
  left : Nat
  position : Nat
  padding : Nat

def Progress.take (p : Progress) (n : Nat) : Progress :=
  match p.position with
  | 0 => ⟨p.bytes, n, 1, 0⟩
  | 1 => ⟨UInt8.ofNat (p.left * 4 + n / 16) :: p.bytes, n % 16, 2, 0⟩
  | 2 => ⟨UInt8.ofNat (p.left * 16 + n / 4) :: p.bytes, n % 4, 3, 0⟩
  | _ => ⟨UInt8.ofNat (p.left * 64 + n) :: p.bytes, 0, 0, 0⟩

/-- Reads a text. Equality signs that complete a group end it. -/
def decodeFrom (p : Progress) : List Char → Except Yaml.BinaryProblem (List UInt8)
  | [] =>
    match p.position with
    | 0 => .ok p.bytes.reverse
    | 1 => .error (.length (p.bytes.length / 3 * 4 + 1))
    | _ => .error .padding
  | c :: rest =>
    if c = '=' then
      if p.position < 2 then decodeFrom p rest
      else if 4 ≤ p.position + (p.padding + 1) then .ok p.bytes.reverse
      else decodeFrom { p with padding := p.padding + 1 } rest
    else match value? c with
      | none => decodeFrom p rest
      | some n => decodeFrom (p.take n) rest

/-- The first run of characters that are not ASCII. -/
def findWide (position : Nat) : List Char → Option Yaml.BinaryProblem
  | [] => none
  | c :: rest =>
    if c.toNat < 0x80 then findWide (position + 1) rest
    else
      some (.notAscii position ((rest.takeWhile fun x => 0x80 ≤ x.toNat).length + 1) c)

/-- The bytes that a text stands for. -/
def decode (cs : List Char) : Except Yaml.BinaryProblem (List UInt8) :=
  match findWide 0 cs with
  | some problem => .error problem
  | none => decodeFrom ⟨[], 0, 0, 0⟩ cs

end Treeline.Base64
