import Treeline.Numeral
import Treeline.Number.Binary

/-!
# Shortest decimals

A floating-point number stands for all real numbers that round to it. Of the decimals among them,
the one with the fewest digits is chosen, and of those the nearest to the number, or the even one if
two are equally near. With each count of digits from one up, the two decimals next to the number are
tried; seventeen digits suffice.
-/

namespace Treeline.Number

/-- A decimal: its digits behind a point, times ten to the power of `point`. -/
structure Digits where
  digits : List Char
  point : Int
  deriving DecidableEq

namespace Shortest

/-- Whether `a · 10 ^ p` is at most `b · 2 ^ q`. -/
def isAtMost (a : Nat) (p : Int) (b : Nat) (q : Int) : Bool :=
  a * Nat.pow 10 p.toNat * Nat.pow 2 (-q).toNat ≤ b * Nat.pow 2 q.toNat * Nat.pow 10 (-p).toNat

/-- Whether `b · 2 ^ q` is at most `a · 10 ^ p`. -/
def isAtLeast (a : Nat) (p : Int) (b : Nat) (q : Int) : Bool :=
  b * Nat.pow 2 q.toNat * Nat.pow 10 (-p).toNat ≤ a * Nat.pow 10 p.toNat * Nat.pow 2 (-q).toNat

/-- Whether `a · 10 ^ p` rounds to the number `m · 2 ^ q`. The bounds are half way to the numbers
next to it, and belong to it if its mantissa is even. Below a power of two the numbers lie
closer. -/
def readsBack (m : Nat) (q : Int) (a : Nat) (p : Int) : Bool :=
  let lower :=
    if m = Binary.leastNormal ∧ q ≠ Binary.leastExponent then 4 * m - 1 else 4 * m - 2
  let upper := 4 * m + 2
  if m % 2 = 0 then isAtLeast a p lower (q - 2) && isAtMost a p upper (q - 2)
  else !isAtMost a p lower (q - 2) && !isAtLeast a p upper (q - 2)

/-- The whole part of `m · 2 ^ q` over `10 ^ p`, and twice the remainder against the divisor. -/
def quotient (m : Nat) (q p : Int) : Nat × Ordering :=
  let numerator := m * Nat.pow 2 q.toNat * Nat.pow 10 (-p).toNat
  let denominator := Nat.pow 2 (-q).toNat * Nat.pow 10 p.toNat
  (numerator / denominator, compare (2 * (numerator % denominator)) denominator)

/-- The least `k` from a start on with `m · 2 ^ q < 10 ^ k`. -/
def leastPower (m : Nat) (q : Int) : (fuel : Nat) → (start : Int) → Int
  | 0, k => k
  | fuel + 1, k => if isAtLeast 1 k m q && !isAtMost 1 k m q then k else leastPower m q fuel (k + 1)

/-- Where the point of a number stands: the least power of ten above it. The search starts a few
powers below the estimate that the length of the mantissa gives. -/
def pointOf (m : Nat) (q : Int) : Int :=
  leastPower m q 40 (Int.fdiv (((Nat.log2 m : Int) + q) * 30103) 100000 - 4)

/-- The better of the two decimals with the unit `10 ^ p` next to a number, if one reads back. -/
def nearest? (m : Nat) (q p : Int) : Option Nat :=
  let (below, half) := quotient m q p
  let fits := readsBack m q below p
  let aboveFits := readsBack m q (below + 1) p
  if fits && aboveFits then
    some (if half = .gt ∨ (half = .eq ∧ below % 2 = 1) then below + 1 else below)
  else if fits then some below
  else if aboveFits then some (below + 1)
  else none

/-- The first decimal that reads back, with `count` digits or more. -/
def search (m : Nat) (q point : Int) : (fuel : Nat) → (count : Nat) → Nat × Int
  | 0, count => ((quotient m q (point - count)).1, point - count)
  | fuel + 1, count =>
    match nearest? m q (point - count) with
    | some a => (a, point - count)
    | none => search m q point fuel (count + 1)

def withoutZeros (digits : List Char) : List Char :=
  (digits.reverse.dropWhile (· = '0')).reverse

end Shortest

/-- The shortest decimal that rounds to `m · 2 ^ q`, for a positive `m`. -/
def shortest (m : Nat) (q : Int) : Digits :=
  let (a, p) := Shortest.search m q (Shortest.pointOf m q) 17 1
  let digits := Numeral.ofNat a
  ⟨Shortest.withoutZeros digits, p + digits.length⟩

end Treeline.Number
