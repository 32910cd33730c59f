/-!
# Binary numbers

The exact value of a floating-point number of 64 bits: a whole number times a power of two, or one
of the values that are no number. Two exact values are compared without rounding.
-/

namespace Treeline.Number

/-- The value of a floating-point number. -/
inductive Binary
  | nan
  | infinite (isNegative : Bool)
  /-- The mantissa times two to the power of the exponent. -/
  | finite (isNegative : Bool) (mantissa : Nat) (exponent : Int)
  deriving DecidableEq

namespace Binary

/-- The least mantissa that is not small: the fractions lie below it, in 52 bits. -/
def leastNormal : Nat := Nat.pow 2 52

/-- What the sign adds to the bits of a negative number. -/
def signBit : Nat := Nat.pow 2 63

/-- The exponent of the smallest numbers. -/
def leastExponent : Int := -1074

/-- Takes the bits of a floating-point number apart. -/
def ofFloat (x : Float) : Binary :=
  let bits := x.toBits.toNat
  let isNegative := decide (signBit ≤ bits)
  let exponent := bits / leastNormal % 2048
  let fraction := bits % leastNormal
  if exponent = 2047 then if fraction = 0 then .infinite isNegative else .nan
  else if exponent = 0 then .finite isNegative fraction leastExponent
  else .finite isNegative (leastNormal + fraction) (leastExponent + exponent - 1)

def ofInt (i : Int) : Binary := .finite (decide (i < 0)) i.natAbs 0

/-- The mantissa that a finite value has with another exponent, which is not above its own. -/
def scaled (isNegative : Bool) (mantissa : Nat) (exponent least : Int) : Int :=
  let n : Nat := mantissa * Nat.pow 2 (exponent - least).toNat
  if isNegative then -n else n

/-- Whether one value lies below another. A value that is no number lies below none. -/
def less : Binary → Binary → Bool
  | .nan, _ | _, .nan => false
  | .infinite s, .infinite t => s && !t
  | .infinite s, .finite _ _ _ => s
  | .finite _ _ _, .infinite t => !t
  | .finite s m p, .finite t n q => scaled s m p (min p q) < scaled t n q (min p q)

/-- Whether two values are the same number. A value that is no number equals none. -/
def same : Binary → Binary → Bool
  | .nan, _ | _, .nan => false
  | .infinite s, .infinite t => s == t
  | .finite s m p, .finite t n q => scaled s m p (min p q) == scaled t n q (min p q)
  | _, _ => false

end Binary

end Treeline.Number
