/-!
# UTF-16

Bytes in pairs, in either order. A code point above U+FFFF is written as a high and a low surrogate;
a surrogate that stands alone is refused.
-/

namespace Treeline.Text.Utf16

/-- Why bytes are not a character. -/
inductive Reason
  | truncated
  | unexpectedEnd
  /-- A low surrogate without a high one before it. -/
  | illegalEncoding
  /-- A high surrogate without a low one after it. -/
  | illegalSurrogate
  deriving DecidableEq

def Reason.message : Reason → String
  | .truncated => "truncated data"
  | .unexpectedEnd => "unexpected end of data"
  | .illegalEncoding => "illegal encoding"
  | .illegalSurrogate => "illegal UTF-16 surrogate"

/-- The byte position of what does not decode, the byte there, and why. -/
structure Failure where
  position : Nat
  byte : UInt8
  reason : Reason
  deriving DecidableEq

/-- The order of the two bytes of a unit. -/
inductive Order
  | little
  | big
  deriving DecidableEq

def Order.unit : Order → UInt8 → UInt8 → Nat
  | .little, a, b => b.toNat * 256 + a.toNat
  | .big, a, b => a.toNat * 256 + b.toNat

def isHighSurrogate (n : Nat) : Bool := 0xD800 ≤ n && n < 0xDC00
def isLowSurrogate (n : Nat) : Bool := 0xDC00 ≤ n && n < 0xE000

/-- Decodes bytes from a position on. -/
def decodeFrom (order : Order) (position : Nat) (done : List Char) :
    List UInt8 → Except Failure (List Char)
  | [] => .ok done.reverse
  | [a] => .error ⟨position, a, .truncated⟩
  | a :: b :: rest =>
    let n := order.unit a b
    if isLowSurrogate n then .error ⟨position, a, .illegalEncoding⟩
    else if isHighSurrogate n then
      match rest with
      | c :: d :: rest =>
        let m := order.unit c d
        if isLowSurrogate m then
          decodeFrom order (position + 4)
            (Char.ofNat (0x10000 + (n - 0xD800) * 1024 + (m - 0xDC00)) :: done) rest
        else .error ⟨position, a, .illegalSurrogate⟩
      | _ => .error ⟨position, a, .unexpectedEnd⟩
    else decodeFrom order (position + 2) (Char.ofNat n :: done) rest

def decode (order : Order) (bytes : List UInt8) : Except Failure (List Char) :=
  decodeFrom order 0 [] bytes

end Treeline.Text.Utf16
