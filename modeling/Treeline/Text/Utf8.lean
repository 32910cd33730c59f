import Treeline.Text.Hex
import Treeline.Numeral

/-!
# UTF-8

Bytes are decoded strictly: overlong forms, surrogates and code points above U+10FFFF are refused.
A refusal names the first byte that does not fit, how many bytes it covers and why. A character that
the end of the input cuts off is told apart from one that is wrong, so that text can be decoded in
pieces.
-/

namespace Treeline.Text.Utf8

/-- Why bytes are not a character. -/
inductive Reason
  | invalidStart
  | invalidContinuation
  | unexpectedEnd
  deriving DecidableEq

def Reason.message : Reason → String
  | .invalidStart => "invalid start byte"
  | .invalidContinuation => "invalid continuation byte"
  | .unexpectedEnd => "unexpected end of data"

/-- Bytes that do not decode: where they start, how many they are, the first of them, and why. -/
structure Failure where
  position : Nat
  length : Nat
  byte : UInt8
  reason : Reason
  deriving DecidableEq

def Failure.message (f : Failure) : String :=
  let place :=
    if f.length = 1 then
      "byte 0x" ++ String.ofList (hex 2 f.byte.toNat) ++ " in position " ++ Numeral.text f.position
    else
      "bytes in position " ++ Numeral.text f.position ++ "-"
        ++ Numeral.text (f.position + f.length - 1)
  "'utf-8' codec can't decode " ++ place ++ ": " ++ f.reason.message

/-- Whether a byte continues a character. -/
def isContinuation (b : UInt8) : Bool := 0x80 ≤ b && b < 0xC0

/-- Whether the second byte fits the first: shorter forms, surrogates and too large code points are
ruled out here. -/
def fitsSecond (lead second : UInt8) : Bool :=
  isContinuation second
    && (lead != 0xE0 || 0xA0 ≤ second) && (lead != 0xED || second < 0xA0)
    && (lead != 0xF0 || 0x90 ≤ second) && (lead != 0xF4 || second < 0x90)

/-- How many bytes a character has that starts with the given byte. -/
def width? (lead : UInt8) : Option Nat :=
  if lead < 0x80 then some 1
  else if lead < 0xC2 then none
  else if lead < 0xE0 then some 2
  else if lead < 0xF0 then some 3
  else if lead < 0xF5 then some 4
  else none

/-- What stands at the head of some bytes. -/
inductive Head
  /-- A character, and how many bytes follow its first. -/
  | char (c : Char) (more : Nat)
  /-- Bytes that no character starts with. -/
  | wrong (length : Nat) (reason : Reason)
  /-- The beginning of a character that is cut off. -/
  | cut

private def low (b : UInt8) : Nat := b.toNat % 64

/-- The head of some bytes, given the first of them and the rest. -/
def head (lead : UInt8) (rest : List UInt8) : Head :=
  match width? lead, rest with
  | none, _ => .wrong 1 .invalidStart
  | some 1, _ => .char (Char.ofNat lead.toNat) 0
  | some _, [] => .cut
  | some 2, b :: _ =>
    if fitsSecond lead b then .char (Char.ofNat (lead.toNat % 32 * 64 + low b)) 1
    else .wrong 1 .invalidContinuation
  | some 3, b :: rest =>
    if !fitsSecond lead b then .wrong 1 .invalidContinuation
    else match rest with
      | [] => .cut
      | c :: _ =>
        if isContinuation c then
          .char (Char.ofNat ((lead.toNat % 16 * 64 + low b) * 64 + low c)) 2
        else .wrong 2 .invalidContinuation
  | some _, b :: rest =>
    if !fitsSecond lead b then .wrong 1 .invalidContinuation
    else match rest with
      | [] => .cut
      | c :: rest =>
        if !isContinuation c then .wrong 2 .invalidContinuation
        else match rest with
          | [] => .cut
          | d :: _ =>
            if isContinuation d then
              .char (Char.ofNat (((lead.toNat % 8 * 64 + low b) * 64 + low c) * 64 + low d)) 3
            else .wrong 3 .invalidContinuation

/-- The characters of some bytes, up to a character that the end cuts off. -/
structure Piece where
  chars : List Char
  /-- The bytes of the character that is cut off. -/
  rest : List UInt8

/-- Decodes bytes from a position on. `skip` bytes belong to the character before them. -/
def pieceFrom (position : Nat) (done : List Char) : (skip : Nat) → List UInt8 → Except Failure Piece
  | _, [] => .ok ⟨done.reverse, []⟩
  | skip + 1, _ :: rest => pieceFrom (position + 1) done skip rest
  | 0, b :: rest =>
    match head b rest with
    | .char c more => pieceFrom (position + 1) (c :: done) more rest
    | .wrong length reason => .error ⟨position, length, b, reason⟩
    | .cut => .ok ⟨done.reverse, b :: rest⟩

/-- Decodes a piece of a text and leaves a character that its end cuts off. -/
def piece (bytes : List UInt8) : Except Failure Piece := pieceFrom 0 [] 0 bytes

/-- Decodes bytes that end where the text ends. -/
def decodeFrom (position : Nat) (bytes : List UInt8) : Except Failure (List Char) := do
  let p ← piece bytes
  match p.rest with
  | [] => .ok p.chars
  | b :: _ =>
    .error ⟨position + (bytes.length - p.rest.length), p.rest.length, b, .unexpectedEnd⟩

def decode (bytes : List UInt8) : Except Failure (List Char) := decodeFrom 0 bytes

/-- How many bytes of a file are decoded at a time. -/
def pieceLength : Nat := 8192

/-- Decodes a text that arrives in pieces. A character that a piece cuts off is completed by the
next one, and positions in a failure count from the start of the piece that shows it. -/
def decodePieces (carried : List UInt8) : List (List UInt8) → Except Failure (List Char)
  | [] =>
    match carried with
    | [] => .ok []
    | b :: _ => .error ⟨0, carried.length, b, .unexpectedEnd⟩
  | bytes :: rest => do
    let p ← piece (carried ++ bytes)
    return p.chars ++ (← decodePieces p.rest rest)

/-- The pieces of `length` bytes that a file is read in. -/
def pieces (length : Nat) : (count : Nat) → List UInt8 → List (List UInt8)
  | 0, _ => []
  | _ + 1, [] => []
  | count + 1, bytes => bytes.take length :: pieces length count (bytes.drop length)

def decodeFile (bytes : List UInt8) : Except Failure (List Char) :=
  decodePieces [] (pieces pieceLength (bytes.length / pieceLength + 1) bytes)

def encodeChar (c : Char) : List UInt8 :=
  let n := c.toNat
  if n < 0x80 then [UInt8.ofNat n]
  else if n < 0x800 then [UInt8.ofNat (0xC0 + n / 64), UInt8.ofNat (0x80 + n % 64)]
  else if n < 0x10000 then
    [UInt8.ofNat (0xE0 + n / 4096), UInt8.ofNat (0x80 + n / 64 % 64), UInt8.ofNat (0x80 + n % 64)]
  else
    [UInt8.ofNat (0xF0 + n / 262144), UInt8.ofNat (0x80 + n / 4096 % 64),
      UInt8.ofNat (0x80 + n / 64 % 64), UInt8.ofNat (0x80 + n % 64)]

def encode (cs : List Char) : List UInt8 := cs.flatMap encodeChar

end Treeline.Text.Utf8
