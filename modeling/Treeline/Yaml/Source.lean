import Treeline.Text.Newline
import Treeline.Text.Utf16
import Treeline.Text.Utf8
import Treeline.Yaml.Mark

/-!
# Texts to read

A text comes as characters, as bytes or from a file. Bytes are in UTF-8 unless they begin with a
byte order mark of UTF-16. All characters are checked before anything else is read. Messages about
texts from files do not show any part of them.
-/

namespace Treeline.Yaml

/-- Why a text cannot be read at all. -/
inductive Unreadable
  /-- A character that no text may hold. -/
  | forbidden (found : Char) (position : Nat)
  /-- A byte that does not decode. -/
  | undecodable (byte : UInt8) (position : Nat) (reason : String)
  deriving DecidableEq

def Unreadable.message (name : String) (u : Unreadable) : String :=
  let (code, reason, position) := match u with
    | .forbidden found position =>
      (found.toNat, "special characters are not allowed", position)
    | .undecodable byte position reason => (byte.toNat, reason, position)
  "unacceptable character #x" ++ String.ofList (Text.hexAtLeast 4 code) ++ ": " ++ reason
    ++ "\n  in \"" ++ name ++ "\", position " ++ Numeral.text position

/-- The first character from a position on that no text may hold. -/
def findForbidden (position : Nat) : List Char → Option Unreadable
  | [] => none
  | c :: rest =>
    if isAllowed c then findForbidden (position + 1) rest else some (.forbidden c position)

namespace Source

/-- The name of texts that come as characters. -/
def charactersName : String := "<unicode string>"

/-- The name of texts that come as bytes. -/
def bytesName : String := "<byte string>"

def ofText (text : List Char) : Source := ⟨charactersName, text, true⟩

def ofFile (name : String) (text : List Char) : Source := ⟨name, Text.unifyNewlines text, false⟩

/-- Decodes bytes, in UTF-16 if they begin with its byte order mark. -/
def decodeBytes (bytes : List UInt8) : Except Unreadable (List Char) :=
  let wide (order : Text.Utf16.Order) :=
    (Text.Utf16.decode order bytes).mapError fun f =>
      Unreadable.undecodable f.byte f.position f.reason.message
  match bytes with
  | 0xFF :: 0xFE :: _ => wide .little
  | 0xFE :: 0xFF :: _ => wide .big
  | _ =>
    (Text.Utf8.decode bytes).mapError fun f => .undecodable f.byte f.position f.reason.message

def ofBytes (bytes : List UInt8) : Except Unreadable Source :=
  (decodeBytes bytes).map fun text => ⟨bytesName, text, true⟩

/-- Checks that a text holds no character that it may not hold. -/
def check (source : Source) : Except Unreadable Unit :=
  match findForbidden 0 source.text with
  | none => .ok ()
  | some u => .error u

end Source

end Treeline.Yaml
