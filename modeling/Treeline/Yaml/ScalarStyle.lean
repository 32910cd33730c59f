import Treeline.Yaml.Tag

/-!
# Styles of scalars

How a text is written: plain where it reads back as what it is, else between single quotes, and
between double quotes where it holds characters that need escapes. Binary data is written as a
block.
-/

namespace Treeline.Yaml

/-- How a scalar is written. -/
inductive ScalarStyle
  | plain
  | singleQuoted
  | doubleQuoted
  | literal
  deriving DecidableEq

namespace ScalarStyle

/-- Whether a character breaks a line that is written. -/
def breaksLine (c : Char) : Bool := isBreak c && c != '\r'

/-- Whether a character cannot be written as it is. -/
def isSpecial (c : Char) : Bool :=
  let n := c.toNat
  !(c = '\n' || (0x20 ≤ n && n ≤ 0x7E) || n = 0x85 || (0xA0 ≤ n && n ≤ 0xD7FF)
    || (0xE000 ≤ n && n ≤ 0xFFFD) || (0x10000 ≤ n && n < 0x10FFFF)) || n = 0xFEFF

/-- Whether a text has two neighbours that satisfy `p` and `q`. -/
def hasPair (p q : Char → Bool) : List Char → Bool
  | a :: b :: rest => (p a && q b) || hasPair p q (b :: rest)
  | _ => false

def isSingleLine (cs : List Char) : Bool := !cs.any breaksLine

/-- Whether a text begins or ends with a character that satisfies `p`. -/
def hasEnd (p : Char → Bool) (cs : List Char) : Bool := cs.head?.any p || cs.getLast?.any p

/-- Whether the first character begins something else than plain text. -/
def startsWithIndicator : List Char → Bool
  | [] => false
  | c :: rest =>
    "#,[]\x7b\x7d&*!|>\x27\"%@\x60".toList.contains c
      || ((c = '?' || c = ':' || c = '-') && isBlankOrEnd (rest.head?.getD endOfText))

/-- Whether a colon before a blank or a number sign behind one stands in a text. -/
def holdsIndicator (cs : List Char) : Bool :=
  hasPair (fun c => c = ':') isBlankOrEnd (cs.drop 1 ++ [' '])
    || hasPair isBlankOrEnd (fun c => c = '#') cs

/-- Whether a text begins like a line that separates documents. -/
def startsLikeSeparator (cs : List Char) : Bool :=
  cs.take 3 = ['-', '-', '-'] || cs.take 3 = ['.', '.', '.']

/-- Whether line breaks and spaces in a text can be written between single quotes. -/
def allowsSingleQuotes (cs : List Char) : Bool :=
  !cs.any isSpecial && !hasPair breaksLine (· = ' ') cs && !hasPair (· = ' ') breaksLine cs

/-- Whether a text can stand without quotes. -/
def allowsPlain (cs : List Char) : Bool :=
  allowsSingleQuotes cs && isSingleLine cs && !hasEnd (· = ' ') cs && !startsLikeSeparator cs
    && !startsWithIndicator cs && !holdsIndicator cs

/-- The style of a text with a tag. A key that stands on its line alone must be short and on one
line. -/
def choose (tag : String) (cs : List Char) (isKey : Bool) : ScalarStyle :=
  if tag = Tag.binary then if cs.isEmpty then .doubleQuoted else .literal
  else if Tag.ofPlain cs = tag && !(isKey && cs.isEmpty) && allowsPlain cs then .plain
  else if allowsSingleQuotes cs && !(isKey && !isSingleLine cs) then .singleQuoted
  else .doubleQuoted

/-- Whether the tag must be written because the style does not imply it. -/
def needsTag (style : ScalarStyle) (tag : String) (cs : List Char) : Bool :=
  if style = .plain then Tag.ofPlain cs != tag else tag != Tag.text

end ScalarStyle

end Treeline.Yaml
