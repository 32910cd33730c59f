/-!
# Classes of characters

The classes of characters that the grammar of documents refers to. Five characters end a line. The
end of a text reads as the null character, which no text holds, so that a class can take the end in.
-/

namespace Treeline.Yaml

/-- What is read where a text has ended. -/
def endOfText : Char := '\x00'

def isBreak (c : Char) : Bool :=
  c = '\n' || c = '\r' || c = '\u0085' || c = '\u2028' || c = '\u2029'

/-- Whether a character ends a line or the text. -/
def isLineEnd (c : Char) : Bool := c = endOfText || isBreak c

/-- Whether a character is a space or ends a line or the text. -/
def isSpaceOrEnd (c : Char) : Bool := c = ' ' || isLineEnd c

/-- Whether a character is a space or a tab. -/
def isBlank (c : Char) : Bool := c = ' ' || c = '\t'

/-- Whether a character is a space or a tab, or ends a line or the text. -/
def isBlankOrEnd (c : Char) : Bool := isBlank c || isLineEnd c

def isDigit (c : Char) : Bool := '0' ≤ c && c ≤ '9'

/-- Whether a character may stand in the name of an anchor, a directive or a tag handle. -/
def isWord (c : Char) : Bool :=
  isDigit c || ('A' ≤ c && c ≤ 'Z') || ('a' ≤ c && c ≤ 'z') || c = '-' || c = '_'

/-- Whether a character is one of those that begin and end collections in flow style, or the comma
between their items. -/
def isFlowIndicator (c : Char) : Bool :=
  c = ',' || c = '[' || c = ']' || c = '\x7b' || c = '\x7d'

/-- Whether a character may stand in a text at all. -/
def isAllowed (c : Char) : Bool :=
  let n := c.toNat
  n = 0x09 || n = 0x0A || n = 0x0D || (0x20 ≤ n && n ≤ 0x7E) || n = 0x85
    || (0xA0 ≤ n && n ≤ 0xD7FF) || (0xE000 ≤ n && n ≤ 0xFFFD) || 0x10000 ≤ n

end Treeline.Yaml
