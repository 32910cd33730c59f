import Treeline.Yaml.Cursor

/-!
# Text in quotes

Between single quotes a quote is written twice and nothing else is special. Between double quotes a
backslash begins an escape. In both, a single line break becomes a space, further ones are kept, and
blanks around line breaks are dropped.
-/

namespace Treeline.Yaml.Token

/-- The character that a letter behind a backslash stands for. -/
def shortEscape? : Char → Option Char
  | '0' => some '\x00'
  | 'a' => some '\x07'
  | 'b' => some '\x08'
  | 't' | '\t' => some '\t'
  | 'n' => some '\n'
  | 'v' => some '\x0B'
  | 'f' => some '\x0C'
  | 'r' => some '\r'
  | 'e' => some '\x1B'
  | ' ' => some ' '
  | '\x22' => some '\x22'
  | '\\' => some '\\'
  | '/' => some '/'
  | 'N' => some '\u0085'
  | '_' => some '\u00A0'
  | 'L' => some '\u2028'
  | 'P' => some '\u2029'
  | _ => none

/-- How many hexadecimal digits follow a letter behind a backslash. -/
def escapeWidth? : Char → Option Nat
  | 'x' => some 2
  | 'u' => some 4
  | 'U' => some 8
  | _ => none

/-- Why a code above the last character gives none. -/
def codeFault (code : Nat) : Fault := if 0x7FFFFFFF < code then .hugeCode else .characterCode

/-- The character with a code. No character stands for half of a surrogate pair, so the code of one
gives the replacement character. -/
def characterOf (code : Nat) : Result (List Char) :=
  if 0x10FFFF < code then .error (.fault (codeFault code))
  else if code.isValidChar then .ok [Char.ofNat code]
  else .ok ['\uFFFD']

/-- Reads the hexadecimal digits of an escape. -/
def readCode (start : Mark) (width : Nat) (c : Cursor) : Result (List Char × Cursor) := do
  let digits := c.rest.take width
  match digits.find? fun x => (Text.hexValue? x).isNone with
  | some x => refuseIn .doubleQuoted start (.expected (.hexDigits width) x) c.mark
  | none =>
    if digits.length < width then
      refuseIn .doubleQuoted start (.expected (.hexDigits width) endOfText) c.mark
    else return (← characterOf (Text.hexNumber digits), c.skip width)

/-- Reads line breaks and the blanks around them. -/
def readFoldedBreaks (start : Mark) : (fuel : Nat) → Cursor → Result (List Char × Cursor)
  | 0, c => .ok ([], c)
  | fuel + 1, c =>
    if c.isDocumentSeparator then refuseIn .quoted start .documentSeparator c.mark
    else
      let c := c.skipWhile isBlank
      match c.break? with
      | none => .ok ([], c)
      | some (x, after) => do
        let (breaks, after) ← readFoldedBreaks start fuel after
        return (x :: breaks, after)

/-- Reads blanks, and a line break if one comes behind them. -/
def readBlanks (start : Mark) (c : Cursor) : Result (List Char × Cursor) :=
  let after := c.skipWhile isBlank
  if after.char = endOfText then refuseIn .quoted start .endOfStream after.mark
  else match after.break? with
    | none => .ok (c.takeWhile isBlank, after)
    | some (x, after) => do
      let (breaks, after) ← readFoldedBreaks start (after.rest.length + 1) after
      let first := if x ≠ '\n' then [x] else if breaks.isEmpty then [' '] else []
      return (first ++ breaks, after)

/-- Reads what follows a backslash. -/
def readEscape (start : Mark) (c : Cursor) : Result (List Char × Cursor) :=
  match shortEscape? c.char, escapeWidth? c.char with
  | some x, _ => .ok ([x], c.next)
  | none, some width => readCode start width c.next
  | none, none =>
    match c.break? with
    | some (_, after) => readFoldedBreaks start (after.rest.length + 1) after
    | none => refuseIn .doubleQuoted start (.unknownEscape c.char) c.mark

/-- Reads one character, escape or run of blanks. -/
def readPiece (isDouble : Bool) (start : Mark) (c : Cursor) : Result (List Char × Cursor) :=
  if isBlankOrEnd c.char then readBlanks start c
  else if isDouble && c.char = '\\' then readEscape start c.next
  else if !isDouble && c.char = '\x27' then .ok (['\x27'], c.skip 2)
  else .ok ([c.char], c.next)

/-- Whether the quote stands here that ends the text. -/
def isClosed (isDouble : Bool) (c : Cursor) : Bool :=
  if isDouble then c.char = '\x22' else c.char = '\x27' && c.charAt 1 ≠ '\x27'

/-- Reads text up to the quote that ends it. -/
def readPieces (isDouble : Bool) (start : Mark) :
    (fuel : Nat) → Cursor → Result (List Char × Cursor)
  | 0, c => .ok ([], c)
  | fuel + 1, c =>
    if isClosed isDouble c then .ok ([], c)
    else do
      let (piece, c) ← readPiece isDouble start c
      let (rest, c) ← readPieces isDouble start fuel c
      return (piece ++ rest, c)

def readQuotedText (isDouble : Bool) (c : Cursor) : Result (Token × Cursor) := do
  let (text, after) ← readPieces isDouble c.mark (c.rest.length + 1) c.next
  let after := after.next
  return (⟨.scalar (String.ofList text) false, c.mark, after.mark⟩, after)

end Treeline.Yaml.Token
