import Treeline.Yaml.Problem

/-!
# Cursors

A cursor is a place in a text: what is left to read, and the mark of where that begins. Each step
returns the cursor behind what it read.
-/

namespace Treeline.Yaml

/-- What is left of a text, and where it begins. -/
structure Cursor where
  rest : List Char
  mark : Mark
  deriving DecidableEq

namespace Cursor

def ofText (text : List Char) : Cursor := ⟨text, .start⟩

def char (c : Cursor) : Char := c.rest.head?.getD endOfText

/-- The character after `count` others. -/
def charAt (c : Cursor) (count : Nat) : Char := c.rest[count]?.getD endOfText

def column (c : Cursor) : Nat := c.mark.column

def next (c : Cursor) : Cursor :=
  match c.rest with
  | [] => c
  | x :: rest => ⟨rest, c.mark.next x rest⟩

def skip (c : Cursor) : (count : Nat) → Cursor
  | 0 => c
  | count + 1 => c.next.skip count

/-- The cursor behind the characters at the front that satisfy `p`. -/
def skipFrom (p : Char → Bool) : List Char → Mark → Cursor
  | [], m => ⟨[], m⟩
  | x :: rest, m => if p x then skipFrom p rest (m.next x rest) else ⟨x :: rest, m⟩

def skipWhile (c : Cursor) (p : Char → Bool) : Cursor := skipFrom p c.rest c.mark

def takeWhile (c : Cursor) (p : Char → Bool) : List Char := c.rest.takeWhile p

def skipSpaces (c : Cursor) : Cursor := c.skipWhile (· = ' ')

/-- Passes over what is left of a line. -/
def skipLine (c : Cursor) : Cursor := c.skipWhile fun x => !isBreak x

/-- Passes over a comment, if one begins here. -/
def skipComment (c : Cursor) : Cursor := if c.char = '#' then c.skipLine else c

/-- Reads a line break. The breaks of other systems read as a line feed. -/
def break? (c : Cursor) : Option (Char × Cursor) :=
  match c.rest with
  | '\r' :: '\n' :: _ => some ('\n', c.skip 2)
  | x :: _ =>
    if x = '\r' ∨ x = '\n' ∨ x = '\u0085' then some ('\n', c.next)
    else if isBreak x then some (x, c.next)
    else none
  | [] => none

def skipBreak (c : Cursor) : Cursor :=
  match c.break? with
  | some (_, c) => c
  | none => c

/-- Whether the given three characters stand here and a blank or the end comes after them. -/
def isSeparator (c : Cursor) (x : Char) : Bool :=
  match c.rest with
  | a :: b :: d :: rest =>
    a = x && b = x && d = x && isBlankOrEnd (rest.head?.getD endOfText)
  | _ => false

/-- Whether the line that starts here separates documents. -/
def isDocumentSeparator (c : Cursor) : Bool := c.isSeparator '-' || c.isSeparator '.'

end Cursor

/-- Passes over spaces and a comment up to the end of a line, and over its end. -/
def endLine (context : Context) (start : Mark) (c : Cursor) : Result Cursor :=
  let c := c.skipSpaces.skipComment
  if isLineEnd c.char then .ok c.skipBreak
  else refuseIn context start (.expected .endOfLine c.char) c.mark

end Treeline.Yaml
