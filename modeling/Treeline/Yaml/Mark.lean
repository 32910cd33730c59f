import Treeline.Numeral
import Treeline.Yaml.Character

/-!
# Marks

A mark is a position in a text. Lines and columns are counted from zero, and a byte order mark takes
up no column. Messages show a mark by the name of the text, its line and its column, and, where the
text is at hand, by the part of the line around it with a caret below.
-/

namespace Treeline.Yaml

/-- A position in a text. -/
structure Mark where
  index : Nat
  line : Nat
  column : Nat
  deriving DecidableEq

namespace Mark

def start : Mark := ⟨0, 0, 0⟩

/-- The position behind a character, given the text that follows it. A carriage return before a line
feed does not end the line. -/
def next (m : Mark) (c : Char) (rest : List Char) : Mark :=
  if isBreak c && !(c = '\r' && rest.head? = some '\n') then ⟨m.index + 1, m.line + 1, 0⟩
  else if c = '\uFEFF' then ⟨m.index + 1, m.line, m.column⟩
  else ⟨m.index + 1, m.line, m.column + 1⟩

end Mark

/-- Where a text comes from, and whether messages may show a part of it. -/
structure Source where
  name : String
  text : List Char
  isShown : Bool

namespace Source

/-- How far the part of a line that is shown may reach to either side. -/
def reach : Nat := 37

/-- How many characters make room for the ellipsis where a line is cut. -/
def cut : Nat := 5

def ellipsis : List Char := [' ', '.', '.', '.', ' ']

/-- How far the line is shown to one side, given the characters on that side, nearest first, and the
ellipsis if it is cut there. -/
def side (cs : List Char) : List Char × List Char :=
  let line := cs.takeWhile fun c => !isLineEnd c
  if line.length < reach then (line, []) else (line.take (reach - cut), ellipsis)

/-- The part of the line around a mark, and a caret below the mark. -/
def excerpt (source : Source) (m : Mark) : String :=
  let (left, head) := side (source.text.take m.index).reverse
  let (right, tail) := side (source.text.drop m.index)
  String.ofList
    (List.replicate 4 ' ' ++ head ++ left.reverse ++ right ++ tail
      ++ '\n' :: List.replicate (4 + left.length + head.length) ' ' ++ ['^'])

/-- How messages show a mark. -/
def place (source : Source) (m : Mark) : String :=
  "  in \"" ++ source.name ++ "\", line " ++ Numeral.text (m.line + 1) ++ ", column "
    ++ Numeral.text (m.column + 1)
    ++ (if source.isShown then ":\n" ++ source.excerpt m else "")

end Source

end Treeline.Yaml
