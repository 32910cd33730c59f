import Treeline.Fault
import Treeline.Path

/-!
# Paths as text

Fields are joined with dots, and an index in square brackets is attached to what stands before it,
as in `spec.containers[0].image`. The first segment has nothing before it and gets no dot.
-/

namespace Treeline.Path

/-- A segment as it stands after another one. -/
def segmentText : Segment → List Char
  | .field name => '.' :: name.toList
  | .index position => '[' :: (Numeral.ofInt position ++ [']'])

/-- Segments as they stand after another one. -/
def continued (path : Path) : List Char := path.flatMap segmentText

def chars : Path → List Char
  | .field name :: rest => name.toList ++ continued rest
  | path => continued path

def text (path : Path) : String := String.ofList path.chars

/-- A line of output: a path and the value that stands there. -/
def line (path : Path) (value : String) : String := path.text ++ ": " ++ value

/-- Whether every index of a path is short enough to be written. -/
def isWritable (path : Path) : Bool :=
  path.all fun
    | .field _ => true
    | .index position => Numeral.isShort position

/-- The text of a path whose indices can be written. -/
def render (path : Path) : Except Fault String :=
  if path.isWritable then .ok path.text else .error .longNumber

end Treeline.Path
