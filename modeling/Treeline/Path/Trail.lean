import Treeline.Documents

/-!
# Trails

A trail is a path that may be followed by something that is not a segment. The segments before it
count; reaching it is a fault. What comes after it is never looked at.
-/

namespace Treeline

/-- A path, and the text that stands where a segment should, if there is one. -/
structure Trail where
  path : Path
  stray : Option String

namespace Trail

def ofPath (path : Path) : Trail := ⟨path, none⟩

/-- What is wrong at the end of a trail. -/
def finish {ε α : Type} (trail : Trail) (a : α) : Except (Stop ε) α :=
  match trail.stray with
  | none => .ok a
  | some text => .error (.fault (.straySegment text))

def render {ε : Type} (trail : Trail) : Except (Stop ε) String :=
  match trail.path.render with
  | .error fault => .error (.fault fault)
  | .ok text => trail.finish text

def line {ε : Type} (trail : Trail) (value : String) : Except (Stop ε) String :=
  trail.render.map fun text => text ++ ": " ++ value

def resolve (root : Tree) (trail : Trail) : Except (Stop Unresolved) Tree := do
  trail.finish (← root.resolve trail.path)

/-- The lines for a node at a trail. The trail is only written if there is a line to write. -/
def lines {ε : Type} (node : Tree) (trail : Trail) (options : FlattenOptions) :
    Output (Stop ε) :=
  match trail.render with
  | .ok _ => ⟨Treeline.lines node trail.path options, none⟩
  | .error stop => ⟨[], if (emissions node trail.path options).isEmpty then none else some stop⟩

/-- Flattens documents from the nodes that a trail leads to. -/
def documents (roots : List Tree) (trail : Trail) (options : FlattenOptions) (absolute : Bool) :
    Output (Stop Unresolved) :=
  documentsFrom (trail.resolve ·) (decide (1 < roots.length))
    (if absolute then trail.path else []) options 0 roots

end Trail

end Treeline
