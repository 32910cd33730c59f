import Treeline.Flatten
import Treeline.Resolve

/-!
# Flattening several documents

The same path is followed in each of some documents, and each is flattened from there. If there are
several, the lines of each begin with its number. The first document in which the path cannot be
followed ends the output.
-/

namespace Treeline

/-- Lines, and the error that ended them if one did. -/
structure Output (ε : Type) where
  lines : List String
  stopped : Option ε

namespace Output

def empty {ε : Type} : Output ε := ⟨[], none⟩

/-- Lines before others. -/
def after {ε : Type} (lines : List String) (rest : Output ε) : Output ε :=
  ⟨lines ++ rest.lines, rest.stopped⟩

/-- All the lines, unless an error ended them. -/
def toExcept {ε : Type} (output : Output ε) : Except ε (List String) :=
  match output.stopped with
  | none => .ok output.lines
  | some e => .error e

end Output

/-- The segment that tells the document with a number from the others. -/
def documentLabel (number : Nat) : Segment := .field ("doc" ++ Numeral.text number)

/-- Flattens documents from a number on. `start` gives the node to flatten from. -/
def documentsFrom {ε : Type} (start : Tree → Except ε Tree) (isMany : Bool) (entry : Path)
    (options : FlattenOptions) : (number : Nat) → List Tree → Output ε
  | _, [] => .empty
  | number, root :: rest =>
    match start root with
    | .error e => ⟨[], some e⟩
    | .ok node =>
      let label := if isMany then [documentLabel number] else []
      .after (lines node (label ++ entry) options)
        (documentsFrom start isMany entry options (number + 1) rest)

/-- Flattens documents from the nodes that a path leads to. The lines of an absolute output begin
with that path. -/
def documents (roots : List Tree) (path : Path) (options : FlattenOptions) (absolute : Bool) :
    Output (Stop Unresolved) :=
  documentsFrom (·.resolve path) (decide (1 < roots.length)) (if absolute then path else [])
    options 0 roots

end Treeline
