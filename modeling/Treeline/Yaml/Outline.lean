import Treeline.Yaml.Tag

/-!
# Outlines

What a document will be written as: scalars with their tags, and collections. A collection that can
occur again has a label; where it does, only the label stands.
-/

namespace Treeline.Yaml

/-- What is to be written. -/
inductive Outline
  | scalar (tag : String) (text : List Char)
  | sequence (label : Option Nat) (items : List Outline)
  | mapping (label : Option Nat) (tag : String) (entries : List (Outline × Outline))
  | again (label : Nat)

namespace Outline

mutual

/-- The labels that stand for collections, in order. -/
def uses : Outline → List Nat
  | .scalar _ _ => []
  | .sequence _ items => usesItems items
  | .mapping _ _ entries => usesEntries entries
  | .again label => [label]

def usesItems : List Outline → List Nat
  | [] => []
  | item :: rest => uses item ++ usesItems rest

def usesEntries : List (Outline × Outline) → List Nat
  | [] => []
  | (key, value) :: rest => uses key ++ (uses value ++ usesEntries rest)

end

/-- The labels that need an anchor, in the order in which the anchors are numbered. -/
def anchored (o : Outline) : List Nat := o.uses.foldl (fun done l =>
  if done.contains l then done else done ++ [l]) []

end Outline

def anchorName (number : Nat) : List Char := 'i' :: 'd' :: Numeral.padded 3 number

end Treeline.Yaml
