import Treeline.Yaml.Problem

/-!
# Node graphs

What a document stands for before its values are made: nodes with tags, which refer to each other by
number. An alias refers to the node that its anchor names, so a node can have several parents, and
can be found below itself.
-/

namespace Treeline.Yaml

/-- What a node holds. Other nodes are given by their numbers. -/
inductive Content
  | scalar (text : String)
  | sequence (items : List Nat)
  | mapping (entries : List (Nat × Nat))
  deriving DecidableEq

def Content.kind : Content → NodeKind
  | .scalar _ => .scalar
  | .sequence _ => .sequence
  | .mapping _ => .mapping

/-- A node, and where it starts. -/
structure Node where
  tag : String
  mark : Mark
  content : Content
  deriving DecidableEq

/-- The nodes of a document. -/
structure Graph where
  nodes : Array Node
  root : Nat

def Node.empty : Node := ⟨"", .start, .scalar ""⟩

/-- The node with a number. Where there is none, an empty node stands. -/
def Graph.node (g : Graph) (id : Nat) : Node := g.nodes[id]?.getD .empty

def Graph.rootNode (g : Graph) : Node := g.node g.root

end Treeline.Yaml
