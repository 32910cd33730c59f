import Treeline.Tree
import Treeline.Yaml.Graph
import Treeline.Yaml.Tag

/-!
# Trees from graphs

A graph becomes a tree by following each alias to the node it refers to. That must come to an end: a
node may not lie below itself, no node may lie deeper than `maxDepth`, and the tree may not have
more nodes than a limit. Keys must be scalars, and the keys of a mapping must differ. A key does not
count as a node of the tree.
-/

namespace Treeline

open Yaml (Graph Node)

/-- How many levels a document may have below its root. -/
def maxDepth : Nat := 256

/-- How many nodes a document may expand to. -/
def maxNodes : Int := 1000000

/-- Why a graph does not become a tree. Lines are counted from zero. -/
inductive UnfoldError
  | tooDeep
  | recursive (line : Nat)
  | tooLarge (limit : Int)
  | keyNotScalar (line : Nat)
  | duplicateKey (key : String) (line : Nat)
  deriving DecidableEq

def UnfoldError.message : UnfoldError → String
  | .tooDeep => "document is nested deeper than " ++ Numeral.text maxDepth ++ " levels"
  | .recursive line => "recursive alias at line " ++ Numeral.text (line + 1)
  | .tooLarge limit =>
    "document expands to more than " ++ Numeral.intText limit ++ " nodes"
  | .keyNotScalar line => "unsupported non-scalar mapping key at line " ++ Numeral.text (line + 1)
  | .duplicateKey key line =>
    "mapping key " ++ Text.quoted key ++ " already defined at line " ++ Numeral.text (line + 1)

namespace Unfold

/-- A step of unfolding. The state is the number of nodes so far. -/
abbrev Step := StateT Nat (Except UnfoldError)

def count (limit : Int) : Step Unit := do
  let n ← get
  if limit < n + 1 then throw (.tooLarge limit)
  set (n + 1)

/-- The text of a key that differs from those before it. -/
def newKey (key : Node) (seen : List String) : Step String :=
  match key.content with
  | .scalar text =>
    if seen.contains text then throw (.duplicateKey text key.mark.line) else return text
  | _ => throw (.keyNotScalar key.mark.line)

/-- Unfolds entries in order. `seen` are the keys before them. -/
def entries (unfold : Nat → Step Tree) (g : Graph) (seen : List String) :
    List (Nat × Nat) → Step (List (String × Tree))
  | [] => return []
  | (key, value) :: rest => do
    let text ← newKey (g.node key) seen
    let tree ← unfold value
    return (text, tree) :: (← entries unfold g (text :: seen) rest)

/-- Unfolds a node. `levels` is the number of levels that may begin here, and `active` are the nodes
that it lies below. -/
def node (g : Graph) (limit : Int) : (levels : Nat) → (active : List Nat) → Nat → Step Tree
  | 0, _, _ => throw .tooDeep
  | levels + 1, active, id => do
    if active.contains id then throw (.recursive (g.node id).mark.line)
    count limit
    let below := node g limit levels (id :: active)
    match (g.node id).content with
    | .scalar text => return .scalar text
    | .sequence items => return .sequence (← items.mapM below)
    | .mapping pairs => return .mapping (← entries below g [] pairs)

end Unfold

/-- The tree of a graph, with at most `limit` nodes. -/
def unfold (limit : Int) (g : Graph) : Except UnfoldError Tree :=
  ((Unfold.node g limit (maxDepth + 1) [] g.root).run 0).map (·.1)

end Treeline
