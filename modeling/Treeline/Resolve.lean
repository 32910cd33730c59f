import Treeline.Path.Render
import Treeline.Tree

/-!
# Following a path

Each segment is applied to the node that the segments before it lead to. The first one that cannot
be applied is reported together with the segments that could.
-/

namespace Treeline

/-- A segment that cannot be applied, and the segments that could be applied before it. -/
inductive Unresolved
  /-- The node is not a mapping or has no such key. -/
  | key (name : String) (resolved : Path)
  /-- No item stands at the position. The length is missing if the node is not a sequence. -/
  | index (position : Int) (length : Option Nat) (resolved : Path)
  deriving DecidableEq

def Unresolved.message : Unresolved → String
  | .key name _ => "key " ++ name ++ " not found"
  | .index position none _ =>
    "index [" ++ Numeral.intText position ++ "] applied to a node which is not a list"
  | .index position (some length) _ =>
    "index [" ++ Numeral.intText position ++ "] out of range (length " ++ Numeral.text length
      ++ ")"

namespace Tree

def itemAt (items : List Tree) (position : Int) : Option Tree :=
  if position < 0 then none else items[position.toNat]?

/-- The node that one segment leads to. -/
def child? : Tree → Segment → Option Tree
  | .mapping entries, .field name => lookup name entries
  | .sequence items, .index position => itemAt items position
  | _, _ => none

/-- The error of a segment that cannot be applied to a node. An index that is too long to be
written cannot be reported. -/
def unresolved (node : Tree) (resolved : Path) : Segment → Stop Unresolved
  | .field name => .reported (.key name resolved)
  | .index position =>
    if Numeral.isShort position then
      .reported (.index position
        (match node with | .sequence items => some items.length | _ => none) resolved)
    else .fault .longNumber

/-- Follows segments from a node that other segments lead to. -/
def resolveFrom (resolved : Path) : Tree → Path → Except (Stop Unresolved) Tree
  | node, [] => .ok node
  | node, segment :: rest =>
    match node.child? segment with
    | some child => resolveFrom (resolved ++ [segment]) child rest
    | none => .error (node.unresolved resolved segment)

/-- The node that a path leads to. -/
def resolve (root : Tree) (path : Path) : Except (Stop Unresolved) Tree :=
  resolveFrom [] root path

end Tree

end Treeline
