/-!
# Paths

A path leads from the root of a document to a node inside it. Each segment is the name of a field of
a mapping or the position of an item of a sequence. Positions are integers: a negative one can be
written down, and no item stands there.
-/

namespace Treeline

/-- One step down a document. -/
inductive Segment
  | field (name : String)
  | index (position : Int)
  deriving DecidableEq

/-- The steps from a root to a node. -/
abbrev Path := List Segment

end Treeline
