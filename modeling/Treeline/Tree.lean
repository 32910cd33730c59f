/-!
# Document trees

A document is a tree of three kinds of nodes. Scalars hold their text as it was written, sequences
hold items in order, and mappings hold entries in order under text keys. A mapping that comes from a
document has distinct keys; the operations here ask for nothing, and the first of two equal keys
counts.
-/

namespace Treeline

/-- A document. -/
inductive Tree
  | scalar (text : String)
  | sequence (items : List Tree)
  | mapping (entries : List (String × Tree))

namespace Tree

instance : Inhabited Tree := ⟨.mapping []⟩

/-- The first of some entries that stands under a key. -/
def lookup (key : String) (entries : List (String × Tree)) : Option Tree :=
  (entries.find? (·.1 == key)).map (·.2)

/-- The kinds of nodes. -/
inductive Kind
  | scalar
  | sequence
  | mapping
  deriving DecidableEq

def kind : Tree → Kind
  | .scalar _ => .scalar
  | .sequence _ => .sequence
  | .mapping _ => .mapping

def keys? : Tree → Option (List String)
  | .mapping entries => some (entries.map (·.1))
  | _ => none

/-- The number of items or entries of a node that can have any. -/
def length? : Tree → Option Nat
  | .scalar _ => none
  | .sequence items => some items.length
  | .mapping entries => some entries.length

mutual

/-- The number of nodes. -/
def size : Tree → Nat
  | .scalar _ => 1
  | .sequence items => sizeItems items + 1
  | .mapping entries => sizeEntries entries + 1

def sizeItems : List Tree → Nat
  | [] => 0
  | item :: rest => size item + sizeItems rest

def sizeEntries : List (String × Tree) → Nat
  | [] => 0
  | (_, value) :: rest => size value + sizeEntries rest

end

theorem size_pos (t : Tree) : 0 < t.size := by
  cases t <;> simp [size]

end Tree

end Treeline
