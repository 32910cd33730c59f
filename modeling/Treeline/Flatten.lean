import Treeline.Path.Render
import Treeline.Tree

/-!
# Flattening a document

A document is written as one line for each scalar: the path that leads there and the text that
stands there. Keys can be pruned, which leaves out everything below them, and the depth can be
limited, which shows a container below the limit as one placeholder. A scalar uses up no level.

The lines are given twice. `flatten` follows the structure of the document. `walk` keeps the nodes
that are still to be visited in a list and takes the first one in each step; it is what runs.
-/

namespace Treeline

/-- What is left out of the output. -/
structure FlattenOptions where
  /-- How many levels are shown. Below zero, or if missing, all of them. -/
  maxDepth : Option Int
  /-- The keys that are left out, with everything below them. -/
  pruned : List String

namespace FlattenOptions

/-- All levels and all keys. -/
def all : FlattenOptions := ⟨none, []⟩

/-- The number of levels to show, if there is a limit. -/
def levels (options : FlattenOptions) : Option Nat :=
  options.maxDepth.bind fun depth => if depth < 0 then none else some depth.toNat

def isUnlimited (options : FlattenOptions) : Bool := options.levels.isNone

/-- The entries that are not pruned. -/
def kept (options : FlattenOptions) (entries : List (String × Tree)) : List (String × Tree) :=
  entries.filter fun entry => !options.pruned.contains entry.1

theorem kept_cons_of_mem {options : FlattenOptions} {entry : String × Tree}
    (h : entry.1 ∈ options.pruned) (rest : List (String × Tree)) :
    options.kept (entry :: rest) = options.kept rest := by
  simp [kept, h]

theorem kept_cons_of_not_mem {options : FlattenOptions} {entry : String × Tree}
    (h : entry.1 ∉ options.pruned) (rest : List (String × Tree)) :
    options.kept (entry :: rest) = entry :: options.kept rest := by
  simp [kept, h]

end FlattenOptions

/-- What stands for a mapping below the limit. -/
def objectPlaceholder : String := "<object>"

/-- What stands for a sequence below the limit. -/
def arrayPlaceholder : String := "<array>"

/-- A path and the text to show for it. -/
structure Emission where
  path : Path
  value : String
  deriving DecidableEq

def Emission.line (e : Emission) : String := e.path.line e.value

namespace Tree

mutual

/-- The output for a node at a path, with a number of levels left. -/
def flattenAt (pruned : List String) (path : Path) (levels : Option Nat) : Tree → List Emission
  | .scalar text => [⟨path, text⟩]
  | .sequence items =>
    if levels = some 0 then [⟨path, arrayPlaceholder⟩]
    else flattenItems pruned path (levels.map (· - 1)) 0 items
  | .mapping entries =>
    if levels = some 0 then [⟨path, objectPlaceholder⟩]
    else flattenEntries pruned path (levels.map (· - 1)) entries

def flattenItems (pruned : List String) (path : Path) (levels : Option Nat) (position : Nat) :
    List Tree → List Emission
  | [] => []
  | item :: rest =>
    flattenAt pruned (path ++ [.index position]) levels item
      ++ flattenItems pruned path levels (position + 1) rest

def flattenEntries (pruned : List String) (path : Path) (levels : Option Nat) :
    List (String × Tree) → List Emission
  | [] => []
  | (key, value) :: rest =>
    if pruned.contains key then flattenEntries pruned path levels rest
    else flattenAt pruned (path ++ [.field key]) levels value
      ++ flattenEntries pruned path levels rest

end

/-- The output for a node, by recursion on its structure. -/
def flatten (node : Tree) (path : Path) (options : FlattenOptions) : List Emission :=
  node.flattenAt options.pruned path options.levels

end Tree

/-- A node that is still to be visited, its path and the number of levels left. -/
structure Visit where
  node : Tree
  path : Path
  levels : Option Nat

namespace Visit

def ofItems (path : Path) (levels : Option Nat) : Nat → List Tree → List Visit
  | _, [] => []
  | position, item :: rest =>
    ⟨item, path ++ [.index position], levels⟩ :: ofItems path levels (position + 1) rest

def ofEntries (path : Path) (levels : Option Nat) (entries : List (String × Tree)) : List Visit :=
  entries.map fun entry => ⟨entry.2, path ++ [.field entry.1], levels⟩

/-- The number of nodes that some visits lead to. -/
def work : List Visit → Nat
  | [] => 0
  | visit :: rest => visit.node.size + work rest

@[simp] theorem work_append (xs ys : List Visit) : work (xs ++ ys) = work xs + work ys := by
  induction xs with
  | nil => simp [work]
  | cons x xs ih => simp [work, ih, Nat.add_assoc]

@[simp] theorem work_ofItems (path : Path) (levels : Option Nat) (position : Nat)
    (items : List Tree) : work (ofItems path levels position items) = Tree.sizeItems items := by
  induction items generalizing position with
  | nil => rfl
  | cons item rest ih => simp [ofItems, work, Tree.sizeItems, ih]

theorem work_ofEntries_kept_le (options : FlattenOptions) (path : Path) (levels : Option Nat)
    (entries : List (String × Tree)) :
    work (ofEntries path levels (options.kept entries)) ≤ Tree.sizeEntries entries := by
  induction entries with
  | nil => exact Nat.le_refl 0
  | cons entry rest ih =>
    by_cases h : entry.1 ∈ options.pruned
    · rw [FlattenOptions.kept_cons_of_mem h]
      exact Nat.le_trans ih (Nat.le_add_left _ _)
    · rw [FlattenOptions.kept_cons_of_not_mem h]
      exact Nat.add_le_add_left ih _

end Visit

/-- Visits nodes in order; the children of a container are visited before what follows it. -/
def walk (options : FlattenOptions) : List Visit → List Emission
  | [] => []
  | ⟨.scalar text, path, _⟩ :: rest => ⟨path, text⟩ :: walk options rest
  | ⟨.sequence items, path, levels⟩ :: rest =>
    if levels = some 0 then ⟨path, arrayPlaceholder⟩ :: walk options rest
    else walk options (Visit.ofItems path (levels.map (· - 1)) 0 items ++ rest)
  | ⟨.mapping entries, path, levels⟩ :: rest =>
    if levels = some 0 then ⟨path, objectPlaceholder⟩ :: walk options rest
    else walk options
      (Visit.ofEntries path (levels.map (· - 1)) (options.kept entries) ++ rest)
termination_by visits => Visit.work visits
decreasing_by
  · exact Nat.lt_add_of_pos_left (Tree.size_pos _)
  · exact Nat.lt_add_of_pos_left (Tree.size_pos _)
  · rw [Visit.work_append, Visit.work_ofItems]
    exact Nat.add_lt_add_right (Nat.lt_succ_self _) _
  · exact Nat.lt_add_of_pos_left (Tree.size_pos _)
  · rw [Visit.work_append]
    exact Nat.add_lt_add_right
      (Nat.lt_succ_of_le (Visit.work_ofEntries_kept_le options path _ entries)) _

/-- The output for a node at a path. -/
def emissions (node : Tree) (path : Path) (options : FlattenOptions) : List Emission :=
  walk options [⟨node, path, options.levels⟩]

def lines (node : Tree) (path : Path) (options : FlattenOptions) : List String :=
  (emissions node path options).map Emission.line

end Treeline
