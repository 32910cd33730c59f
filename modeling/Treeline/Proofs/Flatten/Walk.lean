import Treeline.Flatten
import Treeline.Proofs.Tree.Children

/-!
# The walk and the recursion

The walk keeps the nodes that are still to be visited in one list, in which the children of many
levels stand side by side. What it still has to show is therefore what the recursion shows for the
visits of that list, one after another; every step keeps this, and for a single visit it says that
the walk and the recursion agree.
-/

namespace Treeline

namespace Visit

/-- What the recursion shows for a visit. -/
def flatten (pruned : List String) (visit : Visit) : List Emission :=
  visit.node.flattenAt pruned visit.path visit.levels

theorem flatMap_flatten_ofItems (pruned : List String) (path : Path) (levels : Option Nat)
    (position : Nat) (items : List Tree) :
    (ofItems path levels position items).flatMap (flatten pruned) =
      Tree.flattenItems pruned path levels position items := by
  induction items generalizing position with
  | nil => rfl
  | cons item rest ih => rw [ofItems, List.flatMap_cons, ih, Tree.flattenItems, flatten]

theorem flatMap_flatten_ofEntries (options : FlattenOptions) (path : Path) (levels : Option Nat)
    (entries : List (String × Tree)) :
    (ofEntries path levels (options.kept entries)).flatMap (flatten options.pruned) =
      Tree.flattenEntries options.pruned path levels entries := by
  induction entries with
  | nil => rfl
  | cons entry rest ih =>
    rw [Tree.flattenEntries]
    by_cases hkey : entry.1 ∈ options.pruned
    · rw [FlattenOptions.kept_cons_of_mem hkey, ih, if_pos (by simpa using hkey)]
    · rw [FlattenOptions.kept_cons_of_not_mem hkey, if_neg (by simpa using hkey), ← ih]
      rfl

end Visit

theorem walk_eq_flatMap (options : FlattenOptions) (visits : List Visit) :
    walk options visits = visits.flatMap (Visit.flatten options.pruned) := by
  fun_induction walk options visits with
  | case1 => rfl
  | case2 text path levels rest ih =>
    rw [ih, List.flatMap_cons, Visit.flatten, Tree.flattenAt, List.singleton_append]
  | case3 items path rest ih =>
    rw [ih, List.flatMap_cons, Visit.flatten, Tree.flattenAt, if_pos rfl, List.singleton_append]
  | case4 items path levels rest hlevels ih =>
    rw [ih, List.flatMap_append, Visit.flatMap_flatten_ofItems, List.flatMap_cons, Visit.flatten,
      Tree.flattenAt, if_neg hlevels]
  | case5 entries path rest ih =>
    rw [ih, List.flatMap_cons, Visit.flatten, Tree.flattenAt, if_pos rfl, List.singleton_append]
  | case6 entries path levels rest hlevels ih =>
    rw [ih, List.flatMap_append, Visit.flatMap_flatten_ofEntries, List.flatMap_cons,
      Visit.flatten, Tree.flattenAt, if_neg hlevels]

theorem emissions_eq_flatten (node : Tree) (path : Path) (options : FlattenOptions) :
    emissions node path options = node.flatten path options := by
  rw [emissions, walk_eq_flatMap, List.flatMap_singleton]
  rfl

/-! ### The recursion by children -/

/-- Whether what a segment leads to is left out. -/
def Segment.isPruned (pruned : List String) : Segment → Bool
  | .field name => pruned.contains name
  | .index _ => false

theorem Segment.isPruned_eq_true_iff {pruned : List String} {segment : Segment} :
    segment.isPruned pruned = true ↔ ∃ name ∈ pruned, segment = .field name := by
  cases segment <;> simp [isPruned, eq_comm]

namespace Tree

/-- The children of a node that are not left out. -/
def keptChildren (pruned : List String) (t : Tree) : List (Segment × Tree) :=
  t.children.filter fun child => !child.1.isPruned pruned

@[simp] theorem keptChildren_nil (t : Tree) : t.keptChildren [] = t.children := by
  refine List.filter_eq_self.2 fun child _ => ?_
  cases child.1 <;> rfl

theorem keptChildren_sequence (pruned : List String) (items : List Tree) :
    (sequence items).keptChildren pruned = (sequence items).children := by
  refine List.filter_eq_self.2 fun child hchild => ?_
  obtain ⟨item, -, rfl⟩ := List.mem_map.1 hchild
  rfl

theorem keptChildren_mapping (pruned : List String) (entries : List (String × Tree)) :
    (mapping entries).keptChildren pruned =
      (entries.filter fun entry => !pruned.contains entry.1).map fun entry =>
        (.field entry.1, entry.2) := by
  rw [keptChildren, children, List.filter_map]
  rfl

/-- What stands for a container below the limit. -/
def placeholder : Tree → String
  | .sequence _ => arrayPlaceholder
  | _ => objectPlaceholder

theorem placeholder_eq {s t : Tree} (hkind : s.kind = t.kind) : s.placeholder = t.placeholder := by
  cases s <;> cases t <;> cases hkind <;> rfl

variable (pruned : List String) (path : Path) (levels : Option Nat)

theorem flattenItems_eq_flatMap (position : Nat) (items : List Tree) :
    flattenItems pruned path levels position items =
      (items.zipIdx position).flatMap fun item =>
        item.1.flattenAt pruned (path ++ [.index item.2]) levels := by
  induction items generalizing position with
  | nil => rfl
  | cons item rest ih => rw [flattenItems, ih, List.zipIdx_cons, List.flatMap_cons]

theorem flattenEntries_eq_flatMap (entries : List (String × Tree)) :
    flattenEntries pruned path levels entries =
      (entries.filter fun entry => !pruned.contains entry.1).flatMap fun entry =>
        entry.2.flattenAt pruned (path ++ [.field entry.1]) levels := by
  induction entries with
  | nil => rfl
  | cons entry rest ih =>
    rw [flattenEntries, ih]
    by_cases hkey : pruned.contains entry.1 = true
    · rw [if_pos hkey, List.filter_cons_of_neg (by simpa using hkey)]
    · rw [if_neg hkey, List.filter_cons_of_pos (by simpa using hkey), List.flatMap_cons]

theorem flattenAt_container {t : Tree} (ht : t.kind ≠ .scalar) :
    t.flattenAt pruned path levels =
      if levels = some 0 then [⟨path, t.placeholder⟩]
      else (t.keptChildren pruned).flatMap fun child =>
        child.2.flattenAt pruned (path ++ [child.1]) (levels.map (· - 1)) := by
  cases t with
  | scalar text => exact absurd rfl ht
  | sequence items =>
    rw [flattenAt, flattenItems_eq_flatMap, keptChildren_sequence, children, List.flatMap_map]
    rfl
  | mapping entries =>
    rw [flattenAt, flattenEntries_eq_flatMap, keptChildren_mapping, List.flatMap_map]
    rfl

end Tree

/-- The same emission further down, behind a path that leads there. -/
def Emission.under (before : Path) (e : Emission) : Emission := ⟨before ++ e.path, e.value⟩

/-- A node shows the same at every path, apart from the path itself. -/
theorem Tree.flattenAt_append (pruned : List String) (before path : Path) (levels : Option Nat)
    (t : Tree) :
    t.flattenAt pruned (before ++ path) levels =
      (t.flattenAt pruned path levels).map (Emission.under before) := by
  induction t using Tree.induction_on_children generalizing path levels with
  | scalar text => rfl
  | container t ht ih =>
    rw [flattenAt_container pruned _ levels ht, flattenAt_container pruned path levels ht]
    split
    · rfl
    · rw [List.map_flatMap]
      refine List.flatMap_congr fun child hchild => ?_
      rw [List.append_assoc]
      exact ih child.2 (mem_values_of_mem_children (List.mem_of_mem_filter hchild)) _ _

theorem Tree.flattenAt_eq_map_under (pruned : List String) (path : Path) (levels : Option Nat)
    (t : Tree) :
    t.flattenAt pruned path levels = (t.flattenAt pruned [] levels).map (.under path) := by
  rw [← flattenAt_append, List.append_nil]

theorem emissions_eq_map_under (node : Tree) (path : Path) (options : FlattenOptions) :
    emissions node path options = (emissions node [] options).map (.under path) := by
  rw [emissions_eq_flatten, emissions_eq_flatten]
  exact Tree.flattenAt_eq_map_under _ path _ node

end Treeline
