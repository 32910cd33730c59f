import Treeline.Proofs.Flatten.Stack
import Treeline.Proofs.Tree.Descent

/-!
# Depth limits

What is shown with a depth limit is what a cut document shows without one. A document is cut some
levels below its root: the text of a placeholder takes the place of each container that lies there,
and all that lies above it stays. A container uses up one level of the limit and one of the cut, and
a scalar none of either, so both run out at the same nodes. Nothing is cut off a document if no more
containers lie one inside the other than there are levels.
-/

namespace Treeline

namespace Tree

mutual

/-- A document in which a placeholder stands for each container that lies `n` levels down. -/
def cut : (n : Nat) → Tree → Tree
  | _, .scalar text => .scalar text
  | 0, .sequence _ => .scalar arrayPlaceholder
  | 0, .mapping _ => .scalar objectPlaceholder
  | n + 1, .sequence items => .sequence (cutItems n items)
  | n + 1, .mapping entries => .mapping (cutEntries n entries)

def cutItems (n : Nat) : List Tree → List Tree
  | [] => []
  | item :: rest => item.cut n :: cutItems n rest

def cutEntries (n : Nat) : List (String × Tree) → List (String × Tree)
  | [] => []
  | (key, value) :: rest => (key, value.cut n) :: cutEntries n rest

end

mutual

/-- The most containers that lie one inside the other, the root included. -/
def nesting : Tree → Nat
  | .scalar _ => 0
  | .sequence items => nestingItems items + 1
  | .mapping entries => nestingEntries entries + 1

def nestingItems : List Tree → Nat
  | [] => 0
  | item :: rest => max item.nesting (nestingItems rest)

def nestingEntries : List (String × Tree) → Nat
  | [] => 0
  | (_, value) :: rest => max value.nesting (nestingEntries rest)

end

/-! ### Cutting by children -/

theorem cutItems_eq_map (n : Nat) (items : List Tree) : cutItems n items = items.map (cut n) := by
  induction items with
  | nil => rfl
  | cons item rest ih => rw [cutItems, ih, List.map_cons]

theorem cutEntries_eq_map (n : Nat) (entries : List (String × Tree)) :
    cutEntries n entries = entries.map fun entry => (entry.1, entry.2.cut n) := by
  induction entries with
  | nil => rfl
  | cons entry rest ih => rw [cutEntries, ih, List.map_cons]

theorem cut_zero {t : Tree} (ht : t.kind ≠ .scalar) : t.cut 0 = .scalar t.placeholder := by
  cases t with
  | scalar text => exact absurd rfl ht
  | sequence items => rw [cut, placeholder]
  | mapping entries => rw [cut]; rfl

theorem kind_cut_succ (t : Tree) (n : Nat) : (t.cut (n + 1)).kind = t.kind := by
  cases t with
  | scalar text => rw [cut]
  | sequence items => rw [cut, kind, kind]
  | mapping entries => rw [cut, kind, kind]

theorem children_cut_succ (t : Tree) (n : Nat) :
    (t.cut (n + 1)).children = t.children.map fun child => (child.1, child.2.cut n) := by
  cases t with
  | scalar text => rw [cut]; rfl
  | sequence items =>
    rw [cut, cutItems_eq_map, children, children, List.zipIdx_map, List.map_map, List.map_map]
    rfl
  | mapping entries =>
    rw [cut, cutEntries_eq_map, children, children, List.map_map, List.map_map]
    rfl

theorem keptChildren_cut_succ (pruned : List String) (t : Tree) (n : Nat) :
    (t.cut (n + 1)).keptChildren pruned =
      (t.keptChildren pruned).map fun child => (child.1, child.2.cut n) := by
  rw [keptChildren, children_cut_succ, List.filter_map]
  rfl

theorem flattenAt_cut (pruned : List String) (path : Path) (n : Nat) (t : Tree) :
    (t.cut n).flattenAt pruned path none = t.flattenAt pruned path (some n) := by
  induction t using Tree.induction_on_children generalizing path n with
  | scalar text => rw [cut, flattenAt, flattenAt]
  | container t ht ih =>
    cases n with
    | zero => rw [cut_zero ht, flattenAt, flattenAt_container pruned path _ ht, if_pos rfl]
    | succ n =>
      have hcut : (t.cut (n + 1)).kind ≠ .scalar := by rwa [kind_cut_succ]
      rw [flattenAt_container pruned path _ hcut, flattenAt_container pruned path _ ht,
        if_neg (by simp), if_neg (by simp), keptChildren_cut_succ, List.flatMap_map]
      refine List.flatMap_congr fun child hchild => ?_
      exact ih child.2 (mem_values_of_mem_children (List.mem_of_mem_filter hchild)) _ n

/-! ### Where a cut document differs -/

theorem child?_cut_succ (t : Tree) (segment : Segment) (n : Nat) :
    (t.cut (n + 1)).child? segment = (t.child? segment).map (cut n) := by
  cases t with
  | scalar text => rw [cut]; rfl
  | sequence items =>
    cases segment with
    | field name => rw [cut]; rfl
    | index position =>
      rw [cut, cutItems_eq_map, child?, child?, itemAt, itemAt, List.getElem?_map]
      split <;> rfl
  | mapping entries =>
    cases segment with
    | index position => rw [cut]; rfl
    | field name =>
      rw [cut, cutEntries_eq_map, child?, child?, lookup, lookup, List.find?_map, Option.map_map,
        Option.map_map]
      rfl

theorem child?_cut_zero (t : Tree) (segment : Segment) : (t.cut 0).child? segment = none := by
  cases t <;> rw [cut, child?] <;> simp

/-- A path leads to the same place in a cut document, up to the level of the cut. -/
theorem descend?_cut (t : Tree) (path : Path) (n : Nat) :
    (t.cut n).descend? path =
      if path.length ≤ n then (t.descend? path).map (cut (n - path.length)) else none := by
  induction path generalizing t n with
  | nil => simp [descend?]
  | cons segment rest ih =>
    cases n with
    | zero => simp [descend?, child?_cut_zero]
    | succ n =>
      rw [descend?, descend?, child?_cut_succ, List.length_cons, Nat.add_sub_add_right,
        Option.bind_map, Option.map_bind]
      simp only [Function.comp_def, ih, Nat.add_le_add_iff_right]
      split
      · rfl
      · exact Option.bind_fun_none _

theorem resolve_cut_eq_ok_iff {t shown : Tree} {path : Path} {n : Nat} :
    (t.cut n).resolve path = .ok shown ↔
      path.length ≤ n ∧ ∃ node, t.resolve path = .ok node ∧ shown = node.cut (n - path.length) := by
  simp only [resolve_eq_ok_iff, descend?_cut, Option.ite_none_right_eq_some,
    Option.map_eq_some_iff, @eq_comm _ shown]

/-! ### Nesting -/

theorem nestingItems_le_iff (items : List Tree) (n : Nat) :
    nestingItems items ≤ n ↔ ∀ item ∈ items, item.nesting ≤ n := by
  induction items with
  | nil => simp [nestingItems]
  | cons item rest ih => rw [nestingItems, Nat.max_le, ih, List.forall_mem_cons]

theorem nestingEntries_le_iff (entries : List (String × Tree)) (n : Nat) :
    nestingEntries entries ≤ n ↔ ∀ v ∈ entries.map Prod.snd, v.nesting ≤ n := by
  induction entries with
  | nil => simp [nestingEntries]
  | cons entry rest ih =>
    obtain ⟨key, value⟩ := entry
    rw [nestingEntries, Nat.max_le, ih, List.map_cons, List.forall_mem_cons]

theorem nesting_le_succ_iff (t : Tree) (n : Nat) :
    t.nesting ≤ n + 1 ↔ ∀ v ∈ t.values, v.nesting ≤ n := by
  cases t with
  | scalar text => simp [nesting]
  | sequence items =>
    rw [nesting, Nat.add_le_add_iff_right, nestingItems_le_iff, values_sequence]
  | mapping entries =>
    rw [nesting, Nat.add_le_add_iff_right, nestingEntries_le_iff, values_mapping]

theorem nesting_pos {t : Tree} (ht : t.kind ≠ .scalar) : 0 < t.nesting := by
  cases t with
  | scalar text => exact absurd rfl ht
  | sequence items => exact Nat.succ_pos _
  | mapping entries => exact Nat.succ_pos _

/-- Nothing is cut off behind the last level. -/
theorem cut_of_nesting_le {t : Tree} {n : Nat} (h : t.nesting ≤ n) : t.cut n = t := by
  induction t using Tree.induction_on_children generalizing n with
  | scalar text => rw [cut]
  | container t ht ih =>
    cases n with
    | zero => exact absurd h (Nat.not_le.2 (nesting_pos ht))
    | succ n =>
      rw [nesting_le_succ_iff] at h
      have hcut : (t.cut (n + 1)).kind ≠ .scalar := by rwa [kind_cut_succ]
      refine eq_of_children hcut (kind_cut_succ t n) ?_
      rw [children_cut_succ]
      refine (List.map_congr_left fun child hchild => ?_).trans (List.map_id _)
      have hvalue := mem_values_of_mem_children hchild
      rw [ih child.2 hvalue (h child.2 hvalue)]
      rfl

end Tree

variable (t : Tree) (path : Path) (pruned : List String) (n : Nat)

theorem emissions_cut :
    emissions t path ⟨some n, pruned⟩ = emissions (t.cut n) path ⟨none, pruned⟩ := by
  have hlevels : (⟨some n, pruned⟩ : FlattenOptions).levels = some n :=
    (FlattenOptions.levels_eq_some_iff _ n).2 rfl
  rw [emissions_eq_flatten, emissions_eq_flatten, Tree.flatten, Tree.flatten, hlevels]
  exact (Tree.flattenAt_cut pruned path n t).symm

/-- A limit shows what the cut document shows without a limit, on a path text and at a trail. The
cut document leads wherever the document leads within the levels, and to nothing below them; what it
leads to on the last level is a scalar, namely the placeholder of a container or the scalar that was
there. With as many levels as there are containers one inside the other, all is shown, and so it is
with a negative limit. -/
theorem depth_limit_shows_cut_document :
    lines t path ⟨some n, pruned⟩ = lines (t.cut n) path ⟨none, pruned⟩ ∧
    Trail.lines t (.ofPath path) ⟨some n, pruned⟩ =
      (Trail.lines (t.cut n) (.ofPath path) ⟨none, pruned⟩ : Output (Stop Unresolved)) ∧
    (∀ inner shown, (t.cut n).resolve inner = .ok shown ↔
      inner.length ≤ n ∧
        ∃ node, t.resolve inner = .ok node ∧ shown = node.cut (n - inner.length)) ∧
    (∀ text, (Tree.scalar text).cut n = .scalar text) ∧
    (∀ items, (Tree.sequence items).cut 0 = .scalar "<array>") ∧
    (∀ entries, (Tree.mapping entries).cut 0 = .scalar "<object>") ∧
    (t.nesting ≤ n → lines t path ⟨some n, pruned⟩ = lines t path ⟨none, pruned⟩) ∧
    ∀ depth < 0, lines t path ⟨some depth, pruned⟩ = lines t path ⟨none, pruned⟩ := by
  have hlines : lines t path ⟨some n, pruned⟩ = lines (t.cut n) path ⟨none, pruned⟩ :=
    congrArg (List.map Emission.line) (emissions_cut t path pruned n)
  refine ⟨hlines, Trail.lines_congr (emissions_cut t path pruned n),
    fun inner shown => Tree.resolve_cut_eq_ok_iff, fun text => ?_, fun items => ?_,
    fun entries => ?_, ?_, ?_⟩
  · rw [Tree.cut]
  · rw [Tree.cut]; rfl
  · rw [Tree.cut]; rfl
  · intro hnesting
    rw [hlines, Tree.cut_of_nesting_le hnesting]
  · intro depth hdepth
    have hlevels : (⟨some depth, pruned⟩ : FlattenOptions).levels = none := by
      rw [FlattenOptions.levels_eq_none_iff]
      rintro _ ⟨⟩
      exact hdepth
    rw [lines, lines, emissions_eq_flatten, emissions_eq_flatten, Tree.flatten, Tree.flatten,
      hlevels]
    rfl

/-- An empty mapping two levels down, beside a scalar. -/
def hollowItems : Tree :=
  .mapping [("a", .sequence [.mapping [], .scalar "1"]), ("uid", .scalar "2")]

/-- With two levels, the empty mapping is shown as what it is cut to. With three levels nothing of it
is shown, as without a limit. -/
theorem empty_mapping_is_cut :
    hollowItems.cut 2 =
      .mapping [("a", .sequence [.scalar "<object>", .scalar "1"]), ("uid", .scalar "2")] ∧
    lines hollowItems [.index 7] ⟨some 2, ["uid"]⟩ =
      lines (hollowItems.cut 2) [.index 7] ⟨none, ["uid"]⟩ ∧
    hollowItems.nesting = 3 ∧
    lines hollowItems [.index 7] ⟨some 3, ["uid"]⟩ =
      lines hollowItems [.index 7] ⟨none, ["uid"]⟩ ∧
    lines hollowItems [.index 7] ⟨some (-1), ["uid"]⟩ =
      lines hollowItems [.index 7] ⟨none, ["uid"]⟩ := by
  have hnesting : hollowItems.nesting = 3 := by decide
  refine ⟨rfl, ?_, hnesting, ?_, ?_⟩
  · exact (depth_limit_shows_cut_document hollowItems [.index 7] ["uid"] 2).1
  · exact (depth_limit_shows_cut_document hollowItems [.index 7] ["uid"] 3).2.2.2.2.2.2.1
      (Nat.le_of_eq hnesting)
  · exact (depth_limit_shows_cut_document hollowItems [.index 7] ["uid"] 3).2.2.2.2.2.2.2 (-1)
      (by decide)

end Treeline
