import Treeline.Proofs.Flatten.Documents
import Treeline.Proofs.Flatten.Stack
import Treeline.Settings

/-!
# Pruning

Pruning keys shows what is shown of a document without the entries under these keys. Whether an entry
is left out is asked before its value is looked at, at every level and whatever the limit is, and it
is never asked of items, of the node at the start, or of the path that leads there. A stripped
document has lost its entries at all levels, so stripping it of more keys is stripping it of all of
them at once, and the order and the repetitions of the keys do not matter.
-/

namespace Treeline

namespace Tree

mutual

/-- A document without the entries that stand under some keys, at every level. -/
def strip (keys : List String) : Tree → Tree
  | .scalar text => .scalar text
  | .sequence items => .sequence (stripItems keys items)
  | .mapping entries => .mapping (stripEntries keys entries)

def stripItems (keys : List String) : List Tree → List Tree
  | [] => []
  | item :: rest => item.strip keys :: stripItems keys rest

def stripEntries (keys : List String) : List (String × Tree) → List (String × Tree)
  | [] => []
  | (key, value) :: rest =>
    if key ∈ keys then stripEntries keys rest
    else (key, value.strip keys) :: stripEntries keys rest

end

/-! ### Stripping by children -/

variable (keys : List String)

theorem stripItems_eq_map (items : List Tree) :
    stripItems keys items = items.map (strip keys) := by
  induction items with
  | nil => rfl
  | cons item rest ih => rw [stripItems, ih, List.map_cons]

theorem stripEntries_eq_map (entries : List (String × Tree)) :
    stripEntries keys entries =
      (entries.filter fun entry => !keys.contains entry.1).map fun entry =>
        (entry.1, entry.2.strip keys) := by
  induction entries with
  | nil => rfl
  | cons entry rest ih =>
    rw [stripEntries, ih]
    by_cases hkey : entry.1 ∈ keys
    · rw [if_pos hkey, List.filter_cons_of_neg (by simpa using hkey)]
    · rw [if_neg hkey, List.filter_cons_of_pos (by simpa using hkey), List.map_cons]

theorem kind_strip (t : Tree) : (t.strip keys).kind = t.kind := by
  cases t <;> rfl

theorem children_strip (t : Tree) :
    (t.strip keys).children =
      (t.keptChildren keys).map fun child => (child.1, child.2.strip keys) := by
  cases t with
  | scalar text => rw [strip]; rfl
  | sequence items =>
    rw [strip, stripItems_eq_map, keptChildren_sequence, children, children, List.zipIdx_map,
      List.map_map, List.map_map]
    rfl
  | mapping entries =>
    rw [strip, stripEntries_eq_map, keptChildren_mapping, children, List.map_map, List.map_map]
    rfl

theorem keptChildren_strip (more : List String) (t : Tree) :
    (t.strip keys).keptChildren more =
      ((t.keptChildren keys).filter fun child => !child.1.isPruned more).map fun child =>
        (child.1, child.2.strip keys) := by
  rw [keptChildren, children_strip, List.filter_map]
  rfl

theorem flattenAt_strip (path : Path) (levels : Option Nat) (t : Tree) :
    (t.strip keys).flattenAt [] path levels = t.flattenAt keys path levels := by
  induction t using Tree.induction_on_children generalizing path levels with
  | scalar text => rw [strip, flattenAt, flattenAt]
  | container t ht ih =>
    have hstrip : (t.strip keys).kind ≠ .scalar := by rwa [kind_strip]
    rw [flattenAt_container [] path levels hstrip, flattenAt_container keys path levels ht,
      placeholder_eq (kind_strip keys t), keptChildren_nil, children_strip, List.flatMap_map]
    -- a container without levels left shows its placeholder whatever it holds
    split
    · rfl
    · refine List.flatMap_congr fun child hchild => ?_
      exact ih child.2 (mem_values_of_mem_children (List.mem_of_mem_filter hchild)) _ _

/-! ### Stripping twice -/

variable {keys}

/-- Leaving out the keys of a union is leaving out those of one part and then of the other. -/
theorem keptChildren_union {more union : List String}
    (h : ∀ key, key ∈ union ↔ key ∈ keys ∨ key ∈ more) (t : Tree) :
    t.keptChildren union = (t.keptChildren keys).filter fun child => !child.1.isPruned more := by
  rw [keptChildren, keptChildren, List.filter_filter]
  refine List.filter_congr fun child _ => ?_
  cases child.1 with
  | field name => simp [Segment.isPruned, h, Bool.and_comm]
  | index position => rfl

theorem strip_strip {more union : List String} (h : ∀ key, key ∈ union ↔ key ∈ keys ∨ key ∈ more)
    (t : Tree) : (t.strip keys).strip more = t.strip union := by
  induction t using Tree.induction_on_children with
  | scalar text => rw [strip, strip, strip]
  | container t ht ih =>
    have hkind : ((t.strip keys).strip more).kind = t.kind := by rw [kind_strip, kind_strip]
    refine eq_of_children (by rwa [hkind]) (by rw [hkind, kind_strip]) ?_
    rw [children_strip, children_strip, keptChildren_strip, List.map_map, keptChildren_union h]
    refine List.map_congr_left fun child hchild => ?_
    have hkept := List.mem_of_mem_filter (List.mem_of_mem_filter hchild)
    exact congrArg (Prod.mk child.1) (ih child.2 (mem_values_of_mem_children hkept))

theorem strip_congr {others : List String} (h : ∀ key, key ∈ keys ↔ key ∈ others) (t : Tree) :
    t.strip keys = t.strip others := by
  calc t.strip keys
    _ = (t.strip others).strip [] := (strip_strip (by simp [h]) t).symm
    _ = t.strip others := strip_strip (by simp) t

/-! ### What is left -/

theorem lookup_stripEntries (name : String) (entries : List (String × Tree)) :
    lookup name (stripEntries keys entries) =
      if name ∈ keys then none else (lookup name entries).map (strip keys) := by
  induction entries with
  | nil => simp [stripEntries, lookup]
  | cons entry rest ih =>
    obtain ⟨key, value⟩ := entry
    rw [stripEntries, lookup_cons]
    by_cases hname : key = name
    · subst hname
      rw [if_pos rfl]
      by_cases hkey : key ∈ keys
      · rw [if_pos hkey, ih, if_pos hkey, if_pos hkey]
      · rw [if_neg hkey, if_neg hkey, lookup_cons, if_pos rfl, Option.map_some]
    · rw [if_neg hname]
      split
      · exact ih
      · rw [lookup_cons, if_neg hname, ih]

theorem child?_strip (t : Tree) (segment : Segment) :
    (t.strip keys).child? segment =
      if segment.isPruned keys then none else (t.child? segment).map (strip keys) := by
  cases t with
  | scalar text => rw [strip]; simp [child?]
  | sequence items =>
    cases segment with
    | field name => rw [strip]; simp [child?]
    | index position =>
      rw [strip, stripItems_eq_map, Segment.isPruned, if_neg Bool.false_ne_true, child?, child?,
        itemAt, itemAt, List.getElem?_map]
      split <;> rfl
  | mapping entries =>
    cases segment with
    | index position => rw [strip]; rfl
    | field name =>
      rw [strip, child?, child?, lookup_stripEntries]
      simp [Segment.isPruned]

/-- A path leads to the same place in a stripped document, unless it names a key that is left out. -/
theorem descend?_strip (t : Tree) (path : Path) :
    (t.strip keys).descend? path =
      if path.any (Segment.isPruned keys) then none else (t.descend? path).map (strip keys) := by
  induction path generalizing t with
  | nil => rfl
  | cons segment rest ih =>
    rw [descend?, descend?, child?_strip, List.any_cons]
    cases segment.isPruned keys with
    | true => rfl
    | false =>
      rw [if_neg Bool.false_ne_true, Bool.false_or, Option.bind_map, Option.map_bind]
      simp only [Function.comp_def, ih]
      split
      · exact Option.bind_fun_none _
      · rfl

theorem resolve_strip_eq_ok_iff {t shown : Tree} {path : Path} :
    (t.strip keys).resolve path = .ok shown ↔
      (∀ name, .field name ∈ path → name ∉ keys) ∧
        ∃ node, t.resolve path = .ok node ∧ shown = node.strip keys := by
  have hpruned : ¬path.any (Segment.isPruned keys) = true ↔
      ∀ name, .field name ∈ path → name ∉ keys := by
    simp only [List.any_eq_true, Segment.isPruned_eq_true_iff, not_exists, not_and]
    constructor
    · intro h name hname hkey
      exact h (.field name) hname name hkey rfl
    · rintro h _ hsegment name hkey rfl
      exact h name hsegment hkey
  simp only [resolve_eq_ok_iff, descend?_strip, Option.ite_none_left_eq_some,
    Option.map_eq_some_iff, hpruned, @eq_comm _ shown]

end Tree

variable (t : Tree) (path : Path) (depth : Option Int) (keys : List String)

theorem emissions_strip :
    emissions t path ⟨depth, keys⟩ = emissions (t.strip keys) path ⟨depth, []⟩ := by
  rw [emissions_eq_flatten, emissions_eq_flatten]
  exact (Tree.flattenAt_strip keys path _ t).symm

theorem lines_strip : lines t path ⟨depth, keys⟩ = lines (t.strip keys) path ⟨depth, []⟩ :=
  congrArg (List.map Emission.line) (emissions_strip t path depth keys)

theorem documentsFrom_strip {ε : Type} (start : Tree → Except ε Tree) (isMany : Bool) (entry : Path)
    (number : Nat) (roots : List Tree) :
    documentsFrom start isMany entry ⟨depth, keys⟩ number roots =
      documentsFrom (fun root => (start root).map (Tree.strip keys)) isMany entry ⟨depth, []⟩ number
        roots := by
  induction roots generalizing number with
  | nil => rfl
  | cons root rest ih =>
    rw [documentsFrom, documentsFrom]
    cases start root with
    | error e => rfl
    | ok node => exact congrArg₂ Output.after (lines_strip node _ depth keys) (ih (number + 1))

theorem stopped_documentsFrom {ε : Type} (start : Tree → Except ε Tree) (isMany : Bool)
    (entry : Path) (options others : FlattenOptions) (number : Nat) (roots : List Tree) :
    (documentsFrom start isMany entry options number roots).stopped =
      (documentsFrom start isMany entry others number roots).stopped := by
  induction roots generalizing number with
  | nil => rfl
  | cons root rest ih =>
    rw [documentsFrom, documentsFrom]
    cases start root with
    | error e => rfl
    | ok node => exact ih (number + 1)

theorem documents_congr {keys others : List String} (h : ∀ key, key ∈ keys ↔ key ∈ others)
    (roots : List Tree) (entry : Path) (absolute : Bool) :
    documents roots entry ⟨depth, keys⟩ absolute = documents roots entry ⟨depth, others⟩ absolute := by
  have hstrip : Tree.strip keys = Tree.strip others := funext (Tree.strip_congr h)
  rw [documents, documentsFrom_strip, hstrip, ← documentsFrom_strip depth others]
  rfl

/-- What is shown without some keys is what the stripped document shows, on a path and at a trail. The
stripped document leads wherever the document leads without naming one of the keys, to what is there
after stripping. In documents a path is followed before anything is stripped, so pruned keys on the
way are found, and the error is the same, if there is one. Lists of the same keys, in whatever order
and however often, leave out the same, also together with the keys of maintained fields. Pruning two
kinds of keys is stripping the document of the one and then of the other. -/
theorem pruning_shows_stripped_document :
    lines t path ⟨depth, keys⟩ = lines (t.strip keys) path ⟨depth, []⟩ ∧
    Trail.lines t (.ofPath path) ⟨depth, keys⟩ =
      (Trail.lines (t.strip keys) (.ofPath path) ⟨depth, []⟩ : Output (Stop Unresolved)) ∧
    (∀ inner shown, (t.strip keys).resolve inner = .ok shown ↔
      (∀ name, .field name ∈ inner → name ∉ keys) ∧
        ∃ node, t.resolve inner = .ok node ∧ shown = node.strip keys) ∧
    (∀ roots entry absolute,
      documents roots entry ⟨depth, keys⟩ absolute =
        documentsFrom (fun root => (root.resolve entry).map (Tree.strip keys))
          (decide (1 < roots.length)) (if absolute then entry else []) ⟨depth, []⟩ 0 roots ∧
      (documents roots entry ⟨depth, keys⟩ absolute).stopped =
        (documents roots entry ⟨depth, []⟩ absolute).stopped) ∧
    (∀ others, (∀ key, key ∈ keys ↔ key ∈ others) → ∀ pure roots entry absolute,
      documents roots entry (.of depth keys pure) absolute =
        documents roots entry (.of depth others pure) absolute) ∧
    ∀ more union, (∀ key, key ∈ union ↔ key ∈ keys ∨ key ∈ more) →
      t.strip union = (t.strip keys).strip more ∧
      lines t path ⟨depth, union⟩ = lines ((t.strip keys).strip more) path ⟨depth, []⟩ := by
  refine ⟨lines_strip t path depth keys, Trail.lines_congr (emissions_strip t path depth keys),
    fun inner shown => Tree.resolve_strip_eq_ok_iff, fun roots entry absolute => ⟨?_, ?_⟩, ?_, ?_⟩
  · exact documentsFrom_strip depth keys _ _ _ 0 roots
  · exact stopped_documentsFrom _ _ _ _ _ 0 roots
  · intro others h pure roots entry absolute
    refine documents_congr depth (fun key => ?_) roots entry absolute
    simp [h]
  · intro more union h
    rw [lines_strip, Tree.strip_strip h]
    exact ⟨rfl, rfl⟩

/-- A mapping under a maintained key, in which an item holds nothing but such a key. -/
def maintainedItems : Tree :=
  .mapping [("status", .mapping [("uid", .scalar "1"),
    ("a", .sequence [.mapping [("uid", .scalar "2")], .scalar "3"])])]

/-- The entry names a key that is pruned, and is found. The mapping on the last level is shown as a
placeholder, although nothing of it would be left. -/
theorem pruned_entry_is_found :
    documents [maintainedItems] [.field "status"] (.of (some 2) ["b", "uid", "b"] true) false =
      ⟨["a[0]: <object>", "a[1]: 3"], none⟩ ∧
    maintainedItems.strip ["uid", "status"] =
      (maintainedItems.strip ["status"]).strip ["uid"] := by
  constructor
  · have hsame := (pruning_shows_stripped_document maintainedItems [] (some 2)
      ["b", "uid", "b"]).2.2.2.2.1 ["uid", "b"] (by simp [or_comm]) true [maintainedItems]
      [.field "status"] false
    have hnode : maintainedItems.resolve [.field "status"] = .ok (.mapping [("uid", .scalar "1"),
        ("a", .sequence [.mapping [("uid", .scalar "2")], .scalar "3"])]) := rfl
    rw [hsame, documents_singleton hnode, lines, emissions_eq_flatten]
    exact congrArg (Output.mk · none) (by decide +kernel)
  · exact ((pruning_shows_stripped_document maintainedItems [] none ["status"]).2.2.2.2.2 ["uid"]
      ["uid", "status"] (by simp [or_comm])).1

end Treeline
