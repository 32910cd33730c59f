import Mathlib.Algebra.GroupWithZero.Nat
import Mathlib.Algebra.Order.BigOperators.Group.List
import Mathlib.Algebra.Order.Group.Nat
import Mathlib.Data.List.Sigma
import Treeline.Resolve

/-!
# Children of a node

A container is read as a list of children, each behind the segment that leads to it: the items of a
sequence stand behind their positions, the entries of a mapping behind their keys. Both kinds of
containers then obey the same rules, and an induction over a tree has two cases instead of three.
-/

namespace Treeline.Tree

/-- The children of a node in order, each behind the segment that leads to it. -/
def children : Tree → List (Segment × Tree)
  | .scalar _ => []
  | .sequence items => items.zipIdx.map fun item => (.index item.2, item.1)
  | .mapping entries => entries.map fun entry => (.field entry.1, entry.2)

def labels (t : Tree) : List Segment := t.children.map Prod.fst

def values (t : Tree) : List Tree := t.children.map Prod.snd

@[simp] theorem values_scalar (text : String) : (scalar text).values = [] := rfl

@[simp] theorem values_sequence (items : List Tree) : (sequence items).values = items := by
  simp [values, children, Function.comp_def]

@[simp] theorem values_mapping (entries : List (String × Tree)) :
    (mapping entries).values = entries.map Prod.snd := by
  simp [values, children, Function.comp_def]

theorem mem_values_of_mem_children {t : Tree} {c : Segment × Tree} (hc : c ∈ t.children) :
    c.2 ∈ t.values :=
  List.mem_map_of_mem hc

theorem eq_of_children {s t : Tree} (hs : s.kind ≠ .scalar) (hkind : s.kind = t.kind)
    (hchildren : s.children = t.children) : s = t := by
  cases s with
  | scalar text => exact absurd rfl hs
  | sequence items =>
    cases t <;> cases hkind
    have hvalues := congrArg (List.map Prod.snd) hchildren
    change values _ = values _ at hvalues
    rw [values_sequence, values_sequence] at hvalues
    rw [hvalues]
  | mapping entries =>
    cases t <;> cases hkind
    refine congrArg mapping (List.map_injective_iff.2 ?_ hchildren)
    rintro ⟨key, value⟩ ⟨other, second⟩ hsame
    cases hsame
    rfl

/-! ### Size and height -/

theorem sizeItems_eq (items : List Tree) : sizeItems items = (items.map size).sum := by
  induction items with
  | nil => rfl
  | cons item rest ih => rw [sizeItems, ih, List.map_cons, List.sum_cons]

theorem sizeEntries_eq (entries : List (String × Tree)) :
    sizeEntries entries = ((entries.map Prod.snd).map size).sum := by
  induction entries with
  | nil => rfl
  | cons entry rest ih =>
    obtain ⟨key, value⟩ := entry
    rw [sizeEntries, ih, List.map_cons, List.map_cons, List.sum_cons]

theorem size_eq (t : Tree) : t.size = (t.values.map size).sum + 1 := by
  cases t with
  | scalar text => rfl
  | sequence items => rw [size, sizeItems_eq, values_sequence]
  | mapping entries => rw [size, sizeEntries_eq, values_mapping]

theorem size_lt_of_mem_values {t v : Tree} (hv : v ∈ t.values) : v.size < t.size := by
  have hle : v.size ≤ (t.values.map size).sum := List.le_sum_of_mem (List.mem_map_of_mem hv)
  rw [size_eq t]
  omega

/-- A property that a node has if the nodes right below it have it holds of every tree. -/
@[elab_as_elim] theorem induction_on_values {motive : Tree → Prop} (t : Tree)
    (step : ∀ t : Tree, (∀ v ∈ t.values, motive v) → motive t) : motive t :=
  step t fun v hv =>
    have := size_lt_of_mem_values hv
    induction_on_values v step
termination_by t.size

@[elab_as_elim] theorem induction_on_children {motive : Tree → Prop} (t : Tree)
    (scalar : ∀ text, motive (.scalar text))
    (container : ∀ t : Tree, t.kind ≠ .scalar → (∀ v ∈ t.values, motive v) → motive t) :
    motive t := by
  induction t using induction_on_values with
  | step t ih =>
    cases t with
    | scalar text => exact scalar text
    | sequence items => exact container _ (by simp [kind]) ih
    | mapping entries => exact container _ (by simp [kind]) ih

mutual

/-- The depth of the deepest node, where the root has depth zero. -/
def height : Tree → Nat
  | .scalar _ => 0
  | .sequence items => heightItems items
  | .mapping entries => heightEntries entries

def heightItems : List Tree → Nat
  | [] => 0
  | item :: rest => max (height item + 1) (heightItems rest)

def heightEntries : List (String × Tree) → Nat
  | [] => 0
  | (_, value) :: rest => max (height value + 1) (heightEntries rest)

end

theorem heightItems_le_iff (items : List Tree) (n : Nat) :
    heightItems items ≤ n ↔ ∀ item ∈ items, item.height < n := by
  induction items with
  | nil => simp [heightItems]
  | cons item rest ih =>
    rw [heightItems, Nat.max_le, ih, List.forall_mem_cons, Nat.succ_le_iff]

theorem heightEntries_le_iff (entries : List (String × Tree)) (n : Nat) :
    heightEntries entries ≤ n ↔ ∀ v ∈ entries.map Prod.snd, v.height < n := by
  induction entries with
  | nil => simp [heightEntries]
  | cons entry rest ih =>
    obtain ⟨key, value⟩ := entry
    rw [heightEntries, Nat.max_le, ih, List.map_cons, List.forall_mem_cons, Nat.succ_le_iff]

theorem height_le_iff (t : Tree) (n : Nat) : t.height ≤ n ↔ ∀ v ∈ t.values, v.height < n := by
  cases t with
  | scalar text => simp [height]
  | sequence items => rw [height, heightItems_le_iff, values_sequence]
  | mapping entries => rw [height, heightEntries_le_iff, values_mapping]

/-! ### Distinct keys -/

/-- In every mapping of a tree, the keys differ from each other. -/
inductive HasDistinctKeys : Tree → Prop
  | scalar (text : String) : HasDistinctKeys (.scalar text)
  | sequence {items : List Tree} (below : ∀ item ∈ items, HasDistinctKeys item) :
    HasDistinctKeys (.sequence items)
  | mapping {entries : List (String × Tree)} (distinct : (entries.map Prod.fst).Nodup)
    (below : ∀ entry ∈ entries, HasDistinctKeys entry.2) : HasDistinctKeys (.mapping entries)

theorem nodup_labels_sequence (items : List Tree) : (sequence items).labels.Nodup := by
  have hlabels : (sequence items).labels =
      (items.zipIdx.map Prod.snd).map fun position : Nat => Segment.index position := by
    rw [List.map_map, labels, children, List.map_map]
    rfl
  rw [hlabels]
  exact (List.nodup_zipIdx_map_snd items).map fun i j hij =>
    Int.ofNat_inj.1 (Segment.index.inj hij)

theorem nodup_labels_mapping {entries : List (String × Tree)} :
    (mapping entries).labels.Nodup ↔ (entries.map Prod.fst).Nodup := by
  have hlabels : (mapping entries).labels = (entries.map Prod.fst).map Segment.field := by
    simp [labels, children, Function.comp_def]
  rw [hlabels]
  exact List.nodup_map_iff fun a b hab => Segment.field.inj hab

/-- Keys are distinct in a tree if they are at its root and in the trees below. -/
theorem hasDistinctKeys_iff (t : Tree) :
    t.HasDistinctKeys ↔ t.labels.Nodup ∧ ∀ v ∈ t.values, v.HasDistinctKeys := by
  constructor
  · intro h
    cases h with
    | scalar text => simp [labels, children]
    | sequence below => exact ⟨nodup_labels_sequence _, by simpa using below⟩
    | mapping distinct below =>
      refine ⟨nodup_labels_mapping.2 distinct, fun v hv => ?_⟩
      rw [values_mapping] at hv
      obtain ⟨entry, hentry, rfl⟩ := List.mem_map.1 hv
      exact below entry hentry
  · rintro ⟨hlabels, hvalues⟩
    cases t with
    | scalar text => exact .scalar text
    | sequence items => exact .sequence fun item hitem => hvalues item (by simpa using hitem)
    | mapping entries =>
      refine .mapping (nodup_labels_mapping.1 hlabels) fun entry hentry => hvalues entry.2 ?_
      rw [values_mapping]
      exact List.mem_map_of_mem hentry

end Treeline.Tree
