import Treeline.Proofs.Flatten.Walk
import Treeline.Proofs.Tree.Descent

/-!
# The scalars of a document

Without limits, a document is flattened to its scalars. Two traversals have to agree on where these
are: the walk builds the path of a node from above while it shows the document, and resolving
descends along a given path. Where the keys of each mapping differ, the walk shows a scalar exactly
at the paths that resolve to one, each once, and in the order in which the document holds them.
-/

namespace Treeline

namespace Tree

/-- The scalars below a node in order, with the paths that lead there from the node. -/
def scalars (t : Tree) : List Emission := t.flatten [] .all

theorem scalars_scalar (text : String) : (scalar text).scalars = [⟨[], text⟩] := rfl

theorem scalars_container {t : Tree} (ht : t.kind ≠ .scalar) :
    t.scalars = t.children.flatMap fun child => child.2.scalars.map (.under [child.1]) := by
  rw [scalars, flatten, flattenAt_container _ _ _ ht,
    if_neg (by simp [FlattenOptions.levels, FlattenOptions.all])]
  rw [show FlattenOptions.all.pruned = [] from rfl, keptChildren_nil]
  exact List.flatMap_congr fun child _ => flattenAt_eq_map_under [] [child.1] none child.2

/-- A scalar is shown exactly at the paths that lead to it. -/
theorem mem_scalars_iff {t : Tree} (h : t.HasDistinctKeys) (e : Emission) :
    e ∈ t.scalars ↔ t.descend? e.path = some (.scalar e.value) := by
  induction t using Tree.induction_on_children generalizing e with
  | scalar text =>
    obtain ⟨path, value⟩ := e
    rw [scalars_scalar, List.mem_singleton, Emission.mk.injEq]
    cases path with
    | nil => simp [descend?, eq_comm]
    | cons segment rest => simp [descend?, child?]
  | container t ht ih =>
    obtain ⟨hlabels, hvalues⟩ := (hasDistinctKeys_iff t).1 h
    rw [scalars_container ht, List.mem_flatMap]
    constructor
    · rintro ⟨child, hchild, he⟩
      obtain ⟨inner, hinner, rfl⟩ := List.mem_map.1 he
      have hvalue := mem_values_of_mem_children hchild
      refine descend?_cons_eq_some_iff.2 ⟨child.2, (child?_eq_some_iff hlabels).2 hchild, ?_⟩
      exact (ih child.2 hvalue (hvalues _ hvalue) inner).1 hinner
    · obtain ⟨path, value⟩ := e
      intro he
      cases path with
      | nil =>
        cases he
        exact absurd rfl ht
      | cons segment rest =>
        obtain ⟨c, hc, hrest⟩ := descend?_cons_eq_some_iff.1 he
        have hchild := (child?_eq_some_iff hlabels).1 hc
        have hvalue := mem_values_of_mem_children hchild
        refine ⟨(segment, c), hchild, List.mem_map.2 ⟨⟨rest, value⟩, ?_, rfl⟩⟩
        exact (ih c hvalue (hvalues _ hvalue) ⟨rest, value⟩).2 hrest

theorem mem_scalars_iff_resolve {t : Tree} (h : t.HasDistinctKeys) (path : Path) (text : String) :
    ⟨path, text⟩ ∈ t.scalars ↔ t.resolve path = .ok (.scalar text) := by
  rw [resolve_eq_ok_iff]
  exact mem_scalars_iff h ⟨path, text⟩

/-- The scalars are shown in the order in which they stand in the document. -/
theorem pairwise_places_scalars {t : Tree} (h : t.HasDistinctKeys) :
    t.scalars.Pairwise fun a b => t.places a.path < t.places b.path := by
  induction t using Tree.induction_on_children with
  | scalar text => exact List.pairwise_singleton _ _
  | container t ht ih =>
    obtain ⟨hlabels, hvalues⟩ := (hasDistinctKeys_iff t).1 h
    have hplaces : ∀ child ∈ t.children, ∀ e : Emission,
        t.places (Emission.under [child.1] e).path =
          t.labels.idxOf child.1 :: child.2.places e.path := fun child hchild e =>
      places_cons ((child?_eq_some_iff hlabels).2 hchild) e.path
    rw [scalars_container ht, List.pairwise_flatMap]
    constructor
    · -- two scalars below one child
      intro child hchild
      have hvalue := mem_values_of_mem_children hchild
      rw [List.pairwise_map]
      refine (ih child.2 hvalue (hvalues _ hvalue)).imp fun {a b} hab => ?_
      rw [hplaces child hchild, hplaces child hchild]
      exact List.cons_lt_cons_self.2 hab
    · -- scalars below two children
      refine (pairwise_idxOf_labels hlabels).imp_of_mem fun {a b} ha hb hab => ?_
      intro x hx y hy
      obtain ⟨x, -, rfl⟩ := List.mem_map.1 hx
      obtain ⟨y, -, rfl⟩ := List.mem_map.1 hy
      rw [hplaces a ha, hplaces b hb]
      exact List.cons_lt_cons_iff.2 (.inl hab)

theorem nodup_paths_scalars {t : Tree} (h : t.HasDistinctKeys) :
    (t.scalars.map Emission.path).Nodup := by
  rw [List.Nodup, List.pairwise_map]
  refine (pairwise_places_scalars h).imp fun {a b} hab hpath => ?_
  rw [hpath] at hab
  exact List.lt_irrefl _ hab

end Tree

theorem emissions_of_unlimited {node : Tree} {path : Path} {options : FlattenOptions}
    (hlevels : options.isUnlimited = true) (hpruned : options.pruned = []) :
    emissions node path options = node.scalars.map (.under path) := by
  have hnone : options.levels = none := Option.isNone_iff_eq_none.1 hlevels
  rw [emissions_eq_flatten, Tree.flatten, hnone, hpruned, Tree.flattenAt_eq_map_under]
  rfl

/-- Without limits, the lines of a document are those of its scalars: the path that is shown with a
text is one that resolves to a scalar with that text, every such path is shown once, and the lines
stand in the lexicographic order of the places along their paths. -/
theorem lines_eq_scalars_in_order (t : Tree) (h : t.HasDistinctKeys) :
    lines t [] .all = (emissions t [] .all).map (fun e => e.path.line e.value) ∧
    (∀ path text, ⟨path, text⟩ ∈ emissions t [] .all ↔ t.resolve path = .ok (.scalar text)) ∧
    ((emissions t [] .all).map Emission.path).Nodup ∧
    (emissions t [] .all).Pairwise fun a b => t.places a.path < t.places b.path := by
  have hscalars : emissions t [] .all = t.scalars := emissions_eq_flatten t [] .all
  have hordered := Tree.pairwise_places_scalars h
  rw [hscalars]
  refine ⟨?_, fun path text => ?_, ?_, hordered⟩
  · rw [lines, hscalars]
    rfl
  · rw [Tree.resolve_eq_ok_iff]
    exact Tree.mem_scalars_iff h ⟨path, text⟩
  · rw [List.Nodup, List.pairwise_map]
    refine hordered.imp fun {a b} hab hpath => ?_
    rw [hpath] at hab
    exact List.lt_irrefl _ hab

/-- An empty mapping shows no line but takes up a place. -/
theorem scalar_behind_empty_mapping_is_shown :
    Tree.HasDistinctKeys (.mapping [("a", .sequence [.mapping [], .scalar "2"]),
      ("b", .sequence [])]) ∧
      ⟨[.field "a", .index 1], "2"⟩ ∈
        emissions (.mapping [("a", .sequence [.mapping [], .scalar "2"]), ("b", .sequence [])]) []
          .all := by
  have hkeys : Tree.HasDistinctKeys (.mapping [("a", .sequence [.mapping [], .scalar "2"]),
      ("b", .sequence [])]) := by
    refine .mapping (by decide) ?_
    simp only [List.forall_mem_cons]
    refine ⟨.sequence ?_, .sequence ?_, by simp⟩
    · simp only [List.forall_mem_cons]
      exact ⟨.mapping (by decide) (by simp), .scalar "2", by simp⟩
    · simp
  exact ⟨hkeys, ((lines_eq_scalars_in_order _ hkeys).2.1 _ _).2 rfl⟩

end Treeline
