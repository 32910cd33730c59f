import Mathlib.Logic.Relation
import Treeline.Proofs.Results
import Treeline.Proofs.Tree.Children
import Treeline.Yaml.Graph

/-!
# Unfoldings of a graph

The unfolding of a node is the tree that shows the node and everything below it, where an alias is
replaced by a copy of the node that it refers to. It says nothing about limits or about how a tree
is found. A node has at most one unfolding; it has one exactly if no chain of nodes that lie below
each other is endless and every mapping that can be reached has scalars as keys.
-/

namespace Treeline.Yaml

/-- The nodes right below a node, in order. Keys are not among them. -/
def Content.values : Content → List Nat
  | .scalar _ => []
  | .sequence items => items
  | .mapping entries => entries.map Prod.snd

namespace Graph

variable {g : Graph}

/-- A tree has the kind, the text and the keys that a content gives, whatever lies below. -/
def Heads (g : Graph) : Content → Tree → Prop
  | .scalar text, .scalar shown => shown = text
  | .sequence _, .sequence _ => True
  | .mapping pairs, .mapping entries =>
    pairs.map (fun pair => (g.node pair.1).content) = entries.map fun entry => .scalar entry.1
  | _, _ => False

/-- A tree is the unfolding of a node if its root shows the content of the node and the trees right
below it are the unfoldings of the nodes right below the node, in order. -/
inductive Unfolds (g : Graph) : Nat → Tree → Prop
  | intro {id : Nat} {t : Tree} (head : g.Heads (g.node id).content t)
    (below : List.Forall₂ (Unfolds g) (g.node id).content.values t.values) : Unfolds g id t

theorem heads_scalar_iff {text : String} {t : Tree} :
    g.Heads (.scalar text) t ↔ t = .scalar text := by
  cases t <;> simp [Heads]

theorem heads_sequence_iff {ids : List Nat} {t : Tree} :
    g.Heads (.sequence ids) t ↔ ∃ items, t = .sequence items := by
  cases t <;> simp [Heads]

theorem heads_mapping_iff {pairs : List (Nat × Nat)} {t : Tree} :
    g.Heads (.mapping pairs) t ↔ ∃ entries, t = .mapping entries ∧
      pairs.map (fun pair => (g.node pair.1).content) =
        entries.map fun entry => .scalar entry.1 := by
  cases t <;> simp [Heads]

/-! ### At most one unfolding -/

theorem keys_eq_of_contents_eq {entries entries' : List (String × Tree)}
    (h : entries.map (fun entry => Content.scalar entry.1) =
      entries'.map fun entry => Content.scalar entry.1) :
    entries.map Prod.fst = entries'.map Prod.fst := by
  refine List.map_injective_iff.2 (fun a b hab => Content.scalar.inj hab) ?_
  rw [List.map_map, List.map_map]
  exact h

theorem eq_of_heads {content : Content} {t u : Tree} (ht : g.Heads content t)
    (hu : g.Heads content u) (hvalues : t.values = u.values) : t = u := by
  cases content with
  | scalar text => rw [heads_scalar_iff.1 ht, heads_scalar_iff.1 hu]
  | sequence ids =>
    obtain ⟨items, rfl⟩ := heads_sequence_iff.1 ht
    obtain ⟨items', rfl⟩ := heads_sequence_iff.1 hu
    rw [Tree.values_sequence, Tree.values_sequence] at hvalues
    rw [hvalues]
  | mapping pairs =>
    obtain ⟨entries, rfl, hkeys⟩ := heads_mapping_iff.1 ht
    obtain ⟨entries', rfl, hkeys'⟩ := heads_mapping_iff.1 hu
    rw [Tree.values_mapping, Tree.values_mapping] at hvalues
    have hentries : entries = (entries.map Prod.fst).zip (entries.map Prod.snd) :=
      List.zip_of_prod rfl rfl
    rw [hentries, keys_eq_of_contents_eq (hkeys.symm.trans hkeys'), hvalues,
      ← List.zip_of_prod rfl rfl]

theorem Unfolds.unique {id : Nat} {t u : Tree} (ht : g.Unfolds id t) (hu : g.Unfolds id u) :
    t = u := by
  induction t using Tree.induction_on_values generalizing id u with
  | step t ih =>
    obtain ⟨hhead, hbelow⟩ := ht
    obtain ⟨hhead', hbelow'⟩ := hu
    refine eq_of_heads hhead hhead' (List.ext_getElem ?_ fun i hi hi' => ?_)
    · rw [← hbelow.length_eq, hbelow'.length_eq]
    · have hid : i < (g.node id).content.values.length := by rwa [hbelow.length_eq]
      exact ih _ (List.getElem_mem hi) (hbelow.get hid hi) (hbelow'.get hid hi')

/-! ### When there is an unfolding -/

def Below (g : Graph) (child parent : Nat) : Prop := child ∈ (g.node parent).content.values

def Reaches (g : Graph) : Nat → Nat → Prop :=
  Relation.ReflTransGen fun parent child => g.Below child parent

/-- If a node is a mapping, its keys are scalars. -/
def HasScalarKeys (g : Graph) (id : Nat) : Prop :=
  ∀ pairs, (g.node id).content = .mapping pairs →
    ∀ pair ∈ pairs, ∃ text, (g.node pair.1).content = .scalar text

theorem Unfolds.exists_of_below {id child : Nat} {t : Tree} (h : g.Unfolds id t)
    (hchild : g.Below child id) : ∃ v ∈ t.values, g.Unfolds child v := by
  obtain ⟨-, hbelow⟩ := h
  exact exists_of_forall₂ hbelow hchild

theorem Unfolds.acc {id : Nat} {t : Tree} (h : g.Unfolds id t) : Acc g.Below id := by
  induction t using Tree.induction_on_values generalizing id with
  | step t ih =>
    refine .intro id fun child hchild => ?_
    obtain ⟨v, hv, hunfolds⟩ := h.exists_of_below hchild
    exact ih v hv hunfolds

theorem Unfolds.hasScalarKeys_root {id : Nat} {t : Tree} (h : g.Unfolds id t) :
    g.HasScalarKeys id := by
  obtain ⟨hhead, -⟩ := h
  intro pairs hcontent pair hpair
  rw [hcontent] at hhead
  obtain ⟨entries, rfl, hkeys⟩ := heads_mapping_iff.1 hhead
  have hmem : (g.node pair.1).content ∈ entries.map fun entry => Content.scalar entry.1 := by
    rw [← hkeys]
    exact List.mem_map.2 ⟨pair, hpair, rfl⟩
  obtain ⟨entry, -, hentry⟩ := List.mem_map.1 hmem
  exact ⟨entry.1, hentry.symm⟩

theorem Unfolds.hasScalarKeys {id reached : Nat} {t : Tree} (h : g.Unfolds id t)
    (hreach : g.Reaches id reached) : g.HasScalarKeys reached := by
  induction hreach using Relation.ReflTransGen.head_induction_on generalizing t with
  | refl => exact h.hasScalarKeys_root
  | head hstep _ ih =>
    obtain ⟨v, -, hunfolds⟩ := h.exists_of_below hstep
    exact ih hunfolds

/-- Unfoldings of the nodes right below a node make an unfolding of the node. -/
theorem exists_heads {id : Nat} {values : List Tree} (hkeys : g.HasScalarKeys id)
    (hlength : (g.node id).content.values.length = values.length) :
    ∃ t : Tree, g.Heads (g.node id).content t ∧ t.values = values := by
  cases hcontent : (g.node id).content with
  | scalar text =>
    rw [hcontent] at hlength
    exact ⟨.scalar text, rfl, (List.eq_nil_of_length_eq_zero hlength.symm).symm⟩
  | sequence ids => exact ⟨.sequence values, trivial, Tree.values_sequence values⟩
  | mapping pairs =>
    rw [hcontent, Content.values, List.length_map] at hlength
    obtain ⟨texts, htexts⟩ := exists_forall₂ (hkeys pairs hcontent)
    have hzip : texts.length = values.length := by rw [← htexts.length_eq, hlength]
    refine ⟨.mapping (texts.zip values), ?_, ?_⟩
    · have hfst : (texts.zip values).map (fun entry => Content.scalar entry.1) =
          texts.map Content.scalar := by
        have htext := congrArg (List.map Content.scalar) (List.map_fst_zip (Nat.le_of_eq hzip))
        rw [List.map_map] at htext
        exact htext
      refine Eq.trans ?_ hfst.symm
      rw [← List.forall₂_eq_eq_eq, List.forall₂_map_left_iff, List.forall₂_map_right_iff]
      exact htexts
    · rw [Tree.values_mapping, List.map_snd_zip (Nat.le_of_eq hzip.symm)]

/-- A node has an unfolding exactly if every chain of nodes below it comes to an end and every
mapping that it reaches has scalars as keys. -/
theorem exists_unfolds_iff {id : Nat} :
    (∃ t, g.Unfolds id t) ↔
      Acc g.Below id ∧ ∀ reached, g.Reaches id reached → g.HasScalarKeys reached := by
  constructor
  · rintro ⟨t, h⟩
    exact ⟨h.acc, fun reached hreach => h.hasScalarKeys hreach⟩
  · rintro ⟨hacc, hkeys⟩
    induction hacc with
    | intro id _ ih =>
      have hvalues : ∀ child ∈ (g.node id).content.values, ∃ v, g.Unfolds child v :=
        fun child hchild => ih child hchild fun reached hreach =>
          hkeys reached (Relation.ReflTransGen.head hchild hreach)
      obtain ⟨values, hbelow⟩ := exists_forall₂ hvalues
      obtain ⟨t, hhead, rfl⟩ :=
        exists_heads (hkeys id Relation.ReflTransGen.refl) hbelow.length_eq
      exact ⟨t, .intro hhead hbelow⟩

end Graph

end Treeline.Yaml
