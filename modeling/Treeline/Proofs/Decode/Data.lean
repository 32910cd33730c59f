import Treeline.Proofs.Decode.Shapes
import Treeline.Proofs.Tree.Children
import Treeline.Proofs.Yaml.Write.Document

/-!
# Decoding data

Data is written and read back. What comes of plain data is its mirror, a tree of the same form with
the entries of each dictionary in the order of their keys, as long as no text in it is written in a
way that is not read back.
-/

namespace Treeline

open Yaml

namespace Plain

variable {v : Plain}

/-! ### The mirror -/

theorem trees_eq (items : List Plain) : trees items = items.map tree := by
  induction items with
  | nil => rfl
  | cons item rest ih => rw [trees, ih, List.map_cons]

theorem entryTrees_eq (entries : List (String × Plain)) :
    entryTrees entries = entries.map fun entry => (entry.1, entry.2.tree) := by
  induction entries with
  | nil => rfl
  | cons entry rest ih => rw [entryTrees, ih, List.map_cons]

theorem values_list (items : List Plain) : (list items).tree.values = items.map tree := by
  rw [tree, Tree.values_sequence, trees_eq]

theorem values_dict (entries : List (String × Plain)) :
    (dict entries).tree.values = entries.map fun entry => entry.2.tree := by
  rw [tree, Tree.values_mapping, entryTrees_eq, List.map_map]
  rfl

theorem mirror_list (items : List Plain) : (list items).mirror.values = items.map mirror := by
  rw [mirror, sorted, values_list, sortedItems_eq, List.map_map]
  rfl

theorem mirror_dict_perm (entries : List (String × Plain)) :
    (dict entries).mirror.values.Perm (entries.map fun entry => entry.2.mirror) := by
  rw [mirror, sorted, values_dict, sortedValues_eq]
  have hperm := Datum.sortEntries_perm (entries.map fun entry => (entry.1, entry.2.sorted))
  have hvalues := hperm.map fun entry => entry.2.tree
  rwa [List.map_map] at hvalues

theorem size_mirror (h : v.IsProper) : v.mirror.size = v.tree.size := by
  induction h with
  | null => rfl
  | bool b => rfl
  | int h => rfl
  | text s => rfl
  | @list items h ih =>
    have hsizes : (items.map mirror).map Tree.size = (items.map tree).map Tree.size := by
      rw [List.map_map, List.map_map]
      exact List.map_congr_left ih
    rw [Tree.size_eq, Tree.size_eq, mirror_list, values_list, hsizes]
  | @dict entries hkeys h ih =>
    have hsizes : (entries.map fun entry => entry.2.mirror).map Tree.size =
        (entries.map fun entry => entry.2.tree).map Tree.size := by
      rw [List.map_map, List.map_map]
      exact List.map_congr_left ih
    rw [Tree.size_eq, Tree.size_eq, values_dict, ((mirror_dict_perm entries).map Tree.size).sum_nat,
      hsizes]

/-- A mirror is no deeper than the data. -/
theorem height_mirror_le (h : v.IsProper) {n : Nat} (hn : v.tree.height ≤ n) :
    v.mirror.height ≤ n := by
  induction h generalizing n with
  | null => exact hn
  | bool b => exact hn
  | int h => exact hn
  | text s => exact hn
  | @list items h ih =>
    rw [Tree.height_le_iff, values_list, List.forall_mem_map] at hn
    rw [Tree.height_le_iff, mirror_list, List.forall_mem_map]
    intro item hitem
    exact Nat.lt_of_le_of_lt (ih item hitem (Nat.le_refl _)) (hn item hitem)
  | @dict entries hkeys h ih =>
    rw [Tree.height_le_iff, values_dict, List.forall_mem_map] at hn
    rw [Tree.height_le_iff]
    intro value hvalue
    obtain ⟨entry, hentry, rfl⟩ := List.mem_map.1 ((mirror_dict_perm entries).mem_iff.1 hvalue)
    exact Nat.lt_of_le_of_lt (ih entry hentry (Nat.le_refl _)) (hn entry hentry)

theorem hasDistinctKeys_tree (h : v.IsProper) : v.tree.HasDistinctKeys := by
  induction h with
  | null => exact .scalar _
  | bool b => exact .scalar _
  | int h => exact .scalar _
  | text s => exact .scalar s
  | list h ih =>
    rw [tree, trees_eq]
    exact .sequence (List.forall_mem_map.2 ih)
  | dict hkeys h ih =>
    rw [tree, entryTrees_eq]
    -- the keys of the tree are those of the data, which are distinct
    refine .mapping ?_ (List.forall_mem_map.2 ih)
    simpa [Function.comp_def] using hkeys

theorem eq_text_of_mirror (h : v.mirror = .scalar "") : v = .text "" := by
  cases v with
  | null => exact absurd (Tree.scalar.inj h) (by decide)
  | bool b =>
    cases b with
    | false => exact absurd (Tree.scalar.inj h) (by decide)
    | true => exact absurd (Tree.scalar.inj h) (by decide)
  | int i =>
    have htext : Numeral.intText i = "" := Tree.scalar.inj h
    exact absurd (String.ofList_eq_empty_iff.1 htext) (ofInt_ne_nil i)
  | text s => exact congrArg text (Tree.scalar.inj h)
  | list items => cases h
  | dict entries => cases h

end Plain

variable {v : Plain}

/-! ### Writing and reading -/

theorem decodeText_write (hproper : v.IsProper) (hkept : Survives 0 v)
    (hheight : v.tree.height ≤ maxDepth) (hsize : (v.tree.size : Int) ≤ maxNodes)
    (hne : v ≠ .text "") : decodeText maxNodes v.sorted.outline.write = .ok [v.mirror] := by
  obtain ⟨shape, hfits, htree, hallowed, tokens, tail, hstream, htokens, htail⟩ :=
    hkept.sorted.document
  have hmirror : shape.tree = v.mirror := htree
  have hblank : ∀ isPlain, shape ≠ .scalar "" isPlain := by
    rintro isPlain rfl
    exact hne (Plain.eq_text_of_mirror hmirror.symm)
  rw [← hmirror]
  refine decodeText_eq_of_shape hallowed hfits hstream htokens htail hblank ?_ ?_ ?_
  · rw [hmirror]
    exact Plain.height_mirror_le hproper hheight
  · rw [hmirror, Plain.size_mirror hproper]
    exact hsize
  · rw [hmirror]
    exact Plain.hasDistinctKeys_tree hproper.sorted

theorem decodeData_empty : decodeData (.ofDatum (.text "")) = .ok (.scalar "") := by
  rfl

/-- Plain data becomes its mirror if all of its texts are kept: no text between single quotes holds
the line break U+0085, no escape stands before a space in a text that is written too deep for its
lines, and no key before a colon grows too long by its escapes. -/
theorem plain_data_is_mirrored (hproper : v.IsProper) (hkept : Survives 0 v)
    (hheight : v.tree.height ≤ maxDepth) (hsize : (v.tree.size : Int) ≤ maxNodes) :
    decodeData (.ofDatum v.datum) = .ok v.mirror := by
  by_cases hne : v = .text ""
  · subst hne
    exact decodeData_empty
  · rw [decodeData, Plain.outline_ofDatum hproper]
    change (decodeText maxNodes v.sorted.outline.write >>= _) = _
    rw [decodeText_write hproper hkept hheight hsize hne]
    rfl

/-- A dictionary with a list and a text of two lines in it. -/
def addresses : Plain := .dict [("web", .list [.int 80, .text "x: y\nz"]), ("dns", .null)]

theorem isKeptKey_of_single {column : Nat} {cs : List Char}
    (hsingle : ScalarStyle.allowsSingleQuotes cs = true) (hnext : '\u0085' ∉ cs) :
    IsKeptKey column cs := by
  refine ⟨⟨fun _ => hnext, fun hno => ?_⟩, fun _ hno => ?_⟩
  · cases hsingle.symm.trans hno
  · cases hsingle.symm.trans hno

theorem forall_mem_pair {α : Type} {p : α → Prop} {a b : α} (ha : p a) (hb : p b) :
    ∀ x ∈ [a, b], p x :=
  List.forall_mem_cons.2 ⟨ha, List.forall_mem_singleton.2 hb⟩

theorem isProper_addresses : addresses.IsProper := by
  have hlist : (Plain.list [.int 80, .text "x: y\nz"]).IsProper :=
    .list (forall_mem_pair (.int (by decide +kernel)) (.text _))
  exact .dict (by decide) (forall_mem_pair hlist .null)

theorem survives_addresses : Survives 0 addresses := by
  have htext : IsKeptKey 4 "x: y\nz".toList := isKeptKey_of_single (by decide) (by decide)
  have hlist : Survives 2 (.list [.int 80, .text "x: y\nz"]) :=
    .list (forall_mem_pair (.int _ _) (.text htext.kept))
  refine .dict (forall_mem_pair ?_ ?_) (forall_mem_pair hlist (.null _))
  · exact isKeptKey_of_single (by decide) (by decide)
  · exact isKeptKey_of_single (by decide) (by decide)

/-- The entries come in the order of their keys. A line break of another kind is lost. -/
theorem addresses_are_mirrored :
    decodeData (.ofDatum addresses.datum) = .ok (.mapping
      [("dns", .scalar "null"), ("web", .sequence [.scalar "80", .scalar "x: y\nz"])]) ∧
    decodeData (.ofDatum (.text "a\u0085b")) = .ok (.scalar "a b") :=
  ⟨plain_data_is_mirrored isProper_addresses survives_addresses (by decide) (by decide), rfl⟩

end Treeline
