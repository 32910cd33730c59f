import Treeline.Proofs.Decode.Shapes
import Treeline.Proofs.Flatten.Scalars
import Treeline.Proofs.Path.RoundTrip

/-!
# Shown paths as addresses

Each line of a document begins with the text of a path. Handed back, that text leads to the scalar
of the line if the path is addressable. Keys come from the document as they are, and nothing escapes
a dot or a bracket in them or marks an empty one. The text of a path through such a key is read as
another path or not at all; it then leads to the text of the line only by chance, where it is the
address of another scalar with that text.
-/

namespace Treeline

open Yaml

namespace Tree

theorem length_le_sizeItems (items : List Tree) : items.length ≤ sizeItems items := by
  induction items with
  | nil => simp [sizeItems]
  | cons item rest ih =>
    have hpos := item.size_pos
    rw [List.length_cons, sizeItems]
    omega

theorem index_lt_size {t c : Tree} {i : Int} (h : (.index i, c) ∈ t.children) :
    i.natAbs < t.size := by
  cases t with
  | scalar text => simp [children] at h
  | mapping entries => simp [children] at h
  | sequence items =>
    obtain ⟨⟨item, n⟩, hitem, hi⟩ := List.mem_map.1 h
    have hn : n < items.length := by
      have hrange := List.mem_zipIdx hitem
      omega
    have hin : (n : Int) = i := by simpa using congrArg Prod.fst hi
    have hlength := length_le_sizeItems items
    rw [size, ← hin, Int.natAbs_natCast]
    omega

/-- The paths to the scalars of a document can be written if it has not too many nodes. -/
theorem isWritable_of_mem_scalars {t : Tree} {e : Emission}
    (hsize : t.size ≤ 10 ^ Numeral.maxDigits) (he : e ∈ t.scalars) : e.path.isWritable = true := by
  induction t using Tree.induction_on_children generalizing e with
  | scalar text =>
    rw [scalars_scalar, List.mem_singleton] at he
    rw [he]
    rfl
  | container t ht ih =>
    rw [scalars_container ht, List.mem_flatMap] at he
    obtain ⟨⟨segment, c⟩, hchild, he⟩ := he
    obtain ⟨inner, hinner, rfl⟩ := List.mem_map.1 he
    have hvalue := mem_values_of_mem_children hchild
    have hlt : c.size < t.size := size_lt_of_mem_values hvalue
    have hrest := ih c hvalue (by omega) hinner
    rw [Path.isWritable, List.all_eq_true] at hrest ⊢
    intro step hstep
    rcases List.mem_cons.1 hstep with rfl | hstep
    · cases step with
      | field name => rfl
      | index i =>
        have hi := index_lt_size hchild
        refine decide_eq_true ?_
        rw [Nat.pow_eq]
        omega
    · exact hrest step hstep

end Tree

theorem isWritable_of_decodeSource {source : Yaml.Source} {trees : List Tree} {t : Tree}
    (h : decodeSource maxNodes source = .ok trees) (ht : t ∈ trees) {e : Emission}
    (he : e ∈ t.scalars) : e.path.isWritable = true := by
  refine Tree.isWritable_of_mem_scalars ?_ he
  have hsize := size_le_of_decodeSource h ht
  have hpow : 10 ^ 6 ≤ 10 ^ Numeral.maxDigits := Nat.pow_le_pow_right (by omega) (by decide)
  rw [maxNodes] at hsize
  omega

/-- The path text of a line is read as the path of the line exactly if that path is addressable. It
leads to a scalar with the text of the line exactly in that case, or if it is read as the path of
another line with the same text. -/
theorem shown_path_leads_back_iff {source : Yaml.Source} {trees : List Tree}
    (h : decodeSource maxNodes source = .ok trees) {t : Tree} (ht : t ∈ trees) {e : Emission}
    (he : e ∈ emissions t [] .all) :
    ∃ text, e.path.render = .ok text ∧ e.line = text ++ ": " ++ e.value ∧
      (Path.parse text = .ok e.path ↔ e.path.IsAddressable) ∧
      ((∃ p, Path.parse text = .ok p ∧ t.resolve p = .ok (.scalar e.value)) ↔
        e.path.IsAddressable ∨
          ∃ other ∈ emissions t [] .all, other ≠ e ∧ other.value = e.value ∧
            Path.parse text = .ok other.path) := by
  have hkeys := hasDistinctKeys_of_decodeSource h ht
  have hscalars : emissions t [] .all = t.scalars := emissions_eq_flatten t [] .all
  rw [hscalars] at he ⊢
  have hwritable := isWritable_of_decodeSource h ht he
  have hresolve : ∀ p text, t.resolve p = .ok (.scalar text) ↔ ⟨p, text⟩ ∈ t.scalars := by
    intro p text
    rw [Tree.resolve_eq_ok_iff]
    exact (Tree.mem_scalars_iff hkeys ⟨p, text⟩).symm
  have hparse : Path.parse e.path.text = .ok e.path ↔ e.path.IsAddressable := by
    constructor
    · intro hread
      exact (Path.forall_isReadable_iff.1 (Path.isReadable_of_parse hread)).2
    · intro haddressable
      exact Path.parse_text (Path.forall_isReadable_iff.2 ⟨hwritable, haddressable⟩)
  refine ⟨e.path.text, Path.render_eq_ok hwritable, rfl, hparse, ?_⟩
  constructor
  · rintro ⟨p, hread, hp⟩
    by_cases hsame : p = e.path
    · rw [hsame] at hread
      exact .inl (hparse.1 hread)
    · refine .inr ⟨⟨p, e.value⟩, (hresolve p e.value).1 hp, ?_, rfl, hread⟩
      intro heq
      exact hsame (congrArg Emission.path heq)
  · rintro (haddressable | ⟨other, hother, -, hvalue, hread⟩)
    · exact ⟨e.path, hparse.2 haddressable, (hresolve e.path e.value).2 he⟩
    · refine ⟨other.path, hread, (hresolve other.path e.value).2 ?_⟩
      rw [← hvalue]
      exact hother

/-- A key with a dot is shown as it is, and the line does not lead back to its scalar. -/
theorem dotted_key_does_not_lead_back :
    decodeText maxNodes "a.b: 1\n".toList = .ok [.mapping [("a.b", .scalar "1")]] ∧
      ⟨[.field "a.b"], "1"⟩ ∈ emissions (.mapping [("a.b", .scalar "1")]) [] .all ∧
      ¬ ∃ p, Path.parse "a.b" = .ok p ∧
        (Tree.mapping [("a.b", .scalar "1")]).resolve p = .ok (.scalar "1") := by
  have hlexemes : (TokenStream.ofText "a.b: 1\n".toList).tokens.map Token.lexeme =
      (Shape.blockMapping (.cons "a.b" true (.scalar "1" true) .nil)).lexemes ++ [.streamEnd] := by
    decide +kernel
  have hwhole : (TokenStream.ofText "a.b: 1\n".toList).broken = none :=
    Option.isNone_iff_eq_none.1 (by decide +kernel)
  have hstream : TokenStream.ofText "a.b: 1\n".toList =
      ⟨(TokenStream.ofText "a.b: 1\n".toList).tokens, none⟩ := hwhole ▸ rfl
  have hdecode : decodeText maxNodes "a.b: 1\n".toList =
      .ok [.mapping [("a.b", .scalar "1")]] :=
    decodeText_eq_of_shape (List.all_eq_true.1 (by decide)) (by simp [Shape.Fits, Entries.Fit])
      hstream hlexemes (.inl rfl) nofun (by decide) (by decide)
      (.mapping (by decide) (List.forall_mem_singleton.2 (.scalar _)))
  have hshown : ⟨[.field "a.b"], "1"⟩ ∈ emissions (.mapping [("a.b", .scalar "1")]) [] .all := by
    rw [emissions_eq_flatten]
    exact List.mem_singleton.2 rfl
  refine ⟨hdecode, hshown, ?_⟩
  obtain ⟨text, htext, -, -, hiff⟩ :=
    shown_path_leads_back_iff hdecode (List.mem_singleton.2 rfl) hshown
  have htext' : text = "a.b" := by
    have hrender : Path.render [.field "a.b"] = .ok "a.b" := by decide +kernel
    exact Except.ok.inj (htext.symm.trans hrender)
  rw [htext'] at hiff
  rw [hiff]
  rintro (haddressable | ⟨other, hother, hne, -⟩)
  · exact absurd (haddressable "a.b" (List.mem_singleton.2 rfl)).2.1 (by decide)
  · rw [emissions_eq_flatten] at hother
    exact hne (List.mem_singleton.1 hother)

end Treeline
