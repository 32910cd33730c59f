import Treeline.Proofs.Decode.Trees
import Treeline.Proofs.Yaml.Graph.Complete

/-!
# Decoding a shape

A text with the tokens of a shape decodes to the tree that the shape stands for, if the tree keeps
the limits of unfolding and is no empty document.
-/

namespace Treeline

open Yaml

theorem findForbidden_eq_none {text : List Char} (h : ∀ x ∈ text, isAllowed x = true)
    (position : Nat) : findForbidden position text = none := by
  induction text generalizing position with
  | nil => rfl
  | cons x text ih =>
    obtain ⟨hx, htext⟩ := List.forall_mem_cons.1 h
    rw [findForbidden, if_pos hx, ih htext]

theorem decodeText_eq_of_shape {limit : Int} {text : List Char} {v : Shape} {tokens : List Token}
    {tail : List Lexeme} (hallowed : ∀ x ∈ text, isAllowed x = true) (hfits : v.Fits .block)
    (hstream : TokenStream.ofText text = ⟨tokens, none⟩)
    (htokens : tokens.map Token.lexeme = v.lexemes ++ tail) (htail : IsTail tail)
    (hblank : ∀ isPlain, v ≠ .scalar "" isPlain) (hheight : v.tree.height ≤ maxDepth)
    (hsize : (v.tree.size : Int) ≤ limit) (hkeys : v.tree.HasDistinctKeys) :
    decodeText limit text = .ok [v.tree] := by
  obtain ⟨nodes, hgraph, hnodes⟩ := ofText_eq_of_shape hfits hstream htokens htail
  have hholds : Graph.Holds ⟨nodes, 0⟩ 0 (v.contents 0) := by
    rw [← hnodes]
    exact Graph.holds_contents ⟨nodes, 0⟩
  have hunfold : unfold limit ⟨nodes, 0⟩ = .ok v.tree :=
    unfold_of_unfolds (v.unfolds hholds) hheight hsize hkeys
  have hshown : isBlankDocument ⟨nodes, 0⟩ = false := by
    have hroot : (Graph.rootNode ⟨nodes, 0⟩).content ≠ .scalar "" := by
      intro hroot
      cases v with
      | scalar text isPlain =>
        have htext : Content.scalar text = .scalar "" := hholds.1.symm.trans hroot
        cases htext
        exact hblank isPlain rfl
      | flowSequence items => cases hholds.1.symm.trans hroot
      | flowMapping entries => cases hholds.1.symm.trans hroot
      | blockSequence items => cases hholds.1.symm.trans hroot
      | indentless items => cases hholds.1.symm.trans hroot
      | blockMapping entries => cases hholds.1.symm.trans hroot
    simp [isBlankDocument, hroot]
  have hgraphs : (Source.ofText text).graphs = .ok [⟨nodes, 0⟩] := by
    have hcheck : (Source.ofText text).check = .ok () := by
      have hforbidden : findForbidden 0 (Source.ofText text).text = none :=
        findForbidden_eq_none hallowed 0
      rw [Source.check, hforbidden]
    rw [Source.graphs, Source.read, hcheck]
    change (Graph.ofText text).mapError _ = _
    rw [hgraph]
    rfl
  rw [decodeText, decodeSource, hgraphs]
  change (unfoldAll limit [⟨nodes, 0⟩]).mapError _ = _
  rw [unfoldAll, List.filter_cons_of_pos (by rw [hshown]; rfl), List.filter_nil, List.mapM_cons,
    hunfold]
  rfl

end Treeline
