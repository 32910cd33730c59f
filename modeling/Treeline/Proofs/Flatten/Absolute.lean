import Treeline.Proofs.Flatten.Documents
import Treeline.Proofs.Flatten.Stack
import Treeline.Proofs.Path.Joining
import Treeline.Proofs.Resolve.Refusal

/-!
# Absolute lines

An absolute line is a relative line behind the text of the entry. The path of an emission below an
entry is that of the emission itself, joined to the entry, and this joins their texts as well. So
whether there is a dot between the two is told by the path of the emission: a line for an index, and
the only line of a scalar, follow the entry directly. The entry is followed in the same way for both
kinds of output, which therefore fail alike.
-/

namespace Treeline

/-- The line of an emission further down is its own line behind the path that leads there. -/
theorem Emission.line_under (path : Path) (e : Emission) :
    (e.under path).line = path.text ++ path.glue e.path ++ e.line := by
  rw [line, under, Path.line, Path.text_append, line, Path.line]
  simp only [String.append_assoc]

theorem lines_eq_map (node : Tree) (path : Path) (options : FlattenOptions) :
    lines node path options =
      (emissions node [] options).map fun e => path.text ++ path.glue e.path ++ e.line := by
  rw [lines, emissions_eq_map_under, List.map_map]
  exact List.map_congr_left fun e _ => Emission.line_under path e

/-- The text of two paths one behind the other is joined from theirs, with a dot between them exactly
if there is something in front and the path behind it begins with a field. In one document, either
the entry is refused with the same error for both outputs, or both show the same emissions, and
each line of the absolute output is the line of the relative one joined to the text of the entry. -/
theorem absolute_lines_begin_with_entry (path : Path) (hwritable : path.isWritable = true) :
    (∀ back : Path, back.isWritable = true →
      ∃ before behind, path.render = .ok before ∧ back.render = .ok behind ∧
        (path ++ back).render = .ok (before ++ path.glue back ++ behind)) ∧
    ∀ (t : Tree) (options : FlattenOptions),
      (∃ e, t.resolve path = .error (.reported e) ∧
        ∀ absolute, documents [t] path options absolute = ⟨[], some (.reported e)⟩) ∨
      ∃ before node, path.render = .ok before ∧ t.resolve path = .ok node ∧
        documents [t] path options false =
          ⟨(emissions node [] options).map Emission.line, none⟩ ∧
        documents [t] path options true =
          ⟨(emissions node [] options).map fun e => before ++ path.glue e.path ++ e.line, none⟩ := by
  refine ⟨fun back hback => Path.render_append path back hwritable hback, ?_⟩
  intro t options
  obtain ⟨node, hnode⟩ | ⟨e, he⟩ := Tree.resolve_cases t hwritable
  · refine .inr ⟨_, node, Path.render_eq_ok hwritable, hnode, documents_singleton hnode, ?_⟩
    rw [documents_singleton hnode, if_pos rfl, lines_eq_map]
  · refine .inl ⟨e, he, fun absolute => ?_⟩
    exact documents_of_unresolved (List.nil_append [t]).symm .nil he

/-- Behind the same entry, a field gets a dot and an index does not. -/
theorem field_behind_entry_gets_dot :
    Path.isWritable [.field "a", .index 1] = true ∧ Path.isWritable [.index 2] = true ∧
    Path.render [.field "a", .index 1, .index 2] = .ok "a[1][2]" ∧
    documents [nestedItems] [.field "a", .index 1] .all false = ⟨["b: 2"], none⟩ ∧
    documents [nestedItems] [.field "a", .index 1] .all true = ⟨["a[1].b: 2"], none⟩ := by
  have hentry : Path.isWritable [.field "a", .index 1] = true := by decide +kernel
  have hindex : Path.isWritable [.index 2] = true := by decide +kernel
  have hrendered : Path.render [.field "a", .index 1] = .ok "a[1]" := by decide +kernel
  have hitem : Path.render [.index 2] = .ok "[2]" := by decide +kernel
  have hmapping : nestedItems.resolve [.field "a", .index 1] =
      .ok (.mapping [("b", .scalar "2")]) := rfl
  have hemissions : emissions (.mapping [("b", .scalar "2")]) [] .all = [⟨[.field "b"], "2"⟩] := by
    rw [emissions_eq_flatten]
    rfl
  obtain ⟨hjoined, hshown⟩ := absolute_lines_begin_with_entry [.field "a", .index 1] hentry
  refine ⟨hentry, hindex, ?_, ?_⟩
  · obtain ⟨before, behind, hbefore, hbehind, hrender⟩ := hjoined [.index 2] hindex
    rw [hrendered] at hbefore
    rw [hitem] at hbehind
    cases hbefore
    cases hbehind
    exact hrender
  · obtain ⟨e, he, -⟩ | ⟨before, node, hbefore, hnode, hrelative, habsolute⟩ :=
      hshown nestedItems .all
    · rw [hmapping] at he
      cases he
    · rw [hrendered] at hbefore
      rw [hmapping] at hnode
      cases hbefore
      cases hnode
      rw [hrelative, habsolute, hemissions]
      exact ⟨rfl, rfl⟩

end Treeline
