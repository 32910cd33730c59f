import Treeline.Proofs.Flatten.Documents
import Treeline.Proofs.Flatten.Scalars
import Treeline.Proofs.Run.Unreadable
import Treeline.Proofs.Text.Split

/-!
# Line feeds in the output

A line feed ends each line that is delivered, but it can also stand inside one. Scalars are shown as
they are written, so a block of text brings its line feeds along, and a key between quotes can hold
one too. Such a line falls apart when the output is split again. Nothing else in a line is a line
feed: not the dots, brackets and numerals of its path, and not the label of its document.
-/

namespace Treeline

/-- Whether no line feed stands in the value of an emission or in a field on the way to it. -/
def Emission.IsOneLine (e : Emission) : Prop :=
  '\n' ∉ e.value.toList ∧ ∀ name, .field name ∈ e.path → '\n' ∉ name.toList

/-! ### Line feeds in a line -/

namespace Path

theorem newline_mem_segmentText_iff (segment : Segment) :
    '\n' ∈ segmentText segment ↔ ∃ name, segment = .field name ∧ '\n' ∈ name.toList := by
  cases segment with
  | field name => simp [segmentText]
  | index position =>
    have hnumeral : '\n' ∉ Numeral.ofInt position := by
      intro hmem
      obtain hminus | hdigit := Numeral.eq_minus_or_isDigit_of_mem_ofInt hmem
      · exact absurd hminus (by decide)
      · exact absurd hdigit (by decide)
    simp [segmentText, hnumeral]

theorem newline_mem_continued_iff (path : Path) :
    '\n' ∈ continued path ↔ ∃ name, .field name ∈ path ∧ '\n' ∈ name.toList := by
  rw [continued, List.mem_flatMap]
  simp only [newline_mem_segmentText_iff]
  constructor
  · rintro ⟨segment, hsegment, name, rfl, hname⟩
    exact ⟨name, hsegment, hname⟩
  · rintro ⟨name, hsegment, hname⟩
    exact ⟨.field name, hsegment, name, rfl, hname⟩

/-- The first segment has no dot, which would not be a line feed anyway. -/
theorem newline_mem_chars_iff (path : Path) : '\n' ∈ path.chars ↔ '\n' ∈ continued path := by
  rcases path with _ | ⟨_ | _, rest⟩
  · rfl
  · simp [chars, continued, segmentText]
  · rfl

end Path

theorem Emission.newline_not_mem_line_iff (e : Emission) :
    '\n' ∉ e.line.toList ↔ e.IsOneLine := by
  have hline : '\n' ∈ e.line.toList ↔ '\n' ∈ e.path.chars ∨ '\n' ∈ e.value.toList := by
    simp [line, Path.line, Path.text]
  rw [hline, Path.newline_mem_chars_iff, Path.newline_mem_continued_iff, IsOneLine, not_or,
    and_comm]
  simp

theorem splitLines_of_emissions_iff (shown : List Emission) :
    Text.splitLines (Text.joinLines (shown.map Emission.line)) = shown.map Emission.line ↔
      ∀ e ∈ shown, e.IsOneLine := by
  rw [Text.splitLines_joinLines_eq_iff, List.forall_mem_map]
  simp only [Emission.newline_not_mem_line_iff]

/-! ### The emissions of a command -/

/-- The emissions for nodes of some documents, which are numbered. -/
def numberedEmissions (isMany : Bool) (entry : Path) (options : FlattenOptions)
    (nodes : List (Tree × Nat)) : List Emission :=
  nodes.flatMap fun node => emissions node.1 (documentPath isMany entry node.2) options

theorem numberedLines_eq_map (isMany : Bool) (entry : Path) (options : FlattenOptions)
    (nodes : List (Tree × Nat)) :
    numberedLines isMany entry options nodes =
      (numberedEmissions isMany entry options nodes).map Emission.line := by
  rw [numberedEmissions, List.map_flatMap]
  rfl

variable {world : World} {words : List String}

theorem Command.hasDistinctKeys_of_trees {c : Command} {trees : List Tree} {t : Tree}
    (h : (c.trees world).result = .ok trees) (ht : t ∈ trees) : t.HasDistinctKeys := by
  unfold Command.trees at h
  split at h
  · obtain ⟨decoded, hdecoded, h⟩ := Traced.result_bind_eq_ok_iff.1 h
    obtain ⟨_, -, h⟩ := Traced.result_bind_eq_ok_iff.1 h
    cases h
    exact hasDistinctKeys_of_decodeNamed (mapError_eq_ok_iff.1 hdecoded) ht
  · obtain ⟨_, -, h⟩ := Traced.result_bind_eq_ok_iff.1 h
    obtain ⟨cluster, -, h⟩ := Traced.result_bind_eq_ok_iff.1 h
    obtain ⟨object, -, h⟩ := Traced.result_bind_eq_ok_iff.1 h
    obtain ⟨tree, hdecoded, h⟩ := Traced.result_bind_eq_ok_iff.1 h
    obtain ⟨_, -, h⟩ := Traced.result_bind_eq_ok_iff.1 h
    cases h
    rw [List.mem_singleton.1 ht]
    exact hasDistinctKeys_of_decodeData (mapError_eq_ok_iff.1 hdecoded)

theorem hasDistinctKeys_of_resolved {c : Command} {path : Path} {trees nodes : List Tree}
    {node : Tree} (htrees : (c.trees world).result = .ok trees)
    (hnodes : List.Forall₂ (fun root node => root.resolve path = .ok node) trees nodes)
    (hnode : node ∈ nodes) : node.HasDistinctKeys := by
  obtain ⟨root, hroot, hresolved⟩ := exists_of_forall₂ hnodes.flip hnode
  exact (Command.hasDistinctKeys_of_trees htrees hroot).of_descend
    (Tree.resolve_eq_ok_iff.1 hresolved)

/-- A run that does what its command asks for delivers a line for each emission of its documents.
Splitting the text at its line feeds gives the pieces of these lines, one line after another, so it
gives back the lines exactly if no line feed stands in the values that are shown or in the fields
on the way to them. Without a limit and without keys to prune there is one emission for each path
that leads to a scalar. -/
theorem delivered_text_splits_into_pieces (hending : (run world words).ending = .exited 0)
    (hhelp : commandOf world words ≠ .error .help) :
    ∃ c path keys trees nodes, commandOf world words = .ok c ∧ c.path = .ok path ∧
      c.prunedKeys = .ok keys ∧ (c.trees world).result = .ok trees ∧
      List.Forall₂ (fun root node => root.resolve path = .ok node) trees nodes ∧
      let options := FlattenOptions.of c.depth keys c.pure
      let place := documentPath (decide (1 < trees.length)) (if c.absolute then path else [])
      let shown := nodes.zipIdx.flatMap fun node => emissions node.1 (place node.2) options
      let lines := shown.map fun e => e.path.text ++ ": " ++ e.value
      documents trees path options c.absolute = ⟨lines, none⟩ ∧
      (run world words).Delivers world c.output (Text.joinLines lines) ∧
      Text.splitLines (Text.joinLines lines) = lines.flatMap Text.pieces ∧
      (Text.splitLines (Text.joinLines lines) = lines ↔ ∀ e ∈ shown, e.IsOneLine) ∧
      (options.isUnlimited = true → options.pruned = [] →
        (shown = nodes.zipIdx.flatMap fun node => node.1.scalars.map (.under (place node.2))) ∧
        ∀ node ∈ nodes, (node.scalars.map Emission.path).Nodup ∧ ∀ inner text,
          ⟨inner, text⟩ ∈ node.scalars ↔ node.resolve inner = .ok (.scalar text)) := by
  obtain ⟨reading, c, lines, hread, hcommand, hasks, hdelivers⟩ :=
    delivers_of_exited_zero hending hhelp
  obtain ⟨other, hother, houtput⟩ := exists_reading_of_command hcommand
  cases hother.symm.trans hread
  rw [← houtput] at hdelivers
  obtain ⟨path, keys, trees, hpath, hkeys, htrees, -, hdocuments⟩ := hasks
  obtain ⟨nodes, hnodes, hlines⟩ := documents_eq_done_iff.1 hdocuments
  rw [numberedLines_eq_map] at hlines
  subst hlines
  refine ⟨c, path, keys, trees, nodes, hcommand, hpath, hkeys, htrees, hnodes, hdocuments,
    hdelivers, Text.splitLines_joinLines _, splitLines_of_emissions_iff _, ?_⟩
  intro hlevels hpruned
  refine ⟨List.flatMap_congr fun node _ => emissions_of_unlimited hlevels hpruned, ?_⟩
  intro node hnode
  have hdistinct := hasDistinctKeys_of_resolved htrees hnodes hnode
  exact ⟨Tree.nodup_paths_scalars hdistinct, Tree.mem_scalars_iff_resolve hdistinct⟩

def twoLines : String := "a: |\n  x\n  y\n"

/-- One scalar is shown on three lines: its two lines and an empty one behind them. -/
theorem two_lines_are_delivered_as_three :
    ∃ lines, (fileCommand "-" "").Asks (showing twoLines) lines ∧
      lines = ["a: x\ny\n"] ∧
      (run (showing twoLines) ["--file=-", "--entry="]).stdout = Text.joinLines lines ∧
      Text.splitLines (Text.joinLines lines) = ["a: x", "y", ""] := by
  have hhelp : commandOf (showing twoLines) ["--file=-", "--entry="] ≠ .error .help := by
    rw [commandOf_showing]
    exact nofun
  obtain ⟨c, path, keys, trees, nodes, hcommand, hpath, hkeys, htrees, -, hdocuments, hdelivers,
    hsplit, -⟩ := delivered_text_splits_into_pieces (by decide +kernel) hhelp
  cases hcommand.symm.trans (commandOf_showing twoLines)
  have hasks : (fileCommand "-" "").Asks (showing twoLines) _ :=
    ⟨path, keys, trees, hpath, hkeys, htrees, nofun, hdocuments⟩
  have hlines : ((fileCommand "-" "").lines (showing twoLines)).result.toOption =
      some ["a: x\ny\n"] := by decide +kernel
  rw [Command.result_lines_eq_ok_iff.2 hasks] at hlines
  have hone := Option.some.inj hlines
  refine ⟨_, hasks, hone, hdelivers.1, hsplit.trans ?_⟩
  rw [hone]
  decide +kernel

end Treeline
