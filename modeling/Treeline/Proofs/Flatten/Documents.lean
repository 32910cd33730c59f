import Treeline.Proofs.Flatten.Window
import Treeline.Proofs.Numeral
import Treeline.Proofs.Results

/-!
# Documents one after another

The output for several documents is what is shown for each of them, one after another, up to the
first in which the path leads nowhere. Each line of many documents begins with the number of its
document. Behind the number stands a sign that is no digit, whatever the keys below it are, so the
number can be read off the line, and lines of different documents differ.
-/

namespace Treeline

/-- Where a node of a document is shown: behind the label of the document if there are many, and
behind the entry of an absolute output. -/
def documentPath (isMany : Bool) (entry : Path) (number : Nat) : Path :=
  (if isMany then [documentLabel number] else []) ++ entry

/-- The lines for nodes of some documents, which are numbered. -/
def numberedLines (isMany : Bool) (entry : Path) (options : FlattenOptions)
    (nodes : List (Tree × Nat)) : List String :=
  nodes.flatMap fun node => lines node.1 (documentPath isMany entry node.2) options

variable {roots nodes before after : List Tree} {root : Tree} {path entry : Path}
  {options : FlattenOptions} {absolute isMany : Bool} {number : Nat} {stop : Stop Unresolved}

/-! ### In order -/

theorem Output.after_after {ε : Type} (first second : List String) (output : Output ε) :
    Output.after first (.after second output) = .after (first ++ second) output := by
  rw [after, after, after, List.append_assoc]

theorem documentsFrom_append {ε : Type} {start : Tree → Except ε Tree}
    (hnodes : List.Forall₂ (fun root node => start root = .ok node) before nodes) (isMany : Bool)
    (entry : Path) (options : FlattenOptions) (number : Nat) (rest : List Tree) :
    documentsFrom start isMany entry options number (before ++ rest) =
      .after (numberedLines isMany entry options (nodes.zipIdx number))
        (documentsFrom start isMany entry options (number + before.length) rest) := by
  induction hnodes generalizing number with
  | nil => rfl
  | @cons root node before nodes hnode _ ih =>
    rw [List.cons_append, documentsFrom, hnode]
    dsimp only
    rw [ih, Output.after_after, List.length_cons, Nat.add_assoc, Nat.add_comm 1]
    rfl

theorem documents_of_resolved
    (hnodes : List.Forall₂ (fun root node => root.resolve path = .ok node) roots nodes) :
    documents roots path options absolute =
      ⟨numberedLines (decide (1 < roots.length)) (if absolute then path else []) options
        nodes.zipIdx, none⟩ := by
  have happend := documentsFrom_append hnodes (decide (1 < roots.length))
    (if absolute then path else []) options 0 []
  rw [List.append_nil] at happend
  rw [documents, happend, documentsFrom, Output.after, Output.empty, List.append_nil]

theorem documents_singleton {node : Tree} (hnode : root.resolve path = .ok node) :
    documents [root] path options absolute =
      ⟨lines node (if absolute then path else []) options, none⟩ := by
  rw [documents_of_resolved (.cons hnode .nil), numberedLines, List.zipIdx_singleton,
    List.flatMap_singleton]
  rfl

theorem documents_of_unresolved (hroots : roots = before ++ root :: after)
    (hnodes : List.Forall₂ (fun root node => root.resolve path = .ok node) before nodes)
    (hroot : root.resolve path = .error stop) :
    documents roots path options absolute =
      ⟨numberedLines (decide (1 < roots.length)) (if absolute then path else []) options
        nodes.zipIdx, some stop⟩ := by
  have happend := documentsFrom_append hnodes (decide (1 < roots.length))
    (if absolute then path else []) options 0 (root :: after)
  rw [← hroots] at happend
  rw [documents, happend, documentsFrom, hroot, Output.after, List.append_nil]

theorem documents_cases (roots : List Tree) (path : Path) (options : FlattenOptions)
    (absolute : Bool) :
    (∃ nodes, List.Forall₂ (fun root node => root.resolve path = .ok node) roots nodes ∧
      documents roots path options absolute =
        ⟨numberedLines (decide (1 < roots.length)) (if absolute then path else []) options
          nodes.zipIdx, none⟩) ∨
    ∃ root ∈ roots, ∃ shown stop, root.resolve path = .error stop ∧
      documents roots path options absolute = ⟨shown, some stop⟩ := by
  cases hall : roots.mapM (·.resolve path) with
  | ok nodes =>
    have hnodes := mapM_eq_ok_iff.1 hall
    exact .inl ⟨nodes, hnodes, documents_of_resolved hnodes⟩
  | error stop =>
    obtain ⟨before, root, after, nodes, hroots, hbefore, hroot⟩ := mapM_eq_error_iff.1 hall
    refine .inr ⟨root, ?_, _, stop, hroot,
      documents_of_unresolved hroots (mapM_eq_ok_iff.1 hbefore) hroot⟩
    rw [hroots]
    exact List.mem_append_right _ List.mem_cons_self

theorem documents_eq_done_iff {shown : List String} :
    documents roots path options absolute = ⟨shown, none⟩ ↔
      ∃ nodes, List.Forall₂ (fun root node => root.resolve path = .ok node) roots nodes ∧
        shown = numberedLines (decide (1 < roots.length)) (if absolute then path else []) options
          nodes.zipIdx := by
  constructor
  · intro h
    obtain ⟨nodes, hnodes, hdone⟩ | ⟨root, -, cut, stop, -, hstopped⟩ :=
      documents_cases roots path options absolute
    · rw [hdone] at h
      cases h
      exact ⟨nodes, hnodes, rfl⟩
    · rw [hstopped] at h
      cases h
  · rintro ⟨nodes, hnodes, rfl⟩
    exact documents_of_resolved hnodes

/-! ### Numbers of documents -/

/-- The number of the document to which a line belongs, if there are many. -/
def documentNumber (line : String) : Nat :=
  Numeral.value ((line.toList.drop "doc".toList.length).takeWhile Char.isDigit)

/-- What stands behind the first field of a line begins with one of three signs. -/
theorem exists_sign_of_line (name : String) (rest : Path) (value : String) :
    ∃ sign more, (sign = '.' ∨ sign = '[' ∨ sign = ':') ∧
      (Path.line (.field name :: rest) value).toList = name.toList ++ sign :: more := by
  have hline : (Path.line (.field name :: rest) value).toList =
      name.toList ++ (Path.continued rest ++ ": ".toList ++ value.toList) := by
    simp [Path.line, Path.text, Path.chars]
  rw [hline]
  rcases rest with _ | ⟨_ | _, rest⟩
  · exact ⟨':', _, by simp, rfl⟩
  · exact ⟨'.', _, by simp, rfl⟩
  · exact ⟨'[', _, by simp, rfl⟩

/-- A line of one of many documents begins with the label of the document and a sign behind it. -/
theorem exists_sign_of_mem_lines {node : Tree} {line : String}
    (hline : line ∈ lines node (documentPath true entry number) options) :
    ∃ sign more, (sign = '.' ∨ sign = '[' ∨ sign = ':') ∧
      line.toList = "doc".toList ++ Numeral.ofNat number ++ sign :: more := by
  obtain ⟨e, he, rfl⟩ := List.mem_map.1 hline
  rw [emissions_eq_flatten] at he
  obtain ⟨inner, hinner⟩ := Tree.prefix_of_mem_flattenAt he
  obtain ⟨sign, more, hsign, hchars⟩ :=
    exists_sign_of_line ("doc" ++ Numeral.text number) (entry ++ inner) e.value
  refine ⟨sign, more, hsign, ?_⟩
  have hpath : e.path = .field ("doc" ++ Numeral.text number) :: (entry ++ inner) := hinner.symm
  have hnumber : (Numeral.text number).toList = Numeral.ofNat number := String.toList_ofList
  rw [Emission.line, hpath, hchars, String.toList_append, hnumber]

theorem documentNumber_of_mem_lines {node : Tree} {line : String}
    (hline : line ∈ lines node (documentPath true entry number) options) :
    documentNumber line = number := by
  obtain ⟨sign, more, hsign, hchars⟩ := exists_sign_of_mem_lines hline
  have hdigits : ∀ c ∈ Numeral.ofNat number, c.isDigit = true :=
    fun _ hc => Numeral.isDigit_of_mem_ofNat hc
  have hstop : sign.isDigit = false := by
    rcases hsign with rfl | rfl | rfl <;> decide
  rw [documentNumber, hchars, List.append_assoc, List.drop_left,
    List.takeWhile_append_of_pos hdigits, List.takeWhile_cons_of_neg (by simp [hstop]),
    List.append_nil, Numeral.value_ofNat]

/-- Documents are shown one after another, each from the node to which the path leads in it, behind
its label if there are many and behind the path if the output is absolute. The first document in
which the path leads nowhere ends the output with its error, and what stands before it is shown. A
line of one of many documents begins with the word and the number of its label and one of three
signs, so the number can be read off it, and no other document has that line. -/
theorem documents_are_shown_in_order (roots : List Tree) (path : Path) (options : FlattenOptions)
    (absolute : Bool) :
    let isMany := decide (1 < roots.length)
    let entry := if absolute then path else []
    let shown := fun document : Tree × Nat =>
      lines document.1 ((if isMany then [documentLabel document.2] else []) ++ entry) options
    (∀ nodes, List.Forall₂ (fun root node => root.resolve path = .ok node) roots nodes →
      documents roots path options absolute = ⟨nodes.zipIdx.flatMap shown, none⟩) ∧
    (∀ before root after nodes stop, roots = before ++ root :: after →
      List.Forall₂ (fun root node => root.resolve path = .ok node) before nodes →
      root.resolve path = .error stop →
      documents roots path options absolute = ⟨nodes.zipIdx.flatMap shown, some stop⟩) ∧
    (1 < roots.length → ∀ node number, ∀ line ∈ shown (node, number),
      (∃ sign rest, (sign = '.' ∨ sign = '[' ∨ sign = ':') ∧
        line = "doc" ++ Numeral.text number ++ String.singleton sign ++ rest) ∧
      documentNumber line = number ∧
      ∀ other otherNumber, otherNumber ≠ number → line ∉ shown (other, otherNumber)) := by
  intro isMany entry shown
  refine ⟨fun nodes hnodes => documents_of_resolved hnodes,
    fun before root after nodes stop hroots hnodes hroot =>
      documents_of_unresolved hroots hnodes hroot, ?_⟩
  intro hmany node number line hline
  have hshown : ∀ document : Tree × Nat,
      shown document = lines document.1 (documentPath true entry document.2) options := by
    intro document
    have hisMany : isMany = true := decide_eq_true hmany
    change lines _ ((if isMany then _ else _) ++ entry) options = _
    rw [hisMany]
    rfl
  rw [hshown] at hline
  refine ⟨?_, documentNumber_of_mem_lines hline, ?_⟩
  · obtain ⟨sign, more, hsign, hchars⟩ := exists_sign_of_mem_lines hline
    refine ⟨sign, String.ofList more, hsign, String.toList_inj.1 ?_⟩
    rw [hchars]
    simp [Numeral.text]
  · intro other otherNumber hne hother
    rw [hshown] at hother
    exact hne ((documentNumber_of_mem_lines hother).symm.trans (documentNumber_of_mem_lines hline))

/-- Three documents of three kinds. -/
def threeKinds : List Tree :=
  [.mapping [("a", .scalar "1")], .sequence [.scalar "2"], .scalar "3"]

/-- All three are shown from their roots. A path that only the first one has ends the output behind
it. -/
theorem three_kinds_are_numbered :
    documents threeKinds [] .all false = ⟨["doc0.a: 1", "doc1[0]: 2", "doc2: 3"], none⟩ ∧
    documents threeKinds [.field "a"] .all true =
      ⟨["doc0.a: 1"], some (.reported (.key "a" []))⟩ ∧
    documentNumber "doc1[0]: 2" = 1 := by
  have hshown : ∀ node path, lines node path .all =
      (node.flatten path .all).map Emission.line := by
    intro node path
    rw [lines, emissions_eq_flatten]
  refine ⟨?_, ?_, ?_⟩
  · refine ((documents_are_shown_in_order threeKinds [] .all false).1 threeKinds
      (.cons rfl (.cons rfl (.cons rfl .nil)))).trans ?_
    simp only [hshown]
    exact congrArg (Output.mk · none) (by decide +kernel)
  · refine ((documents_are_shown_in_order threeKinds [.field "a"] .all true).2.1 [_] _ _
      [.scalar "1"] _ rfl (.cons rfl .nil) rfl).trans ?_
    simp only [hshown]
    exact congrArg (Output.mk · _) (by decide +kernel)
  · refine ((documents_are_shown_in_order threeKinds [] .all false).2.2 (by decide)
      (.sequence [.scalar "2"]) 1 "doc1[0]: 2" ?_).2.1
    simp only [hshown]
    decide +kernel

end Treeline
