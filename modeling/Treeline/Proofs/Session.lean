import Treeline.Proofs.Results
import Treeline.Proofs.Tree.Descent
import Treeline.Session

/-!
# Where a session stands

A session remembers a node and a path, but not the document that they belong to. The node is always
the one that the path leads to from the root of a document: the one that the session has last moved
to, or the first one. So its lines are those of that document, flattened from its path.
-/

namespace Treeline.Session

variable {s next : Session} {docs : List Tree} {root : Tree} {stop : Stop Unresolved}

/-- Whether a session over some documents stands where its path leads from a root. The root is that
of one of the documents. If there are none, it is an empty mapping. -/
structure IsBelow (s : Session) (docs : List Tree) (root : Tree) : Prop where
  documents : s.documents = docs
  isRoot : root ∈ docs ∨ docs = [] ∧ root = .mapping []
  resolves : root.resolve s.path = .ok s.node

/-- The root below which a session stands behind a move. -/
def rootBehind (docs : List Tree) (root : Tree) : Move → Tree
  | .toDocument number => ((start docs).document? number).getD root
  | .go _ => root

theorem mem_of_document? {number : Int} (h : s.document? number = some root) :
    root ∈ s.documents := by
  rw [document?] at h
  generalize (if number < 0 then number + s.documents.length else number) = place at h
  split at h
  · cases h
  · exact List.mem_of_getElem? h

theorem isBelow_start (docs : List Tree) : (start docs).IsBelow docs (start docs).node where
  documents := rfl
  isRoot := by
    cases docs with
    | nil => exact .inr ⟨rfl, rfl⟩
    | cons first rest => exact .inl List.mem_cons_self
  resolves := rfl

theorem IsBelow.document?_eq (h : s.IsBelow docs root) (number : Int) :
    s.document? number = (start docs).document? number := by
  rw [document?, document?, h.documents]
  rfl

theorem IsBelow.toDocument (h : s.IsBelow docs root) {number : Int}
    (hmove : s.toDocument number = .ok next) :
    next.IsBelow docs (rootBehind docs root (.toDocument number)) := by
  rw [Session.toDocument] at hmove
  split at hmove
  · rename_i other hother
    cases hmove
    have hmem := mem_of_document? hother
    rw [h.documents] at hmem
    rw [rootBehind, ← h.document?_eq, hother]
    exact ⟨h.documents, .inl hmem, rfl⟩
  · cases hmove

/-- What is reached from a node in the middle of a path is reached from its beginning. -/
theorem IsBelow.go (h : s.IsBelow docs root) {trail : Trail} (hmove : s.go trail = .ok next) :
    next.IsBelow docs root := by
  obtain ⟨node, hnode, rfl⟩ := map_eq_ok_iff.1 hmove
  obtain ⟨found, hfound, hfinish⟩ := bind_eq_ok_iff.1 hnode
  have hend : found = node := by
    rw [Trail.finish] at hfinish
    split at hfinish
    · exact Except.ok.inj hfinish
    · cases hfinish
  subst hend
  refine ⟨h.documents, h.isRoot, ?_⟩
  change root.resolve (s.path ++ trail.path) = .ok found
  rw [Tree.resolve_eq_ok_iff, Tree.descend?_append, Tree.resolve_eq_ok_iff.1 h.resolves]
  exact Tree.resolve_eq_ok_iff.1 hfound

/-- A move that fails stays at the node. It can only name a document that is not there, so the root
is the same as well. -/
theorem IsBelow.move (h : s.IsBelow docs root) (m : Move) :
    (s.move m).IsBelow docs (rootBehind docs root m) := by
  rw [Session.move]
  split
  · rename_i next hnext
    cases m with
    | toDocument number => exact h.toDocument hnext
    | go trail => exact h.go hnext
  · rename_i stop hstop
    cases m with
    | toDocument number =>
      rw [attempt, Session.toDocument] at hstop
      split at hstop
      · cases hstop
      · rename_i hnone
        rw [rootBehind, ← h.document?_eq, hnone]
        exact h
    | go trail => exact h

theorem IsBelow.moves (h : s.IsBelow docs root) (ms : List Move) :
    (ms.foldl Session.move s).IsBelow docs (ms.foldl (rootBehind docs) root) := by
  induction ms generalizing s root with
  | nil => exact h
  | cons m ms ih => exact ih (h.move m)

/-- After any moves a session stands where its path leads from the root of the document that it has
last moved to, which is the first one if it has moved to none. -/
theorem isBelow_of_moves (docs : List Tree) (ms : List Move) :
    (ms.foldl move (start docs)).IsBelow docs
      (ms.foldl (rootBehind docs) (start docs).node) :=
  (isBelow_start docs).moves ms

/-- The absolute lines of a session are those of its document, flattened from its path. -/
theorem IsBelow.documents_eq_lines (h : s.IsBelow docs root) (options : FlattenOptions) :
    Treeline.documents [root] s.path options true = ⟨s.lines options true, none⟩ := by
  rw [Treeline.documents, documentsFrom, h.resolves]
  simp [Session.lines, documentsFrom, Output.after, Output.empty]

example : ([.go ⟨[.field "a"], none⟩, .go ⟨[.field "b"], none⟩].foldl move
    (start [.mapping [("a", .scalar "1")]])).path = [.field "a"] := by decide

end Treeline.Session
