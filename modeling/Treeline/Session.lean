import Treeline.Path.Trail

/-!
# Walking through documents step by step

A session stands at a node of one of its documents and remembers the path that leads there. Moving
goes to the root of a document, or down from where the session stands. A move that fails leaves the
session where it is.
-/

namespace Treeline

/-- Documents, and a node in one of them with the path that leads to it. -/
structure Session where
  documents : List Tree
  node : Tree
  path : Path

namespace Session

/-- A session at the root of the first document. Without documents it stands at an empty mapping. -/
def start (documents : List Tree) : Session :=
  ⟨documents, documents.head?.getD (.mapping []), []⟩

/-- The document with a number. Numbers below zero count from the end. -/
def document? (s : Session) (number : Int) : Option Tree :=
  let number := if number < 0 then number + s.documents.length else number
  if number < 0 then none else s.documents[number.toNat]?

def toDocument (s : Session) (number : Int) : Except (Stop Unresolved) Session :=
  match s.document? number with
  | some root => .ok { s with node := root, path := [] }
  | none => .error (.fault .noDocument)

def go (s : Session) (trail : Trail) : Except (Stop Unresolved) Session :=
  (trail.resolve s.node).map fun node => { s with node, path := s.path ++ trail.path }

/-- A way to leave the node at which a session stands. -/
inductive Move
  | toDocument (number : Int)
  | go (trail : Trail)

def attempt (s : Session) : Move → Except (Stop Unresolved) Session
  | .toDocument number => s.toDocument number
  | .go trail => s.go trail

/-- The session behind a move, whether or not the move fails. -/
def move (s : Session) (m : Move) : Session :=
  match s.attempt m with
  | .ok next => next
  | .error _ => s

/-- The lines for the node at which the session stands. Absolute lines begin with its path. -/
def lines (s : Session) (options : FlattenOptions) (absolute : Bool) : List String :=
  Treeline.lines s.node (if absolute then s.path else []) options

/-- The lines for all documents, from the nodes that a trail leads to. -/
def allLines (s : Session) (trail : Trail) (options : FlattenOptions) (absolute : Bool) :
    Except (Stop Unresolved) (List String) :=
  (trail.documents s.documents options absolute).toExcept

end Session

end Treeline
