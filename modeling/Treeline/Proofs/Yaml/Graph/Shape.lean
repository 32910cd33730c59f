import Treeline.Proofs.Unfold.Unfolding
import Treeline.Yaml.Graph.Read

/-!
# Shapes of documents

A document without anchors, aliases and tags is a tree of scalars and of collections in one of five
styles. Its shape gives the tokens that it is read from, and the contents of the nodes that reading
adds: a node comes before the nodes below it, which follow in the order of the text. A graph with
these contents unfolds to the tree that the shape stands for.
-/

namespace Treeline.Yaml

mutual

/-- A node, with the style that it is written in. -/
inductive Shape
  | scalar (text : String) (isPlain : Bool)
  | flowSequence (items : Shapes)
  | flowMapping (entries : Entries)
  | blockSequence (items : Shapes)
  /-- A block sequence whose dashes are not indented. -/
  | indentless (items : Shapes)
  | blockMapping (entries : Entries)

inductive Shapes
  | nil
  | cons (item : Shape) (rest : Shapes)

inductive Entries
  | nil
  | cons (key : String) (isPlain : Bool) (value : Shape) (rest : Entries)

end

namespace Shapes

def comma : Shapes → List Lexeme
  | .nil => []
  | .cons .. => [.flowEntry]

def isNil : Shapes → Bool
  | .nil => true
  | .cons .. => false

end Shapes

namespace Entries

def comma : Entries → List Lexeme
  | .nil => []
  | .cons .. => [.flowEntry]

def isNil : Entries → Bool
  | .nil => true
  | .cons .. => false

end Entries

/-! ### Tokens -/

mutual

def Shape.lexemes : Shape → List Lexeme
  | .scalar text isPlain => [.scalar text isPlain]
  | .flowSequence items => .flowSequenceStart :: (items.flowLexemes ++ [.flowSequenceEnd])
  | .flowMapping entries => .flowMappingStart :: (entries.flowLexemes ++ [.flowMappingEnd])
  | .blockSequence items => .blockSequenceStart :: (items.blockLexemes ++ [.blockEnd])
  | .indentless items => items.blockLexemes
  | .blockMapping entries => .blockMappingStart :: (entries.blockLexemes ++ [.blockEnd])

def Shapes.flowLexemes : Shapes → List Lexeme
  | .nil => []
  | .cons item rest => item.lexemes ++ (rest.comma ++ rest.flowLexemes)

def Shapes.blockLexemes : Shapes → List Lexeme
  | .nil => []
  | .cons item rest => .blockEntry :: (item.lexemes ++ rest.blockLexemes)

def Entries.flowLexemes : Entries → List Lexeme
  | .nil => []
  | .cons key isPlain value rest =>
    .key :: .scalar key isPlain :: .value :: (value.lexemes ++ (rest.comma ++ rest.flowLexemes))

def Entries.blockLexemes : Entries → List Lexeme
  | .nil => []
  | .cons key isPlain value rest =>
    .key :: .scalar key isPlain :: .value :: (value.lexemes ++ rest.blockLexemes)

end

/-! ### Nodes -/

mutual

/-- How many nodes there are. -/
def Shape.count : Shape → Nat
  | .scalar _ _ => 1
  | .flowSequence items => items.count + 1
  | .flowMapping entries => entries.count + 1
  | .blockSequence items => items.count + 1
  | .indentless items => items.count + 1
  | .blockMapping entries => entries.count + 1

def Shapes.count : Shapes → Nat
  | .nil => 0
  | .cons item rest => item.count + rest.count

def Entries.count : Entries → Nat
  | .nil => 0
  | .cons _ _ value rest => 1 + value.count + rest.count

end

def Shapes.numbers (first : Nat) : Shapes → List Nat
  | .nil => []
  | .cons item rest => first :: rest.numbers (first + item.count)

def Entries.numbers (first : Nat) : Entries → List (Nat × Nat)
  | .nil => []
  | .cons _ _ value rest => (first, first + 1) :: rest.numbers (first + 1 + value.count)

mutual

/-- What the nodes hold, from a number on. -/
def Shape.contents (first : Nat) : Shape → List Content
  | .scalar text _ => [.scalar text]
  | .flowSequence items => .sequence (items.numbers (first + 1)) :: items.contents (first + 1)
  | .flowMapping entries => .mapping (entries.numbers (first + 1)) :: entries.contents (first + 1)
  | .blockSequence items => .sequence (items.numbers (first + 1)) :: items.contents (first + 1)
  | .indentless items => .sequence (items.numbers (first + 1)) :: items.contents (first + 1)
  | .blockMapping entries => .mapping (entries.numbers (first + 1)) :: entries.contents (first + 1)

def Shapes.contents (first : Nat) : Shapes → List Content
  | .nil => []
  | .cons item rest => item.contents first ++ rest.contents (first + item.count)

def Entries.contents (first : Nat) : Entries → List Content
  | .nil => []
  | .cons key _ value rest =>
    .scalar key :: (value.contents (first + 1) ++ rest.contents (first + 1 + value.count))

end

/-! ### The tree -/

mutual

def Shape.tree : Shape → Tree
  | .scalar text _ => .scalar text
  | .flowSequence items => .sequence items.trees
  | .flowMapping entries => .mapping entries.trees
  | .blockSequence items => .sequence items.trees
  | .indentless items => .sequence items.trees
  | .blockMapping entries => .mapping entries.trees

def Shapes.trees : Shapes → List Tree
  | .nil => []
  | .cons item rest => item.tree :: rest.trees

def Entries.trees : Entries → List (String × Tree)
  | .nil => []
  | .cons key _ value rest => (key, value.tree) :: rest.trees

end

/-! ### Unfolding -/

namespace Graph

/-- The nodes from a number on hold some contents. -/
def Holds (g : Graph) : (first : Nat) → List Content → Prop
  | _, [] => True
  | first, content :: rest => (g.node first).content = content ∧ g.Holds (first + 1) rest

theorem holds_append (g : Graph) (first : Nat) (as bs : List Content) :
    g.Holds first (as ++ bs) ↔ g.Holds first as ∧ g.Holds (first + as.length) bs := by
  induction as generalizing first with
  | nil => simp [Holds]
  | cons a as ih =>
    rw [List.cons_append, Holds, Holds, ih, and_assoc, List.length_cons]
    have hplace : first + 1 + as.length = first + (as.length + 1) := by omega
    rw [hplace]

theorem holds_contents (g : Graph) : g.Holds 0 (g.nodes.toList.map Node.content) := by
  have hdrop : ∀ count first, g.nodes.size = first + count →
      g.Holds first ((g.nodes.toList.drop first).map Node.content) := by
    intro count
    induction count with
    | zero =>
      intro first hsize
      rw [List.drop_of_length_le (by simp [hsize])]
      trivial
    | succ count ih =>
      intro first hsize
      have hfirst : first < g.nodes.toList.length := by
        rw [Array.length_toList]
        omega
      rw [List.drop_eq_getElem_cons hfirst, List.map_cons, Holds]
      refine ⟨?_, ih (first + 1) (by omega)⟩
      rw [Array.length_toList] at hfirst
      simp [node, Array.getElem?_eq_getElem hfirst]
  exact hdrop g.nodes.size 0 (Nat.zero_add _).symm

end Graph

mutual

theorem Shape.length_contents (v : Shape) (first : Nat) :
    (v.contents first).length = v.count := by
  cases v with
  | scalar text isPlain => rfl
  | flowSequence items => exact congrArg Nat.succ (items.length_contents _)
  | flowMapping entries => exact congrArg Nat.succ (entries.length_contents _)
  | blockSequence items => exact congrArg Nat.succ (items.length_contents _)
  | indentless items => exact congrArg Nat.succ (items.length_contents _)
  | blockMapping entries => exact congrArg Nat.succ (entries.length_contents _)

theorem Shapes.length_contents (items : Shapes) (first : Nat) :
    (items.contents first).length = items.count := by
  cases items with
  | nil => rfl
  | cons item rest =>
    rw [Shapes.contents, List.length_append, item.length_contents, rest.length_contents,
      Shapes.count]

theorem Entries.length_contents (entries : Entries) (first : Nat) :
    (entries.contents first).length = entries.count := by
  cases entries with
  | nil => rfl
  | cons key isPlain value rest =>
    rw [Entries.contents, List.length_cons, List.length_append, value.length_contents,
      rest.length_contents, Entries.count]
    omega

end

mutual

/-- A node that holds the contents of a shape, with those below behind it, unfolds to its tree. -/
theorem Shape.unfolds {g : Graph} (v : Shape) {first : Nat} (h : g.Holds first (v.contents first)) :
    g.Unfolds first v.tree := by
  have hsequence : ∀ items : Shapes, (g.node first).content = .sequence (items.numbers (first + 1)) →
      List.Forall₂ g.Unfolds (items.numbers (first + 1)) items.trees →
      g.Unfolds first (.sequence items.trees) := by
    intro items hnode hitems
    refine .intro (by rw [hnode]; trivial) ?_
    rwa [hnode, Tree.values_sequence]
  have hmapping : ∀ entries : Entries,
      (g.node first).content = .mapping (entries.numbers (first + 1)) →
      (entries.numbers (first + 1)).map (fun pair => (g.node pair.1).content) =
        entries.trees.map (fun entry => .scalar entry.1) →
      List.Forall₂ g.Unfolds ((entries.numbers (first + 1)).map Prod.snd)
        (entries.trees.map Prod.snd) →
      g.Unfolds first (.mapping entries.trees) := by
    intro entries hnode hkeys hvalues
    refine .intro (by rw [hnode]; exact hkeys) ?_
    rwa [hnode, Tree.values_mapping]
  cases v with
  | scalar text isPlain =>
    refine .intro ?_ ?_
    · rw [h.1]
      rfl
    · rw [h.1]
      exact .nil
  | flowSequence items => exact hsequence items h.1 (items.unfolds h.2)
  | blockSequence items => exact hsequence items h.1 (items.unfolds h.2)
  | indentless items => exact hsequence items h.1 (items.unfolds h.2)
  | flowMapping entries => exact hmapping entries h.1 (entries.unfolds h.2).1 (entries.unfolds h.2).2
  | blockMapping entries =>
    exact hmapping entries h.1 (entries.unfolds h.2).1 (entries.unfolds h.2).2

theorem Shapes.unfolds {g : Graph} (items : Shapes) {first : Nat}
    (h : g.Holds first (items.contents first)) :
    List.Forall₂ g.Unfolds (items.numbers first) items.trees := by
  cases items with
  | nil => exact .nil
  | cons item rest =>
    rw [Shapes.contents, Graph.holds_append, item.length_contents] at h
    exact .cons (item.unfolds h.1) (rest.unfolds h.2)

theorem Entries.unfolds {g : Graph} (entries : Entries) {first : Nat}
    (h : g.Holds first (entries.contents first)) :
    (entries.numbers first).map (fun pair => (g.node pair.1).content) =
        entries.trees.map (fun entry => .scalar entry.1) ∧
      List.Forall₂ g.Unfolds ((entries.numbers first).map Prod.snd)
        (entries.trees.map Prod.snd) := by
  cases entries with
  | nil => exact ⟨rfl, .nil⟩
  | cons key isPlain value rest =>
    rw [Entries.contents, Graph.Holds, Graph.holds_append, value.length_contents] at h
    obtain ⟨hkey, hvalue, hrest⟩ := h
    obtain ⟨hkeys, hvalues⟩ := rest.unfolds hrest
    refine ⟨?_, .cons (value.unfolds hvalue) hvalues⟩
    rw [Entries.numbers, List.map_cons, hkey, hkeys]
    rfl

end

end Treeline.Yaml
