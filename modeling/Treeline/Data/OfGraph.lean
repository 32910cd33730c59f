import Treeline.Data.Key
import Treeline.Data.OfScalar
import Treeline.Yaml.Graph

/-!
# Values of documents

The data that a document stands for. Scalars get their values when they are met. Collections are
noted and filled in later, in the order in which they were met, so a collection may hold itself.
Before a mapping is filled, the entries of other mappings that it names are merged into it, in front
of its own.
-/

namespace Treeline.Data

open Yaml

/-- Where the making of values stands. -/
structure Maker where
  nodes : Array Node
  /-- The values of the nodes that were met. -/
  values : Array (Option Datum)
  /-- What the collections hold that are filled in. -/
  definitions : Array Datum
  /-- The collections that are not filled in, in the order in which they were met. -/
  waiting : List Nat

/-- A step of making values. -/
abbrev Making := StateT Maker (Except (Stop Failure))

namespace Making

def failAt {α : Type} (problem : Problem) (m : Mark) : Making α :=
  throw (.reported ⟨none, problem, m⟩)

def fail {α : Type} (context : Context) (start : Mark) (problem : Problem) (m : Mark) : Making α :=
  throw (.reported ⟨some (context, some start), problem, m⟩)

/-- A value that may be a fault. -/
def ofExcept {α : Type} (x : Except Fault α) : Making α :=
  match x with
  | .ok a => return a
  | .error f => throw (.fault f)

def node (id : Nat) : Making Node := do
  return (← get).nodes[id]?.getD .empty

def entries (id : Nat) : Making (List (Nat × Nat)) := do
  match (← node id).content with
  | .mapping entries => return entries
  | _ => return []

def setEntries (id : Nat) (entries : List (Nat × Nat)) : Making Unit :=
  modify fun s =>
    { s with nodes := s.nodes.modify id ({ · with content := .mapping entries }) }

/-! ### Scalars -/

/-- The text of a scalar. A mapping with an entry for its value has the text of that. -/
def text : (fuel : Nat) → Nat → Making String
  | 0, id => do failAt (.wrongKind .scalar .mapping) (← node id).mark
  | fuel + 1, id => do
    let n ← node id
    match n.content with
    | .scalar text => return text
    | .sequence _ => failAt (.wrongKind .scalar .sequence) n.mark
    | .mapping entries =>
      match ← entries.findM? fun entry => return (← node entry.1).tag = Tag.value with
      | some (_, value) => text fuel value
      | none => failAt (.wrongKind .scalar .mapping) n.mark

def scalarText (id : Nat) : Making String := do
  text ((← get).nodes.size + 1) id

def binary (id : Nat) (text : String) : Making Datum := do
  match Base64.decode text.toList with
  | .ok bytes => return .bytes bytes
  | .error problem => failAt (.binary problem) (← node id).mark

def timestamp (id : Nat) (text : String) : Making Datum := do
  match (← node id).content with
  | .mapping _ => throw (.fault .mappingAsText)
  | _ => ofExcept (Datum.ofTimestampText text)

/-- The tags of values that are filled in later. -/
def collectionTags : List String :=
  [Tag.list, Tag.dict, Tag.set, Tag.orderedMap, Tag.pairs]

/-- The value of a node that was not met before. -/
def newValue (id : Nat) : Making Datum := do
  let n ← node id
  if collectionTags.contains n.tag then
    modify fun s => { s with waiting := s.waiting ++ [id] }
    return .shared id
  else if n.tag = Tag.null then
    let _ ← scalarText id
    return .null
  else if n.tag = Tag.bool then ofExcept (Datum.ofBoolText (← scalarText id))
  else if n.tag = Tag.int then ofExcept (Datum.ofIntText (← scalarText id))
  else if n.tag = Tag.float then ofExcept (Datum.ofFloatText (← scalarText id))
  else if n.tag = Tag.binary then binary id (← scalarText id)
  else if n.tag = Tag.timestamp then timestamp id (← scalarText id)
  else if n.tag = Tag.text then return .text (← scalarText id)
  else failAt (.noConstructor n.tag) n.mark

def value (id : Nat) : Making Datum := do
  match ((← get).values[id]?).join with
  | some d => return d
  | none =>
    let d ← newValue id
    modify fun s => { s with values := s.values.setIfInBounds id (some d) }
    return d

/-! ### Merging -/

mutual

/-- Merges into a mapping the mappings that it names. -/
def merge : (fuel : Nat) → Nat → Making Unit
  | 0, _ => return
  | fuel + 1, id => do
    let merged ← mergeFrom fuel id 0 []
    if !merged.isEmpty then setEntries id (merged ++ (← entries id))

/-- Takes out of a mapping the entries from a position on that name mappings to merge, and collects
the entries of these. The plain sign for a value becomes an ordinary key. -/
def mergeFrom : (fuel : Nat) → Nat → (position : Nat) → (merged : List (Nat × Nat)) →
    Making (List (Nat × Nat))
  | 0, _, _, merged => return merged
  | fuel + 1, id, position, merged => do
    let own ← entries id
    match own[position]? with
    | none => return merged
    | some (key, value) =>
      let keyTag := (← node key).tag
      if keyTag = Tag.merge then
        setEntries id (own.eraseIdx position)
        let more ← mergeValue fuel id value
        mergeFrom fuel id position (merged ++ more)
      else
        if keyTag = Tag.value then
          modify fun s => { s with nodes := s.nodes.modify key ({ · with tag := Tag.text }) }
        mergeFrom fuel id (position + 1) merged

/-- The entries to merge into a mapping for a value: those of a mapping, or of a list of mappings
with the last one first. -/
def mergeValue : (fuel : Nat) → Nat → (value : Nat) → Making (List (Nat × Nat))
  | 0, _, _ => return []
  | fuel + 1, id, value => do
    let start := (← node id).mark
    let n ← node value
    match n.content with
    | .mapping _ =>
      merge fuel value
      entries value
    | .sequence items =>
      let parts ← items.mapM fun item => do
        let part ← node item
        match part.content with
        | .mapping _ =>
          merge fuel item
          entries item
        | other => fail .mappingValue start (.cannotMerge other.kind) part.mark
      return parts.reverse.flatten
    | .scalar _ => fail .mappingValue start (.cannotMergeAny .scalar) n.mark

end

/-- The number of entries of all mappings, and of nodes. -/
def work (nodes : Array Node) : Nat :=
  nodes.foldl (fun n node => n + 1 + match node.content with
    | .mapping entries => entries.length
    | .sequence items => items.length
    | .scalar _ => 0) 0

/-! ### Collections -/

def isKey : Datum → Bool
  | .shared _ => false
  | _ => true

/-- The entries of a mapping. A later entry replaces the value of an earlier one with the same
key. -/
def fillEntries (id : Nat) (done : List Datum.Entry) : List (Nat × Nat) →
    Making (List Datum.Entry)
  | [] => return done
  | (key, entry) :: rest => do
    let k ← value key
    if !isKey k then fail .mappingValue (← node id).mark .keyNotHashable (← node key).mark
    else
      let v ← value entry
      fillEntries id (Datum.put done k v) rest

/-- The entries of a mapping after merging. -/
def mappingEntries (id : Nat) : Making (List Datum.Entry) := do
  let n ← node id
  match n.content with
  | .mapping _ =>
    let s ← get
    merge (4 * work s.nodes + 8) id
    fillEntries id [] (← entries id)
  | other => failAt (.wrongKind .mapping other.kind) n.mark

def sequenceItems (id : Nat) : Making (List Datum) := do
  let n ← node id
  match n.content with
  | .sequence items => items.mapM value
  | other => failAt (.wrongKind .sequence other.kind) n.mark

/-- The pairs that a sequence of mappings with one entry each stands for. -/
def pairItems (context : Context) (id : Nat) : Making (List Datum) := do
  let n ← node id
  match n.content with
  | .sequence items =>
    items.mapM fun item => do
      let part ← node item
      match part.content with
      | .mapping [(key, entry)] =>
        let k ← value key
        let v ← value entry
        return .tuple [k, v]
      | .mapping entries => fail context n.mark (.notSingle entries.length) part.mark
      | other => fail context n.mark (.notPair other.kind) part.mark
  | other => fail context n.mark (.notSequence other.kind) n.mark

/-- What a collection holds. -/
def fill (id : Nat) : Making Datum := do
  let tag := (← node id).tag
  if tag = Tag.list then return .list (← sequenceItems id)
  else if tag = Tag.set then return .set ((← mappingEntries id).map (·.1))
  else if tag = Tag.orderedMap then return .list (← pairItems .orderedMap id)
  else if tag = Tag.pairs then return .list (← pairItems .pairs id)
  else return .dict (← mappingEntries id)

/-- Fills in the collections that wait. Each node waits once at most. -/
def fillAll : (fuel : Nat) → Making Unit
  | 0 => return
  | fuel + 1 => do
    match (← get).waiting with
    | [] => return
    | id :: rest =>
      modify fun s => { s with waiting := rest }
      let d ← fill id
      modify fun s => { s with definitions := s.definitions.setIfInBounds id d }
      fillAll fuel

def document (root : Nat) : Making Datum := do
  let d ← value root
  fillAll ((← get).nodes.size + 1)
  return d

end Making

/-- The data that a graph stands for. -/
def ofGraph (g : Graph) : Result Data := do
  let size := g.nodes.size
  let (root, s) ← (Making.document g.root).run
    ⟨g.nodes, Array.replicate size none, Array.replicate size .null, []⟩
  return ⟨root, s.definitions⟩

end Treeline.Data
