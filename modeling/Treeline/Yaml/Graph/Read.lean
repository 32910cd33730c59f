import Treeline.Yaml.Graph
import Treeline.Yaml.Tag
import Treeline.Yaml.Token.Stream

/-!
# Reading node graphs

A document is read from the tokens of its text by recursive descent. A node gets its number when it
begins, so that aliases inside it can refer to it. Where the grammar leaves a node out, an empty
plain scalar stands.

The tokens bound the recursion: each step down, or on to the next item, takes one at least.
-/

namespace Treeline.Yaml

/-- Where the reading of a document stands. -/
structure Reader where
  tokens : List Token
  /-- Why the tokens break off behind the last one, if they do. -/
  broken : Option (Stop Failure)
  nodes : Array Node
  /-- The nodes that have anchors. -/
  anchors : List (String × Nat)
  /-- What the handles of tags stand for. -/
  handles : List (String × String)

/-- A step of reading. -/
abbrev Reading := StateT Reader (Except (Stop Failure))

namespace Reader

/-- The handles that every document has. -/
def defaultHandles : List (String × String) := [("!", "!"), ("!!", Tag.standard)]

def ofTokens (stream : TokenStream) : Reader :=
  ⟨stream.tokens, stream.broken, #[], [], defaultHandles⟩

/-- How deep and how far the reading can go on. -/
def fuel (r : Reader) : Nat := 4 * r.tokens.length + 8

end Reader

namespace Reading

def fail {α : Type} (context : Context) (start : Mark) (problem : Problem) (m : Mark) :
    Reading α :=
  throw (.reported ⟨some (context, some start), problem, m⟩)

def failAt {α : Type} (problem : Problem) (m : Mark) : Reading α :=
  throw (.reported ⟨none, problem, m⟩)

def peek : Reading Token := do
  let r ← get
  match r.tokens, r.broken with
  | t :: _, _ => return t
  | [], some stop => throw stop
  | [], none => return ⟨.streamEnd, .start, .start⟩

def drop : Reading Unit := modify fun r => { r with tokens := r.tokens.tail }

def take : Reading Token := do
  let t ← peek
  drop
  return t

def add (node : Node) : Reading Nat := do
  let r ← get
  set { r with nodes := r.nodes.push node }
  return r.nodes.size

def addEmpty (m : Mark) : Reading Nat := add ⟨Tag.null, m, .scalar ""⟩

def fill (id : Nat) (content : Content) : Reading Nat := do
  modify fun r => { r with nodes := r.nodes.modify id ({ · with content := content }) }
  return id

def anchored? (name : String) : Reading (Option Nat) := do
  return (← get).anchors.lookup name

/-! ### Properties of nodes -/

/-- The anchor and the tag that stand before a node, and where they begin. -/
structure Properties where
  anchor : Option String
  tag : Option String
  start : Option Mark

/-- What a tag with a handle stands for. -/
def expandTag (start : Mark) (t : Token) (handle : Option String) (suffix : String) :
    Reading String := do
  match handle with
  | none => return suffix
  | some handle =>
    match (← get).handles.lookup handle with
    | some stem => return stem ++ suffix
    | none => fail .node start (.undefinedHandle handle) t.start

def anchor? : Reading (Option (String × Mark)) := do
  let t ← peek
  match t.lexeme with
  | .anchor name => drop; return some (name, t.start)
  | _ => return none

def tagToken? : Reading (Option (Token × Option String × String)) := do
  let t ← peek
  match t.lexeme with
  | .tag handle suffix => drop; return some (t, handle, suffix)
  | _ => return none

/-- Reads an anchor and a tag in either order. -/
def properties : Reading Properties := do
  let first ← anchor?
  let tag ← tagToken?
  let second ← if first.isNone && tag.isSome then anchor? else pure none
  let start := (first.map (·.2)).or (tag.map (·.1.start))
  let tag ← match tag with
    | none => pure none
    | some (t, handle, suffix) =>
      some <$> expandTag (start.getD t.start) t handle suffix
  return ⟨(first.or second).map (·.1), tag, start⟩

/-- Begins a node. Its anchor must be new. -/
def begin (p : Properties) (node : Node) : Reading Nat := do
  match p.anchor with
  | none => add node
  | some name =>
    match ← anchored? name with
    | some first =>
      let mark := ((← get).nodes[first]?.getD .empty).mark
      fail (.firstAnchor name) mark .secondAnchor node.mark
    | none =>
      let id ← add node
      modify fun r => { r with anchors := (name, id) :: r.anchors }
      return id

def collectionTag (p : Properties) (usual : String) : String :=
  match p.tag with
  | none => usual
  | some tag => if tag = "!" then usual else tag

/-- The tag of a scalar. Text counts as plain if it has no quotes or if its tag says so. -/
def scalarTag (p : Properties) (text : String) (isPlain : Bool) : String :=
  match p.tag with
  | none => if isPlain then Tag.ofPlain text.toList else Tag.text
  | some tag => if tag = "!" then Tag.ofPlain text.toList else tag

/-! ### Nodes -/

/-- Whether an item is left out before a token. -/
def endsBlockItem : Lexeme → Bool
  | .blockEntry | .blockEnd => true
  | _ => false

/-- Whether an item is left out before a token, in a sequence that is not indented. -/
def endsIndentlessItem : Lexeme → Bool
  | .blockEntry | .key | .value | .blockEnd => true
  | _ => false

def endsBlockPart : Lexeme → Bool
  | .key | .value | .blockEnd => true
  | _ => false

def endsSequenceKey : Lexeme → Bool
  | .value | .flowEntry | .flowSequenceEnd => true
  | _ => false

def endsSequenceValue : Lexeme → Bool
  | .flowEntry | .flowSequenceEnd => true
  | _ => false

def endsMappingKey : Lexeme → Bool
  | .value | .flowEntry | .flowMappingEnd => true
  | _ => false

def endsMappingValue : Lexeme → Bool
  | .flowEntry | .flowMappingEnd => true
  | _ => false

/-- Where a node stands: it may start a block collection, and it may be a sequence whose dashes are
not indented. -/
inductive Place
  | block
  | blockOrIndentless
  | flow
  deriving DecidableEq

mutual

def node (place : Place) : (fuel : Nat) → Reading Nat
  | 0 => addEmpty .start
  | fuel + 1 => do
    let t ← peek
    match t.lexeme with
    | .alias name =>
      drop
      match ← anchored? name with
      | some id => return id
      | none => failAt (.undefinedAlias name) t.start
    | _ =>
      let p ← properties
      let t ← peek
      let start := p.start.getD t.start
      let list : Node := ⟨collectionTag p Tag.list, start, .sequence []⟩
      let dict : Node := ⟨collectionTag p Tag.dict, start, .mapping []⟩
      match t.lexeme, place with
      | .blockEntry, .blockOrIndentless =>
        let id ← begin p list
        fill id (.sequence (← indentlessItems fuel))
      | .scalar text isPlain, _ =>
        drop
        begin p ⟨scalarTag p text isPlain, start, .scalar text⟩
      | .flowSequenceStart, _ =>
        let id ← begin p list
        drop
        fill id (.sequence (← flowItems t.start true fuel))
      | .flowMappingStart, _ =>
        let id ← begin p dict
        drop
        fill id (.mapping (← flowEntries t.start true fuel))
      | .blockSequenceStart, .block | .blockSequenceStart, .blockOrIndentless =>
        let id ← begin p list
        drop
        fill id (.sequence (← blockItems t.start fuel))
      | .blockMappingStart, .block | .blockMappingStart, .blockOrIndentless =>
        let id ← begin p dict
        drop
        fill id (.mapping (← blockEntries t.start fuel))
      | _, _ =>
        if p.start.isSome then begin p ⟨scalarTag p "" true, start, .scalar ""⟩
        else
          fail (if place = .flow then .flowNode else .blockNode) start (.noContent t.lexeme)
            t.start

/-- Reads a node, unless it is left out before the next token. -/
def nodeUnless (isEnd : Lexeme → Bool) (place : Place) (m : Mark) : (fuel : Nat) → Reading Nat
  | 0 => addEmpty m
  | fuel + 1 => do
    if isEnd (← peek).lexeme then addEmpty m else node place fuel

def blockItems (start : Mark) : (fuel : Nat) → Reading (List Nat)
  | 0 => return []
  | fuel + 1 => do
    let t ← take
    match t.lexeme with
    | .blockEntry =>
      let item ← nodeUnless endsBlockItem .block t.stop fuel
      return item :: (← blockItems start fuel)
    | .blockEnd => return []
    | _ => fail .blockCollection start (.noBlockEnd t.lexeme) t.start

/-- Reads the items of a sequence whose dashes are not indented. -/
def indentlessItems : (fuel : Nat) → Reading (List Nat)
  | 0 => return []
  | fuel + 1 => do
    let t ← peek
    match t.lexeme with
    | .blockEntry =>
      drop
      let item ← nodeUnless endsIndentlessItem .block t.stop fuel
      return item :: (← indentlessItems fuel)
    | _ => return []

def blockEntries (start : Mark) : (fuel : Nat) → Reading (List (Nat × Nat))
  | 0 => return []
  | fuel + 1 => do
    let t ← take
    match t.lexeme with
    | .key =>
      let key ← nodeUnless endsBlockPart .blockOrIndentless t.stop fuel
      let value ← blockValue fuel
      return (key, value) :: (← blockEntries start fuel)
    | .blockEnd => return []
    | _ => fail .blockMapping start (.noBlockEnd t.lexeme) t.start

def blockValue : (fuel : Nat) → Reading Nat
  | 0 => addEmpty .start
  | fuel + 1 => do
    let t ← peek
    match t.lexeme with
    | .value =>
      drop
      nodeUnless endsBlockPart .blockOrIndentless t.stop fuel
    | _ => addEmpty t.start

/-- Reads the items of a sequence in square brackets. A pair among them is a mapping of its own. -/
def flowItems (start : Mark) (isFirst : Bool) : (fuel : Nat) → Reading (List Nat)
  | 0 => return []
  | fuel + 1 => do
    let t ← peek
    if t.lexeme = .flowSequenceEnd then
      drop
      return []
    if !isFirst then
      if t.lexeme = .flowEntry then drop
      else fail .flowSequence start (.noSequenceEnd t.lexeme) t.start
    let t ← peek
    match t.lexeme with
    | .key =>
      let id ← add ⟨Tag.dict, t.start, .mapping []⟩
      drop
      let key ← nodeUnless endsSequenceKey .flow t.stop fuel
      let value ← flowValue endsSequenceValue fuel
      let item ← fill id (.mapping [(key, value)])
      return item :: (← flowItems start false fuel)
    | .flowSequenceEnd =>
      drop
      return []
    | _ =>
      let item ← node .flow fuel
      return item :: (← flowItems start false fuel)

def flowEntries (start : Mark) (isFirst : Bool) : (fuel : Nat) → Reading (List (Nat × Nat))
  | 0 => return []
  | fuel + 1 => do
    let t ← peek
    if t.lexeme = .flowMappingEnd then
      drop
      return []
    if !isFirst then
      if t.lexeme = .flowEntry then drop
      else fail .flowMapping start (.noMappingEnd t.lexeme) t.start
    let t ← peek
    match t.lexeme with
    | .key =>
      drop
      let key ← nodeUnless endsMappingKey .flow t.stop fuel
      let value ← flowValue endsMappingValue fuel
      return (key, value) :: (← flowEntries start false fuel)
    | .flowMappingEnd =>
      drop
      return []
    | _ =>
      let key ← node .flow fuel
      let value ← addEmpty (← peek).start
      return (key, value) :: (← flowEntries start false fuel)

def flowValue (isEnd : Lexeme → Bool) : (fuel : Nat) → Reading Nat
  | 0 => addEmpty .start
  | fuel + 1 => do
    let t ← peek
    match t.lexeme with
    | .value =>
      drop
      nodeUnless isEnd .flow t.stop fuel
    | _ => addEmpty t.start

end

/-! ### Documents -/

def directives : (fuel : Nat) → (hasVersion : Bool) → (handles : List (String × String)) →
    Reading (List (String × String))
  | 0, _, handles => return handles
  | fuel + 1, hasVersion, handles => do
    let t ← peek
    match t.lexeme with
    | .directive directive =>
      drop
      match directive with
      | .version major =>
        if hasVersion then failAt .duplicateVersion t.start
        else if major ≠ 1 then failAt .incompatibleVersion t.start
        else directives fuel true handles
      | .tag handle stem =>
        if (handles.lookup handle).isSome then failAt (.duplicateHandle handle) t.start
        else directives fuel hasVersion ((handle, stem) :: handles)
      | .other => directives fuel hasVersion handles
    | _ => return handles

def skipDocumentEnds : (fuel : Nat) → Reading Unit
  | 0 => return
  | fuel + 1 => do
    if (← peek).lexeme = .documentEnd then
      drop
      skipDocumentEnds fuel

/-- Reads what comes before a document with a sign of its own, and where that begins. There is
nothing at the end of the text. -/
def documentStart : Reading (Option Mark) := do
  skipDocumentEnds (← get).fuel
  let t ← peek
  if t.lexeme = .streamEnd then return none
  let handles ← directives (← get).fuel false []
  modify fun r => { r with handles := handles ++ Reader.defaultHandles }
  let sign ← take
  if sign.lexeme = .documentStart then return some t.start
  else failAt (.noDocumentStart sign.lexeme) sign.start

/-- Whether a document is left out before a token. -/
def endsDocument : Lexeme → Bool
  | .directive _ | .documentStart | .documentEnd | .streamEnd => true
  | _ => false

/-- Reads the node of a document and the sign that may end it. -/
def documentNode (isExplicit : Bool) : Reading Graph := do
  modify fun r => { r with nodes := #[], anchors := [] }
  let t ← peek
  let root ←
    if isExplicit && endsDocument t.lexeme then addEmpty t.start
    else node .block (← get).fuel
  if (← peek).lexeme = .documentEnd then drop
  return ⟨(← get).nodes, root⟩

/-- Whether the first document begins without a sign. -/
def startsBare : Lexeme → Bool
  | .directive _ | .documentStart | .streamEnd => false
  | _ => true

/-- Reads documents with signs of their own up to the end of the text. -/
def explicitDocuments : (fuel : Nat) → Reading (List Graph)
  | 0 => return []
  | fuel + 1 => do
    match ← documentStart with
    | none => return []
    | some _ =>
      let graph ← documentNode true
      return graph :: (← explicitDocuments fuel)

def documents : Reading (List Graph) := do
  let fuel := (← get).fuel
  if startsBare (← peek).lexeme then
    let graph ← documentNode false
    return graph :: (← explicitDocuments fuel)
  else explicitDocuments fuel

/-- Reads the only document of a text, if there is one. -/
def singleDocument : Reading (Option Graph) := do
  let graph ←
    if startsBare (← peek).lexeme then some <$> documentNode false
    else match ← documentStart with
      | none => pure none
      | some _ => some <$> documentNode true
  match graph with
  | none => return none
  | some graph =>
    match ← documentStart with
    | none => return some graph
    | some m => fail .singleDocument graph.rootNode.mark .anotherDocument m

end Reading

/-- The documents of a text. -/
def Graph.ofText (text : List Char) : Result (List Graph) :=
  (Reading.documents.run (.ofTokens (.ofText text))).map (·.1)

/-- The document of a text that holds one at most. -/
def Graph.singleOfText (text : List Char) : Result (Option Graph) :=
  (Reading.singleDocument.run (.ofTokens (.ofText text))).map (·.1)

end Treeline.Yaml
