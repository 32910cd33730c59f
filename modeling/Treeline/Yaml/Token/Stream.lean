import Treeline.Yaml.Token.BlockText
import Treeline.Yaml.Token.Directive
import Treeline.Yaml.Token.Name
import Treeline.Yaml.Token.PlainText
import Treeline.Yaml.Token.QuotedText

/-!
# The tokens of a text

A mapping key needs no sign in front: only the colon behind it shows that it was one. So a token
that could begin a key is held back, with everything behind it, until the colon comes or can no
longer come: a key stands on one line and is short. A token is released when no possible key begins
at it or before it. What is released never changes.

A text with an error still has the tokens that are released before the error is found.
-/

namespace Treeline.Yaml

/-- The tokens of a text in order, and the reason why they break off if they do. -/
structure TokenStream where
  tokens : List Token
  broken : Option (Stop Failure)

/-- A token that could begin a mapping key. -/
structure PossibleKey where
  /-- How many tokens come before it. -/
  number : Nat
  /-- Whether nothing but a key can stand there. -/
  isRequired : Bool
  mark : Mark
  deriving DecidableEq

/-- How far a colon may be behind the start of its key. -/
def maxKeyLength : Nat := 1024

/-- Where the reading of tokens stands. -/
structure Scan where
  cursor : Cursor
  /-- The columns of the block collections that are open, innermost first. -/
  indents : List Nat
  /-- Whether a key without a sign may begin here. -/
  keyAllowed : Bool
  /-- The possible key outside brackets or inside the innermost ones. -/
  key : Option PossibleKey
  /-- The possible keys outside each pair of brackets that is open, innermost first. -/
  outer : List (Option PossibleKey)
  /-- The tokens that are released, last one first. -/
  released : List Token
  releasedCount : Nat
  /-- The tokens that are held back, in order. -/
  held : List Token
  isDone : Bool

namespace Scan

def ofText (text : List Char) : Scan :=
  { cursor := .ofText text, indents := [], keyAllowed := true, key := none, outer := []
    released := [], releasedCount := 0, held := [], isDone := false }

def inFlow (s : Scan) : Bool := !s.outer.isEmpty

/-- The least column for text inside the innermost block collection. -/
def textIndent (s : Scan) : Nat :=
  match s.indents with
  | [] => 0
  | indent :: _ => indent + 1

def push (s : Scan) (t : Token) : Scan := { s with held := s.held ++ [t] }

/-- Adds a token that takes up no room. -/
def pushEmpty (s : Scan) (lexeme : Lexeme) (m : Mark) : Scan := s.push ⟨lexeme, m, m⟩

/-- Adds a token for the next `length` characters and goes on behind them. -/
def pushSign (s : Scan) (lexeme : Lexeme) (length : Nat) : Scan :=
  let after := s.cursor.skip length
  { s.push ⟨lexeme, s.cursor.mark, after.mark⟩ with cursor := after }

/-- Adds a token that was read and goes on behind it. -/
def pushRead (s : Scan) (read : Token × Cursor) : Scan :=
  { s.push read.1 with cursor := read.2 }

/-! ### Possible keys -/

/-- A key that must come is missing. -/
def missingKey {α : Type} (s : Scan) (key : PossibleKey) : Result α :=
  refuseIn .simpleKey key.mark .noColon s.cursor.mark

/-- Whether no colon can make a key of a token any more. -/
def isStale (s : Scan) (key : PossibleKey) : Bool :=
  key.mark.line ≠ s.cursor.mark.line || maxKeyLength < s.cursor.mark.index - key.mark.index

/-- Gives up a possible key. -/
def giveUp (s : Scan) (key : Option PossibleKey) : Result (Option PossibleKey) :=
  match key with
  | none => .ok none
  | some k => if k.isRequired then s.missingKey k else .ok none

/-- Gives up a possible key if it is stale. -/
def checkKey (s : Scan) (key : Option PossibleKey) : Result (Option PossibleKey) :=
  match key with
  | none => .ok none
  | some k => if s.isStale k then s.giveUp (some k) else .ok (some k)

def dropStale (s : Scan) : Result Scan := do
  let key ← s.checkKey s.key
  let outer ← s.outer.mapM s.checkKey
  return { s with key := key, outer := outer }

def dropKey (s : Scan) : Result Scan := do
  return { s with key := ← s.giveUp s.key }

/-- Notes that a key could begin here. -/
def saveKey (s : Scan) : Result Scan :=
  if s.keyAllowed then do
    let s ← s.dropKey
    let isRequired := !s.inFlow && s.indents.head? = some s.cursor.column
    return { s with
      key := some ⟨s.releasedCount + s.held.length, isRequired, s.cursor.mark⟩ }
  else .ok s

/-- Releases the tokens before the first possible key. -/
def release (s : Scan) : Scan :=
  let count := match (s.outer.reverse ++ [s.key]).findSome? id with
    | none => s.held.length
    | some key => key.number - s.releasedCount
  { s with
    released := (s.held.take count).reverse ++ s.released
    releasedCount := s.releasedCount + (s.held.take count).length
    held := s.held.drop count }

/-! ### Indentation -/

/-- Ends the block collections that start behind a column. -/
def unwindTo (column : Nat) : List Nat → Scan → Scan
  | [], s => { s with indents := [] }
  | indent :: rest, s =>
    if column < indent then unwindTo column rest (s.pushEmpty .blockEnd s.cursor.mark)
    else { s with indents := indent :: rest }

/-- Ends the block collections that start behind the next character. -/
def unwind (s : Scan) : Scan := if s.inFlow then s else unwindTo s.cursor.column s.indents s

def unwindAll (s : Scan) : Scan :=
  if s.inFlow then s
  else
    { s with
      held := s.held
        ++ List.replicate s.indents.length ⟨.blockEnd, s.cursor.mark, s.cursor.mark⟩
      indents := [] }

/-- Whether a block collection at a column starts inside those that are open. -/
def isDeeper (s : Scan) (column : Nat) : Bool :=
  match s.indents with
  | [] => true
  | indent :: _ => indent < column

/-- Starts a block collection here, unless one is open at this column. -/
def openBlock (s : Scan) (lexeme : Lexeme) : Scan :=
  if s.isDeeper s.cursor.column then
    { s.pushEmpty lexeme s.cursor.mark with indents := s.cursor.column :: s.indents }
  else s

/-! ### One token -/

/-- Adds tokens after `count` of the tokens that are held back. -/
def insertHeld (s : Scan) (count : Nat) (ts : List Token) : Scan :=
  { s with held := s.held.take count ++ ts ++ s.held.drop count }

def readEnd (s : Scan) : Result Scan := do
  let s ← s.unwindAll.dropKey
  let s := { s with keyAllowed := false, key := none, outer := s.outer.map fun _ => none }
  return { s.pushEmpty .streamEnd s.cursor.mark with isDone := true }

/-- Prepares for a line that does not belong to a document. -/
def leaveDocument (s : Scan) : Result Scan := do
  return { ← s.unwindAll.dropKey with keyAllowed := false }

def readOpening (s : Scan) (lexeme : Lexeme) : Result Scan := do
  let s ← s.saveKey
  return { s with outer := s.key :: s.outer, key := none, keyAllowed := true }.pushSign lexeme 1

def readClosing (s : Scan) (lexeme : Lexeme) : Result Scan := do
  let s ← s.dropKey
  return { s with
    key := s.outer.head?.getD none, outer := s.outer.tail, keyAllowed := false }.pushSign lexeme 1

def readFlowEntry (s : Scan) : Result Scan := do
  return { ← s.dropKey with keyAllowed := true }.pushSign .flowEntry 1

def readBlockEntry (s : Scan) : Result Scan := do
  if !s.inFlow && !s.keyAllowed then refuse .entryNotAllowed s.cursor.mark
  else
    let s := if s.inFlow then s else s.openBlock .blockSequenceStart
    return { ← s.dropKey with keyAllowed := true }.pushSign .blockEntry 1

def readKeySign (s : Scan) : Result Scan := do
  if !s.inFlow && !s.keyAllowed then refuse .keyNotAllowed s.cursor.mark
  else
    let s := if s.inFlow then s else s.openBlock .blockMappingStart
    return { ← s.dropKey with keyAllowed := !s.inFlow }.pushSign .key 1

/-- Makes a key of the tokens that began a possible one. -/
def confirmKey (s : Scan) (key : PossibleKey) : Scan :=
  let opens := !s.inFlow && s.isDeeper key.mark.column
  let sign : Token := ⟨.key, key.mark, key.mark⟩
  let start : Token := ⟨.blockMappingStart, key.mark, key.mark⟩
  let s := s.insertHeld (key.number - s.releasedCount) (if opens then [start, sign] else [sign])
  { s with
    key := none, keyAllowed := false
    indents := if opens then key.mark.column :: s.indents else s.indents }

def readValueSign (s : Scan) : Result Scan :=
  match s.key with
  | some key => .ok ((s.confirmKey key).pushSign .value 1)
  | none =>
    if !s.inFlow && !s.keyAllowed then refuse .valueNotAllowed s.cursor.mark
    else
      let s := if s.inFlow then s else s.openBlock .blockMappingStart
      .ok ({ s with keyAllowed := !s.inFlow }.pushSign .value 1)

/-- Reads a token that could begin a key. -/
def readKeyLike (s : Scan) (read : Cursor → Result (Token × Cursor)) : Result Scan := do
  let s ← s.saveKey
  return { s with keyAllowed := false }.pushRead (← read s.cursor)

def readBlock (s : Scan) (isFolded : Bool) : Result Scan := do
  let s ← { s with keyAllowed := true }.dropKey
  return s.pushRead (← Token.readBlockText isFolded s.textIndent s.cursor)

/-- Reads plain text. A key may follow it if a line has ended. -/
def readPlain (s : Scan) : Result Scan := do
  let s ← s.saveKey
  let (t, after, hasBreak) := Token.readPlainText s.inFlow s.textIndent s.cursor
  return { s with keyAllowed := hasBreak }.pushRead (t, after)

def readToken (s : Scan) : Result Scan :=
  let c := s.cursor
  let x := c.char
  let atStart := c.column = 0
  let isBlankNext := s.inFlow || isBlankOrEnd (c.charAt 1)
  if c.rest.isEmpty then s.readEnd
  else if x = '%' && atStart then do
    let s ← s.leaveDocument
    return s.pushRead (← Token.readDirective c)
  else if atStart && c.isSeparator '-' then do
    return (← s.leaveDocument).pushSign .documentStart 3
  else if atStart && c.isSeparator '.' then do
    return (← s.leaveDocument).pushSign .documentEnd 3
  else if x = '[' then s.readOpening .flowSequenceStart
  else if x = '\x7b' then s.readOpening .flowMappingStart
  else if x = ']' then s.readClosing .flowSequenceEnd
  else if x = '\x7d' then s.readClosing .flowMappingEnd
  else if x = ',' then s.readFlowEntry
  else if x = '-' && isBlankOrEnd (c.charAt 1) then s.readBlockEntry
  else if x = '?' && isBlankNext then s.readKeySign
  else if x = ':' && isBlankNext then s.readValueSign
  else if x = '*' then s.readKeyLike Token.readAlias
  else if x = '&' then s.readKeyLike Token.readAnchor
  else if x = '!' then s.readKeyLike Token.readTag
  else if x = '|' && !s.inFlow then s.readBlock false
  else if x = '>' && !s.inFlow then s.readBlock true
  else if x = '\x27' then s.readKeyLike (Token.readQuotedText false)
  else if x = '\x22' then s.readKeyLike (Token.readQuotedText true)
  else if Token.startsPlain s.inFlow c then s.readPlain
  else .error (.reported ⟨some (.nextToken, none), .cannotStart x, c.mark⟩)

/-! ### All tokens -/

/-- Passes over spaces, comments and line ends. Outside brackets, a key may begin on a new line. -/
def skipGap (inFlow : Bool) : (fuel : Nat) → (keyAllowed : Bool) → Cursor → Bool × Cursor
  | 0, keyAllowed, c => (keyAllowed, c)
  | fuel + 1, keyAllowed, c =>
    let c := c.skipSpaces.skipComment
    match c.break? with
    | none => (keyAllowed, c)
    | some (_, after) => skipGap inFlow fuel (keyAllowed || !inFlow) after

/-- Passes over the byte order mark that a text may begin with. -/
def skipByteOrderMark (c : Cursor) : Cursor :=
  if c.mark.index = 0 && c.char = '\uFEFF' then c.next else c

/-- Goes on to the next token and reads it, with the ends of the collections before it. -/
def step (s : Scan) : Result Scan := do
  let c := skipByteOrderMark s.cursor
  let (keyAllowed, c) := skipGap s.inFlow (c.rest.length + 1) s.keyAllowed c
  let s ← { s with cursor := c, keyAllowed := keyAllowed }.dropStale
  let s ← s.unwind.readToken
  return (← s.dropStale).release

/-- Reads tokens up to the end of the text or up to an error. -/
def run : (fuel : Nat) → Scan → TokenStream
  | 0, s => ⟨s.released.reverse, none⟩
  | fuel + 1, s =>
    if s.isDone then ⟨s.released.reverse, none⟩
    else match s.step with
      | .error stop => ⟨s.released.reverse, some stop⟩
      | .ok s => run fuel s

end Scan

/-- The tokens of a text. Each step but the last takes at least one character. -/
def TokenStream.ofText (text : List Char) : TokenStream :=
  Scan.run (text.length + 2) (.ofText text)

end Treeline.Yaml
