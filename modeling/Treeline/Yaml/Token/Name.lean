import Treeline.Yaml.Cursor

/-!
# Anchors and aliases

An anchor names a node and an alias refers to it. Both are a sign followed by a name.
-/

namespace Treeline.Yaml.Token

/-- Whether a character may follow a name. -/
def endsName (c : Char) : Bool :=
  isBlankOrEnd c || c = '?' || c = ':' || c = ',' || c = ']' || c = '\x7d' || c = '%' || c = '@'
    || c = '\x60'

/-- Reads the name behind the sign of an anchor or an alias. -/
def readName (context : Context) (make : String → Lexeme) (c : Cursor) : Result (Token × Cursor) :=
  let name := c.next.takeWhile isWord
  let after := c.next.skipWhile isWord
  if name.isEmpty || !endsName after.char then
    refuseIn context c.mark (.expected .wordCharacter after.char) after.mark
  else .ok (⟨make (String.ofList name), c.mark, after.mark⟩, after)

def readAnchor (c : Cursor) : Result (Token × Cursor) := readName .anchor .anchor c

def readAlias (c : Cursor) : Result (Token × Cursor) := readName .alias .alias c

end Treeline.Yaml.Token
