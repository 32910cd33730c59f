import Treeline.Yaml.Cursor

/-!
# Tags

A tag is a handle followed by a suffix, a suffix between angle brackets, or an exclamation mark
alone. Suffixes may hold bytes in hexadecimal digits behind a percent sign.
-/

namespace Treeline.Yaml.Token

/-- Whether a character may stand in the name of a tag as it is. -/
def isNameCharacter (c : Char) : Bool :=
  isWord c || ";/?:@&=+$,.!~*\x27()[]".toList.contains c

/-- Reads the bytes that stand here behind percent signs. -/
def readBytes (context : Context) (start : Mark) :
    (fuel : Nat) → Cursor → Result (List UInt8 × Cursor)
  | 0, c => .ok ([], c)
  | fuel + 1, c =>
    if c.char ≠ '%' then .ok ([], c)
    else
      let c := c.next
      match Text.hexValue? c.char, Text.hexValue? (c.charAt 1) with
      | some high, some low => do
        let (bytes, after) ← readBytes context start fuel (c.skip 2)
        return (UInt8.ofNat (16 * high + low) :: bytes, after)
      | none, _ => refuseIn context start (.expected .nameEscape c.char) c.mark
      | _, none => refuseIn context start (.expected .nameEscape (c.charAt 1)) c.mark

/-- Reads the parts of a name: characters as they are, and bytes behind percent signs. -/
def readNameParts (context : Context) (start : Mark) :
    (fuel : Nat) → Cursor → Result (List Char × Cursor)
  | 0, c => .ok ([], c)
  | fuel + 1, c =>
    if c.char = '%' then do
      let (bytes, after) ← readBytes context start c.rest.length c
      match Text.Utf8.decode bytes with
      | .error failure => refuseIn context start (.undecodable failure) c.mark
      | .ok chars =>
        let (rest, after) ← readNameParts context start fuel after
        return (chars ++ rest, after)
    else if isNameCharacter c.char then do
      let (rest, after) ← readNameParts context start fuel c.next
      return (c.char :: rest, after)
    else .ok ([], c)

/-- Reads the name of a tag. `context` is that of the tag or the directive as a whole and `inner`
that of the name. -/
def readTagName (context inner : Context) (start : Mark) (c : Cursor) :
    Result (String × Cursor) := do
  let (name, after) ← readNameParts context start c.rest.length c
  if after.mark.index = c.mark.index then
    refuseIn inner start (.expected .name c.char) c.mark
  else return (String.ofList name, after)

/-- Reads a handle: an exclamation mark, or a word between two of them. -/
def readHandle (context : Context) (start : Mark) (c : Cursor) : Result (String × Cursor) :=
  if c.char ≠ '!' then refuseIn context start (.expected .exclamationMark c.char) c.mark
  else if c.next.char = ' ' then .ok ("!", c.next)
  else
    let word := c.next.takeWhile isWord
    let after := c.next.skipWhile isWord
    if after.char ≠ '!' then
      refuseIn context start (.expected .exclamationMark after.char) after.mark
    else .ok (String.ofList ('!' :: (word ++ ['!'])), after.next)

/-- Reads a handle, if there is one, and a suffix. -/
def readTagParts (c : Cursor) : Result (Option String × String × Cursor) :=
  let second := c.next.char
  if second = '<' then do
    let (suffix, after) ← readTagName .tag .tagName c.mark (c.skip 2)
    if after.char ≠ '>' then
      refuseIn .tagName c.mark (.expected .closingAngle after.char) after.mark
    else return (none, suffix, after.next)
  else if isBlankOrEnd second then .ok (none, "!", c.next)
  else do
    let isNamed := (c.next.takeWhile fun x => !isSpaceOrEnd x).contains '!'
    let (handle, after) ← if isNamed then readHandle .tag c.mark c else pure ("!", c.next)
    let (suffix, after) ← readTagName .tag .tagName c.mark after
    return (some handle, suffix, after)

def readTag (c : Cursor) : Result (Token × Cursor) := do
  let (handle, suffix, after) ← readTagParts c
  if isSpaceOrEnd after.char then return (⟨.tag handle suffix, c.mark, after.mark⟩, after)
  else refuseIn .tag c.mark (.expected .space after.char) after.mark

end Treeline.Yaml.Token
