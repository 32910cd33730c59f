import Treeline.Yaml.Cursor

/-!
# Text in blocks

Text in literal or folded style starts on a new line and is indented. Its indentation is that of its
first line unless an indicator states it. Line breaks at the end are kept, cut down to one or
dropped. In folded style a single line break between two lines of text that are not indented further
becomes a space.
-/

namespace Treeline.Yaml.Token

/-- What happens to the line breaks at the end of a text. -/
inductive Chomping
  | strip
  | clip
  | keep
  deriving DecidableEq

def chomping? : Char → Option Chomping
  | '+' => some .keep
  | '-' => some .strip
  | _ => none

/-- What stands behind the sign of a block: its chomping and its indentation. -/
structure BlockHeader where
  chomping : Chomping
  indentation : Option Nat
  deriving DecidableEq

/-- Reads the digit that states an indentation, if there is one. -/
def readIndentation (start : Mark) (c : Cursor) : Result (Option Nat × Cursor) :=
  if !isDigit c.char then .ok (none, c)
  else if c.char = '0' then refuseIn .blockScalar start .zeroIndentation c.mark
  else .ok (some (c.char.toNat - '0'.toNat), c.next)

/-- Reads chomping and indentation, in either order. -/
def readBlockHeader (start : Mark) (c : Cursor) : Result (BlockHeader × Cursor) := do
  let (header, c) ← match chomping? c.char with
    | some chomping => do
      let (indentation, c) ← readIndentation start c.next
      pure (BlockHeader.mk chomping indentation, c)
    | none => do
      let (indentation, c) ← readIndentation start c
      match indentation, chomping? c.char with
      | some n, some chomping => pure (BlockHeader.mk chomping (some n), c.next)
      | _, _ => pure (BlockHeader.mk .clip indentation, c)
  if isSpaceOrEnd c.char then return (header, c)
  else refuseIn .blockScalar start (.expected .blockIndicators c.char) c.mark

/-- Reads the blank lines before the first line of text, and how far the longest of them and the
spaces before that line reach. -/
def readLeadingBreaks : (fuel : Nat) → (reach : Nat) → Cursor → List Char × Nat × Cursor
  | 0, reach, c => ([], reach, c)
  | fuel + 1, reach, c =>
    if c.char = ' ' then readLeadingBreaks fuel (max reach c.next.column) c.next
    else match c.break? with
      | none => ([], reach, c)
      | some (x, after) =>
        let (breaks, reach, after) := readLeadingBreaks fuel reach after
        (x :: breaks, reach, after)

/-- Passes over spaces up to a column. -/
def skipIndentation (indent : Nat) : (fuel : Nat) → Cursor → Cursor
  | 0, c => c
  | fuel + 1, c =>
    if c.column < indent && c.char = ' ' then skipIndentation indent fuel c.next else c

/-- Reads blank lines, and the indentation of the line after them. -/
def readBreaks (indent : Nat) : (fuel : Nat) → Cursor → List Char × Cursor
  | 0, c => ([], c)
  | fuel + 1, c =>
    let c := skipIndentation indent indent c
    match c.break? with
    | none => ([], c)
    | some (x, after) =>
      let (breaks, after) := readBreaks indent fuel after
      (x :: breaks, after)

/-- The text of a block, the break behind its last line, the breaks behind that, and where it
ends. -/
structure BlockContent where
  text : List Char
  lastBreak : List Char
  breaks : List Char
  after : Cursor

/-- What stands between two lines for the break between them and the blank lines behind it. -/
def joint (isFolded : Bool) (first second : Char) (lineBreak breaks : List Char) : List Char :=
  if isFolded && lineBreak = ['\n'] && !isBlank first && !isBlank second then
    if breaks.isEmpty then [' '] else []
  else lineBreak

/-- Reads the lines of a block that start at a column. `breaks` stand before the first of them. -/
def readLines (isFolded : Bool) (indent : Nat) :
    (fuel : Nat) → (breaks : List Char) → Cursor → BlockContent
  | 0, breaks, c => ⟨[], [], breaks, c⟩
  | fuel + 1, breaks, c =>
    if c.column ≠ indent || c.char = endOfText then ⟨[], [], breaks, c⟩
    else
      let text := breaks ++ c.takeWhile fun x => !isBreak x
      let lineEnd := c.skipLine
      let lineBreak := match lineEnd.break? with | some (x, _) => [x] | none => []
      let (breaks, after) := readBreaks indent lineEnd.rest.length lineEnd.skipBreak
      if after.column = indent && after.char ≠ endOfText then
        let rest := readLines isFolded indent fuel breaks after
        { rest with
          text := text ++ joint isFolded c.char after.char lineBreak breaks ++ rest.text }
      else ⟨text, lineBreak, breaks, after⟩

/-- Reads a block. `parent` is the least column that text in it may start at. -/
def readBlockText (isFolded : Bool) (parent : Nat) (c : Cursor) : Result (Token × Cursor) := do
  let (header, body) ← readBlockHeader c.mark c.next
  let body ← endLine .blockScalar c.mark body
  let least := max 1 parent
  let (indent, breaks, body) := match header.indentation with
    | some n =>
      let (breaks, body) := readBreaks (least + n - 1) body.rest.length body
      (least + n - 1, breaks, body)
    | none =>
      let (breaks, reach, body) := readLeadingBreaks body.rest.length 0 body
      (max least reach, breaks, body)
  let content := readLines isFolded indent body.rest.length breaks body
  let text := content.text
    ++ (if header.chomping = .strip then [] else content.lastBreak)
    ++ (if header.chomping = .keep then content.breaks else [])
  return (⟨.scalar (String.ofList text) false, c.mark, content.after.mark⟩, content.after)

end Treeline.Yaml.Token
