import Treeline.Yaml.Cursor

/-!
# Plain text

Text without quotes ends at a comment, at a colon before a blank, at a line that is not indented
enough, and inside brackets at a character that belongs to them. Line breaks inside it are folded as
between quotes.
-/

namespace Treeline.Yaml.Token

/-- Whether plain text cannot go on with a character, given the one behind it. -/
def endsPlain (inFlow : Bool) (c second : Char) : Bool :=
  isBlankOrEnd c || (c = ':' && (isBlankOrEnd second || (inFlow && isFlowIndicator second)))
    || (inFlow && (isFlowIndicator c || c = '?'))

/-- The characters at the front that belong to plain text. -/
def plainRun (inFlow : Bool) : List Char → List Char
  | [] => []
  | c :: rest =>
    if endsPlain inFlow c (rest.head?.getD endOfText) then [] else c :: plainRun inFlow rest

/-- What lies between two runs of plain text. -/
structure PlainGap where
  text : List Char
  after : Cursor
  /-- Whether a line ends here. -/
  hasBreak : Bool

/-- Reads the blank lines behind a line break, and the blanks before what follows. A line that
separates documents ends the text. -/
def readPlainBreaks : (fuel : Nat) → Cursor → Option (List Char) × Cursor
  | 0, c => (some [], c)
  | fuel + 1, c =>
    if c.char = ' ' then readPlainBreaks fuel c.next
    else match c.break? with
      | none => (some [], c)
      | some (x, after) =>
        if after.isDocumentSeparator then (none, after)
        else
          let (breaks, after) := readPlainBreaks fuel after
          (breaks.map (x :: ·), after)

/-- Reads spaces, and line breaks if there are any behind them. -/
def readPlainGap (c : Cursor) : PlainGap :=
  let after := c.skipSpaces
  match after.break? with
  | none => ⟨c.takeWhile (· = ' '), after, false⟩
  | some (x, after) =>
    if after.isDocumentSeparator then ⟨[], after, true⟩
    else match readPlainBreaks after.rest.length after with
      | (none, after) => ⟨[], after, true⟩
      | (some breaks, after) =>
        ⟨(if x ≠ '\n' then [x] else if breaks.isEmpty then [' '] else []) ++ breaks, after, true⟩

/-- Plain text, where it ends, and what comes behind it. -/
structure PlainText where
  text : List Char
  stop : Mark
  after : Cursor
  /-- Whether a line has ended between the text and what comes behind it. -/
  hasBreak : Bool

/-- Reads runs of plain text and the gaps between them. `indent` is the least column that a line of
it may start at outside brackets. -/
def readRuns (inFlow : Bool) (indent : Nat) : (fuel : Nat) → Cursor → PlainText
  | 0, c => ⟨[], c.mark, c, false⟩
  | fuel + 1, c =>
    let run := plainRun inFlow c.rest
    let c := c.skip run.length
    let gap := readPlainGap c
    let next := gap.after
    if gap.text.isEmpty || next.char = '#' || (!inFlow && next.column < indent)
        || (plainRun inFlow next.rest).isEmpty then
      ⟨run, c.mark, next, gap.hasBreak⟩
    else
      let rest := readRuns inFlow indent fuel next
      { rest with text := run ++ gap.text ++ rest.text }

/-- Reads plain text. Besides the token, tells whether a line has ended behind it. -/
def readPlainText (inFlow : Bool) (indent : Nat) (c : Cursor) : Token × Cursor × Bool :=
  let plain := readRuns inFlow indent c.rest.length c
  (⟨.scalar (String.ofList plain.text) true, c.mark, plain.stop⟩, plain.after, plain.hasBreak)

/-- Whether plain text can start here. -/
def startsPlain (inFlow : Bool) (c : Cursor) : Bool :=
  let x := c.char
  if isBlankOrEnd x then false
  else if x = '-' then !isBlankOrEnd (c.charAt 1)
  else if x = '?' || x = ':' then !isBlankOrEnd (c.charAt 1) && !inFlow
  else !(isFlowIndicator x || "#&*!|>\x27\"%@\x60".toList.contains x)

end Treeline.Yaml.Token
