import Treeline.Text.Hex
import Treeline.Yaml.ScalarStyle

/-!
# Pages

A page is the text of a document as far as it is written, with what the writer has to know about its
end. Lines that grow longer than `lineWidth` are broken at single spaces.
-/

namespace Treeline.Yaml

/-- The text written so far. -/
structure Page where
  /-- The characters, last one first. -/
  written : List Char
  column : Nat
  /-- Whether a blank or the start of a line stands at the end. -/
  endsBlank : Bool
  /-- Whether nothing but indentation and signs stands on the last line. -/
  isIndentation : Bool
  /-- Whether the end of the document must be marked. -/
  isOpen : Bool

namespace Page

def empty : Page := ⟨[], 0, true, true, false⟩

/-- The length from which on lines are broken. -/
def lineWidth : Nat := 80

/-- How much further each level is indented. -/
def levelWidth : Nat := 2

def put (p : Page) (cs : List Char) : Page :=
  { p with written := cs.reverse ++ p.written, column := p.column + cs.length }

def putBreak (p : Page) (c : Char) : Page :=
  { p with written := c :: p.written, column := 0, endsBlank := true, isIndentation := true }

def endLine (p : Page) : Page := p.putBreak '\n'

/-- Goes to a column on a line with nothing but indentation, on a new one if need be. -/
def indentTo (p : Page) (indent : Nat) : Page :=
  let p :=
    if !p.isIndentation || indent < p.column || (p.column = indent && !p.endsBlank) then p.endLine
    else p
  if p.column < indent then
    { p.put (List.replicate (indent - p.column) ' ') with endsBlank := true }
  else p

/-- Writes a sign, behind a blank if `needsBlank`. -/
def sign (p : Page) (cs : List Char) (needsBlank : Bool) : Page :=
  let p := p.put (if p.endsBlank || !needsBlank then cs else ' ' :: cs)
  { p with endsBlank := false, isIndentation := false, isOpen := false }

/-- Writes a sign that leaves the line as indentation for what follows. -/
def leadingSign (p : Page) (c : Char) : Page :=
  { p.sign [c] true with isIndentation := p.isIndentation }

/-- Goes on in a text, not in indentation. -/
def inText (p : Page) : Page := { p with endsBlank := false, isIndentation := false }

def text (p : Page) : List Char := p.written.reverse

/-! ### Scalars -/

/-- Writes plain text, broken at single spaces if `breaks`. -/
def putPlain (breaks : Bool) (indent : Nat) : (fuel : Nat) → List Char → Page → Page
  | 0, _, p => p
  | fuel + 1, cs, p =>
    if cs.isEmpty then p
    else if cs.head? = some ' ' then
      let run := cs.takeWhile (· = ' ')
      let p :=
        if run.length = 1 && lineWidth < p.column && breaks then (p.indentTo indent).inText
        else p.put run
      putPlain breaks indent fuel (cs.drop run.length) p
    else
      let run := cs.takeWhile (· != ' ')
      putPlain breaks indent fuel (cs.drop run.length) (p.put run)

/-- Writes plain text behind a blank. -/
def plain (p : Page) (breaks : Bool) (indent : Nat) (cs : List Char) : Page :=
  let p := if p.endsBlank then p else p.put [' ']
  putPlain breaks indent cs.length cs p.inText

/-- Writes the line breaks of a text between single quotes. The first one counts twice, because a
single one reads as a space. -/
def putBreaks (p : Page) (cs : List Char) : Page :=
  let p := if cs.head? = some '\n' then p.endLine else p
  cs.foldl putBreak p

/-- Writes the inside of single quotes. -/
def putSingleQuoted (breaks : Bool) (indent : Nat) :
    (fuel : Nat) → (isStart : Bool) → List Char → Page → Page
  | 0, _, _, p => p
  | fuel + 1, isStart, cs, p =>
    match cs with
    | [] => p
    | c :: rest =>
      if c = ' ' then
        let run := cs.takeWhile (· = ' ')
        let after := cs.drop run.length
        let p :=
          if run.length = 1 && lineWidth < p.column && breaks && !isStart && !after.isEmpty then
            p.indentTo indent
          else p.put run
        putSingleQuoted breaks indent fuel false after p
      else if ScalarStyle.breaksLine c then
        let run := cs.takeWhile ScalarStyle.breaksLine
        putSingleQuoted breaks indent fuel false (cs.drop run.length)
          ((p.putBreaks run).indentTo indent)
      else if c = '\x27' then
        putSingleQuoted breaks indent fuel false rest (p.put ['\x27', '\x27'])
      else
        let run := cs.takeWhile fun x =>
          x != ' ' && x != '\x27' && !ScalarStyle.breaksLine x
        putSingleQuoted breaks indent fuel false (cs.drop run.length) (p.put run)

def singleQuoted (p : Page) (breaks : Bool) (indent : Nat) (cs : List Char) : Page :=
  (putSingleQuoted breaks indent cs.length true cs (p.sign ['\x27'] true)).sign ['\x27'] false

/-- The escape of a character between double quotes, if it needs one. -/
def escape? (c : Char) : Option (List Char) :=
  let n := c.toNat
  let short (x : Char) : Option (List Char) := some ['\\', x]
  match n with
  | 0x00 => short '0'
  | 0x07 => short 'a'
  | 0x08 => short 'b'
  | 0x09 => short 't'
  | 0x0A => short 'n'
  | 0x0B => short 'v'
  | 0x0C => short 'f'
  | 0x0D => short 'r'
  | 0x1B => short 'e'
  | 0x22 => short '\x22'
  | 0x5C => short '\\'
  | 0x85 => short 'N'
  | 0x2028 => short 'L'
  | 0x2029 => short 'P'
  | _ =>
    if (0x20 ≤ n ∧ n ≤ 0x7E) ∨ (0xA0 ≤ n ∧ n ≤ 0xFFFD ∧ n ≠ 0xFEFF) then none
    else if n ≤ 0xFF then some ('\\' :: 'x' :: Text.hexUpper 2 n)
    else if n ≤ 0xFFFF then some ('\\' :: 'u' :: Text.hexUpper 4 n)
    else some ('\\' :: 'U' :: Text.hexUpper 8 n)

/-- Breaks a line between double quotes. A space at the start of the next line is escaped. -/
def foldLine (p : Page) (indent : Nat) (next : Option Char) : Page :=
  let p := ((p.put ['\\']).indentTo indent).inText
  if next = some ' ' then p.put ['\\'] else p

/-- Writes the inside of double quotes. `run` holds the characters, last one first, that are taken
but not written yet. -/
def putDoubleQuoted (breaks : Bool) (indent : Nat) :
    (isStart : Bool) → (run : List Char) → List Char → Page → Page
  | _, run, [], p => p.put run.reverse
  | isStart, run, c :: rest, p =>
    let mayBreak := !isStart && !rest.isEmpty && breaks
    match escape? c with
    | some escaped =>
      let p := (p.put run.reverse).put escaped
      let p := if mayBreak && lineWidth < p.column - 1 then p.foldLine indent rest.head? else p
      putDoubleQuoted breaks indent false [] rest p
    | none =>
      if mayBreak && (c = ' ' || run.isEmpty) && lineWidth < p.column + run.length then
        putDoubleQuoted breaks indent false [c] rest
          ((p.put run.reverse).foldLine indent (some c))
      else putDoubleQuoted breaks indent false (c :: run) rest p

def doubleQuoted (p : Page) (breaks : Bool) (indent : Nat) (cs : List Char) : Page :=
  (putDoubleQuoted breaks indent true [] cs (p.sign ['\x22'] true)).sign ['\x22'] false

/-- Writes the lines of a block. Each of them ends with a line feed. -/
def putBlockLines (indent : Nat) : (fuel : Nat) → List Char → Page → Page
  | 0, _, p => p
  | fuel + 1, cs, p =>
    if cs.isEmpty then p
    else
      let line := cs.takeWhile (· != '\n')
      putBlockLines indent fuel (cs.drop (line.length + 1)) ((p.indentTo indent).put line).endLine

def literal (p : Page) (indent : Nat) (cs : List Char) : Page :=
  putBlockLines indent cs.length cs (p.sign ['|'] true).endLine

def scalar (p : Page) (style : ScalarStyle) (breaks : Bool) (indent : Nat) (cs : List Char) :
    Page :=
  match style with
  | .plain => p.plain breaks indent cs
  | .singleQuoted => p.singleQuoted breaks indent cs
  | .doubleQuoted => p.doubleQuoted breaks indent cs
  | .literal => p.literal indent cs

end Page

end Treeline.Yaml
