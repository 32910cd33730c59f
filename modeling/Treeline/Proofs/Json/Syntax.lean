import Treeline.Text.Digit
import Treeline.Text.Hex
import Treeline.Tree
import Treeline.Yaml.Token.Stream

/-!
# JSON texts

A JSON text as it is written, down to the last gap, and the tree that it stands for. The syntax is
that of JSON itself: nothing here is about how the text is read. Which texts are then read as what
they stand for is said by three conditions, on the characters, on the line breaks of strings and on
the places of colons.
-/

namespace Treeline.Json

/-- A character of a string as it is written. -/
inductive Piece
  | plain (x : Char)
  /-- A letter behind a backslash. -/
  | short (letter : Char)
  /-- Hexadecimal digits behind a backslash and the letter u. -/
  | code (digits : List Char)

mutual

/-- A value as it is written. -/
inductive Value
  /-- A number, a truth value or the empty value. -/
  | word (text : List Char)
  | string (pieces : List Piece)
  | array (gap : List Char) (items : Items)
  | object (gap : List Char) (members : Members)

/-- The items of an array, each with the gaps around it. -/
inductive Items
  | nil
  | cons (before : List Char) (item : Value) (after : List Char) (rest : Items)

/-- The members of an object, with the gaps around the key and around the value. -/
inductive Members
  | nil
  | cons (before : List Char) (key : List Piece) (link gap : List Char) (value : Value)
      (after : List Char) (rest : Members)

end

/-- A text: a value with the gaps around it. -/
structure Document where
  before : List Char
  value : Value
  after : List Char

/-! ### How it is written -/

def Piece.chars : Piece → List Char
  | .plain x => [x]
  | .short letter => ['\\', letter]
  | .code digits => '\\' :: 'u' :: digits

def quoted (pieces : List Piece) : List Char := '\x22' :: (pieces.flatMap Piece.chars ++ ['\x22'])

def Items.comma : Items → List Char
  | .nil => []
  | .cons .. => [',']

def Members.comma : Members → List Char
  | .nil => []
  | .cons .. => [',']

mutual

def Value.chars : Value → List Char
  | .word text => text
  | .string pieces => quoted pieces
  | .array gap items => '[' :: (gap ++ (items.chars ++ [']']))
  | .object gap members => '\x7b' :: (gap ++ (members.chars ++ ['\x7d']))

def Items.chars : Items → List Char
  | .nil => []
  | .cons before item after rest =>
    before ++ (item.chars ++ (after ++ (rest.comma ++ rest.chars)))

def Members.chars : Members → List Char
  | .nil => []
  | .cons before key link gap value after rest =>
    before ++ (quoted key ++ (link ++ ':' :: (gap ++ (value.chars
      ++ (after ++ (rest.comma ++ rest.chars))))))

end

def Document.chars (d : Document) : List Char := d.before ++ (d.value.chars ++ d.after)

/-! ### What it stands for -/

/-- The letters behind a backslash, with the characters that they stand for. -/
def letters : List (Char × Char) :=
  [('\x22', '\x22'), ('\\', '\\'), ('/', '/'), ('b', '\x08'), ('f', '\x0C'), ('n', '\n'),
    ('r', '\r'), ('t', '\t')]

def Piece.char : Piece → Char
  | .plain x => x
  | .short letter => (letters.lookup letter).getD letter
  | .code digits => Char.ofNat (Text.hexNumber digits)

/-- The text that a string stands for. -/
def decoded (pieces : List Piece) : String := String.ofList (pieces.map Piece.char)

mutual

def Value.tree : Value → Tree
  | .word text => .scalar (String.ofList text)
  | .string pieces => .scalar (decoded pieces)
  | .array _ items => .sequence items.trees
  | .object _ members => .mapping members.entries

def Items.trees : Items → List Tree
  | .nil => []
  | .cons _ item _ rest => item.tree :: rest.trees

def Members.entries : Members → List (String × Tree)
  | .nil => []
  | .cons _ key _ _ value _ rest => (decoded key, value.tree) :: rest.entries

end

/-! ### What is allowed -/

def isSpace (x : Char) : Bool := x = ' ' || x = '\t' || x = '\n' || x = '\r'

/-- A gap between two tokens. -/
def IsGap (gap : List Char) : Prop := ∀ x ∈ gap, isSpace x = true

/-- Some digits, and at least one. -/
def IsDigits (cs : List Char) : Prop := cs ≠ [] ∧ ∀ x ∈ cs, Text.isDigit x = true

/-- A number without its sign, its fraction and its exponent begins with no zero but a zero alone. -/
def IsWhole (cs : List Char) : Prop := IsDigits cs ∧ (cs.head? = some '0' → cs = ['0'])

def IsNumber (cs : List Char) : Prop :=
  ∃ sign whole fraction exponent, cs = sign ++ whole ++ fraction ++ exponent ∧
    (sign = [] ∨ sign = ['-']) ∧ IsWhole whole ∧
    (fraction = [] ∨ ∃ digits, fraction = '.' :: digits ∧ IsDigits digits) ∧
    (exponent = [] ∨ ∃ e sign digits, exponent = e :: (sign ++ digits) ∧ (e = 'e' ∨ e = 'E') ∧
      (sign = [] ∨ sign = ['+'] ∨ sign = ['-']) ∧ IsDigits digits)

def IsWord (cs : List Char) : Prop :=
  cs ∈ ["true".toList, "false".toList, "null".toList] ∨ IsNumber cs

/-- A character stands for itself unless it is a quote, a backslash or a control character. A code
has four digits and is no half of a surrogate pair. -/
def Piece.IsProper : Piece → Prop
  | .plain x => 0x20 ≤ x.toNat ∧ x ≠ '\x22' ∧ x ≠ '\\'
  | .short letter => (letters.lookup letter).isSome = true
  | .code digits => digits.length = 4 ∧ (∀ x ∈ digits, (Text.hexValue? x).isSome = true) ∧
    (Text.hexNumber digits).isValidChar

mutual

def Value.IsProper : Value → Prop
  | .word text => IsWord text
  | .string pieces => ∀ p ∈ pieces, p.IsProper
  | .array gap items => IsGap gap ∧ items.IsProper
  | .object gap members => IsGap gap ∧ members.IsProper

def Items.IsProper : Items → Prop
  | .nil => True
  | .cons before item after rest =>
    IsGap before ∧ item.IsProper ∧ IsGap after ∧ rest.IsProper

def Members.IsProper : Members → Prop
  | .nil => True
  | .cons before key link gap value after rest =>
    IsGap before ∧ (∀ p ∈ key, p.IsProper) ∧ IsGap link ∧ IsGap gap ∧ value.IsProper ∧
      IsGap after ∧ rest.IsProper

end

def Value.IsCollection : Value → Prop
  | .word _ => False
  | .string _ => False
  | .array _ _ => True
  | .object _ _ => True

/-- A JSON text whose value is an object or an array. -/
structure Document.IsProper (d : Document) : Prop where
  before : IsGap d.before
  value : d.value.IsProper
  isCollection : d.value.IsCollection
  after : IsGap d.after

/-! ### What is read as it stands -/

/-- A character that is read as it stands. A tab separates no tokens, some characters may stand in
no text, and a next line is read as a line feed. -/
def isKept (x : Char) : Bool := Yaml.isAllowed x && x != '\t' && x != '\u0085'

/-- Whether a text begins with three dashes or dots and a blank, which separate documents. -/
def beginsSeparator : List Char → Bool
  | a :: b :: c :: d :: _ => (a = '-' || a = '.') && b = a && c = a && Yaml.isBlankOrEnd d
  | _ => false

/-- Whether the line breaks in the characters of a string are read as they stand. No space is next
to one, and no document separator is behind one. -/
def keepsLines : List Char → Bool
  | [] => true
  | x :: cs =>
    (x != ' ' || !cs.head?.any Yaml.isBreak) &&
      (!Yaml.isBreak x || cs.head? != some ' ' && !beginsSeparator cs) && keepsLines cs

mutual

/-- The line breaks of every string are read as they stand. Keys have none, since a colon is on the
line on which its key starts. -/
def Value.KeepsLines : Value → Prop
  | .word _ => True
  | .string pieces => keepsLines (pieces.flatMap Piece.chars) = true
  | .array _ items => items.KeepsLines
  | .object _ members => members.KeepsLines

def Items.KeepsLines : Items → Prop
  | .nil => True
  | .cons _ item _ rest => item.KeepsLines ∧ rest.KeepsLines

def Members.KeepsLines : Members → Prop
  | .nil => True
  | .cons _ key _ _ value _ rest =>
    (∀ x ∈ quoted key, Yaml.isBreak x = false) ∧ value.KeepsLines ∧ rest.KeepsLines

end

mutual

/-- Only spaces stand between a key and its colon, which is not too far behind the start of the key. -/
def Value.HasNearColons : Value → Prop
  | .word _ => True
  | .string _ => True
  | .array _ items => items.HasNearColons
  | .object _ members => members.HasNearColons

def Items.HasNearColons : Items → Prop
  | .nil => True
  | .cons _ item _ rest => item.HasNearColons ∧ rest.HasNearColons

def Members.HasNearColons : Members → Prop
  | .nil => True
  | .cons _ key link _ value _ rest =>
    ((∀ x ∈ link, x = ' ') ∧ (quoted key).length + link.length ≤ Yaml.maxKeyLength) ∧
      value.HasNearColons ∧ rest.HasNearColons

end

end Treeline.Json
