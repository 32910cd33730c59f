import Treeline.CommandLine.Flag
import Treeline.Text.Digit

/-!
# Words of a command line

Each word is taken by itself before any of them is acted upon. A word that begins with a dash is a
flag if it is the name of one, perhaps with an equals sign and a text behind it. A long name can be
cut short, and a text can stand right behind a letter. Numbers and words with spaces are plain words
even if they begin with a dash, and so is everything behind a word of two dashes.
-/

namespace Treeline.CommandLine

/-- A flag, the name by which it is given, and the text attached to it. -/
structure FlagWord where
  name : String
  flag : Flag
  attached : Option (List Char)

/-- Whether a flag is given by its letter. -/
def FlagWord.isLetter (word : FlagWord) : Bool := word.name.length == 2

/-- How a word is taken. -/
inductive Word
  | flag (word : FlagWord)
  /-- Looks like a flag and is none. -/
  | unknown (text : String)
  | plain (text : String)
  /-- The two dashes behind which all words are plain. -/
  | separator

/-- The names of all flags, one by one. -/
def spellings : List (String × Flag) :=
  flagNames.flatMap fun entry => entry.2.map fun name => (name, entry.1)

def named? (name : List Char) : Option (String × Flag) :=
  spellings.find? fun spelling => spelling.1 == String.ofList name

def letter? (c : Char) : Option Flag := (named? ['-', c]).map (·.2)

/-- A text up to the first equals sign, and the text behind it, if there is one. -/
def cutAtEquals (cs : List Char) : List Char × Option (List Char) :=
  (cs.takeWhile (· != '='), (cs.dropWhile (· != '=')).tail?)

/-- The flag that a word names in full. -/
def whole? (cs : List Char) : Option FlagWord :=
  match named? cs with
  | some (name, flag) => some ⟨name, flag, none⟩
  | none =>
    match cutAtEquals cs with
    | (_, none) => none
    | (stem, some attached) => (named? stem).map fun (name, flag) => ⟨name, flag, some attached⟩

/-- The flags that a word can be short for, and those of a letter with a text behind it. -/
def guesses : List Char → List FlagWord
  | '-' :: '-' :: rest =>
    let (stem, attached) := cutAtEquals ('-' :: '-' :: rest)
    (spellings.filter fun spelling => stem.isPrefixOf spelling.1.toList).map fun (name, flag) =>
      ⟨name, flag, attached⟩
  | '-' :: c :: rest =>
    (named? ['-', c]).toList.map fun (name, flag) => ⟨name, flag, some rest⟩
  | _ => []

/-- Whether a word is a number below zero, with a line feed behind it or not. -/
def isNegativeNumber (cs : List Char) : Bool :=
  match (if cs.getLast? = some '\n' then cs.dropLast else cs) with
  | '-' :: digits =>
    match digits.dropWhile Text.isAnyDigit with
    | [] => !digits.isEmpty
    | '.' :: fraction => !fraction.isEmpty && fraction.all Text.isAnyDigit
    | _ => false
  | _ => false

/-- How a word before the separator is taken. -/
def classify (text : String) : Except UsageError Word :=
  match text.toList with
  | '-' :: c :: rest =>
    let cs := '-' :: c :: rest
    match whole? cs with
    | some word => .ok (.flag word)
    | none =>
      match guesses cs with
      | [word] => .ok (.flag word)
      | [] => .ok (if isNegativeNumber cs || cs.contains ' ' then .plain text else .unknown text)
      | words => .error (.ambiguous text (words.map (·.name)))
  | _ => .ok (.plain text)

def classifyAll : List String → Except UsageError (List Word)
  | [] => .ok []
  | text :: rest =>
    if text = "--" then .ok (.separator :: rest.map .plain)
    else do
      let word ← classify text
      let words ← classifyAll rest
      return word :: words

end Treeline.CommandLine
