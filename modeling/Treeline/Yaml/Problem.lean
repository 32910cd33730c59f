import Treeline.Fault
import Treeline.Yaml.Token

/-!
# Problems in documents

What can be wrong with the text of a document, or with the values that it stands for. A problem has
a mark, and often a context with a mark of its own.
-/

namespace Treeline.Yaml

/-- The kinds of nodes. -/
inductive NodeKind
  | scalar
  | sequence
  | mapping
  deriving DecidableEq

def NodeKind.name : NodeKind → String
  | .scalar => "scalar"
  | .sequence => "sequence"
  | .mapping => "mapping"

/-- What was being read when a problem was found. -/
inductive Context
  | nextToken
  | simpleKey
  | directive
  | anchor
  | alias
  | tag
  /-- Inside the part of a tag that names it. -/
  | tagName
  /-- Inside the part of a directive that names a tag. -/
  | directiveName
  | blockScalar
  | doubleQuoted
  | quoted
  | node
  | blockNode
  | flowNode
  | blockCollection
  | blockMapping
  | flowSequence
  | flowMapping
  /-- The first of two nodes with one anchor. -/
  | firstAnchor (name : String)
  /-- The first of several documents where one is wanted. -/
  | singleDocument
  | mappingValue
  | orderedMap
  | pairs
  deriving DecidableEq

def Context.message : Context → String
  | .nextToken => "while scanning for the next token"
  | .simpleKey => "while scanning a simple key"
  | .directive => "while scanning a directive"
  | .anchor => "while scanning an anchor"
  | .alias => "while scanning an alias"
  | .tag => "while scanning a tag"
  | .tagName => "while parsing a tag"
  | .directiveName => "while parsing a directive"
  | .blockScalar => "while scanning a block scalar"
  | .doubleQuoted => "while scanning a double-quoted scalar"
  | .quoted => "while scanning a quoted scalar"
  | .node => "while parsing a node"
  | .blockNode => "while parsing a block node"
  | .flowNode => "while parsing a flow node"
  | .blockCollection => "while parsing a block collection"
  | .blockMapping => "while parsing a block mapping"
  | .flowSequence => "while parsing a flow sequence"
  | .flowMapping => "while parsing a flow mapping"
  | .firstAnchor name => "found duplicate anchor " ++ Text.quoted name ++ "; first occurrence"
  | .singleDocument => "expected a single document in the stream"
  | .mappingValue => "while constructing a mapping"
  | .orderedMap => "while constructing an ordered map"
  | .pairs => "while constructing pairs"

/-- What should stand where a character was found. -/
inductive Wanted
  | wordCharacter
  | digit
  | digitOrDot
  | digitOrSpace
  | space
  | exclamationMark
  | closingAngle
  | name
  | endOfLine
  | blockIndicators
  | hexDigits (count : Nat)
  | nameEscape
  deriving DecidableEq

def Wanted.message : Wanted → String
  | .wordCharacter => "alphabetic or numeric character"
  | .digit => "a digit"
  | .digitOrDot => "a digit or \x27.\x27"
  | .digitOrSpace => "a digit or \x27 \x27"
  | .space => "\x27 \x27"
  | .exclamationMark => "\x27!\x27"
  | .closingAngle => "\x27>\x27"
  | .name => "URI"
  | .endOfLine => "a comment or a line break"
  | .blockIndicators => "chomping or indentation indicators"
  | .hexDigits count => "escape sequence of " ++ Numeral.text count ++ " hexadecimal numbers"
  | .nameEscape => "URI escape sequence of 2 hexadecimal numbers"

/-- Why the content of binary data cannot be read. -/
inductive BinaryProblem
  /-- Characters that are not ASCII: where the first run of them starts, how long it is, and the
  first one. -/
  | notAscii (position length : Nat) (first : Char)
  | padding
  | length (count : Nat)
  deriving DecidableEq

def BinaryProblem.message : BinaryProblem → String
  | .notAscii position count first =>
    let place :=
      if count = 1 then
        let n := first.toNat
        let code :=
          if n ≤ 0xFF then "\\x" ++ String.ofList (Text.hex 2 n)
          else if n ≤ 0xFFFF then "\\u" ++ String.ofList (Text.hex 4 n)
          else "\\U" ++ String.ofList (Text.hex 8 n)
        "character \x27" ++ code ++ "\x27 in position " ++ Numeral.text position
      else
        "characters in position " ++ Numeral.text position ++ "-"
          ++ Numeral.text (position + count - 1)
    "failed to convert base64 data into ascii: \x27ascii\x27 codec can\x27t encode " ++ place
      ++ ": ordinal not in range(128)"
  | .padding => "failed to decode base64 data: Incorrect padding"
  | .length count =>
    "failed to decode base64 data: Invalid base64-encoded string: number of data characters ("
      ++ Numeral.text count ++ ") cannot be 1 more than a multiple of 4"

/-- What is wrong. -/
inductive Problem
  | cannotStart (found : Char)
  | noColon
  | entryNotAllowed
  | keyNotAllowed
  | valueNotAllowed
  | expected (wanted : Wanted) (found : Char)
  | zeroIndentation
  | undecodable (failure : Text.Utf8.Failure)
  | unknownEscape (found : Char)
  | endOfStream
  | documentSeparator
  | noDocumentStart (found : Lexeme)
  | duplicateVersion
  | incompatibleVersion
  | duplicateHandle (handle : String)
  | undefinedHandle (handle : String)
  | noContent (found : Lexeme)
  | noBlockEnd (found : Lexeme)
  | noSequenceEnd (found : Lexeme)
  | noMappingEnd (found : Lexeme)
  | undefinedAlias (name : String)
  | secondAnchor
  | anotherDocument
  | noConstructor (tag : String)
  | wrongKind (wanted found : NodeKind)
  | binary (problem : BinaryProblem)
  | keyNotHashable
  | cannotMerge (found : NodeKind)
  | cannotMergeAny (found : NodeKind)
  | notSequence (found : NodeKind)
  | notPair (found : NodeKind)
  | notSingle (count : Nat)
  deriving DecidableEq

namespace Problem

/-- The text of a problem where another token was expected. -/
def gotToken (wanted : String) (found : Lexeme) : String :=
  "expected " ++ wanted ++ " " ++ Text.quoted found.name

def message : Problem → String
  | .cannotStart found =>
    "found character " ++ Text.quotedChar found ++ " that cannot start any token"
  | .noColon => "could not find expected \x27:\x27"
  | .entryNotAllowed => "sequence entries are not allowed here"
  | .keyNotAllowed => "mapping keys are not allowed here"
  | .valueNotAllowed => "mapping values are not allowed here"
  | .expected wanted found =>
    "expected " ++ wanted.message ++ ", but found " ++ Text.quotedChar found
  | .zeroIndentation => "expected indentation indicator in the range 1-9, but found 0"
  | .undecodable failure => failure.message
  | .unknownEscape found => "found unknown escape character " ++ Text.quotedChar found
  | .endOfStream => "found unexpected end of stream"
  | .documentSeparator => "found unexpected document separator"
  | .noDocumentStart found => gotToken "\x27<document start>\x27, but found" found
  | .duplicateVersion => "found duplicate YAML directive"
  | .incompatibleVersion => "found incompatible YAML document (version 1.* is required)"
  | .duplicateHandle handle => "duplicate tag handle " ++ Text.quoted handle
  | .undefinedHandle handle => "found undefined tag handle " ++ Text.quoted handle
  | .noContent found => gotToken "the node content, but found" found
  | .noBlockEnd found => gotToken "<block end>, but found" found
  | .noSequenceEnd found => gotToken "\x27,\x27 or \x27]\x27, but got" found
  | .noMappingEnd found => gotToken "\x27,\x27 or \x27\x7d\x27, but got" found
  | .undefinedAlias name => "found undefined alias " ++ Text.quoted name
  | .secondAnchor => "second occurrence"
  | .anotherDocument => "but found another document"
  | .noConstructor tag => "could not determine a constructor for the tag " ++ Text.quoted tag
  | .wrongKind wanted found =>
    "expected a " ++ wanted.name ++ " node, but found " ++ found.name
  | .binary cause => cause.message
  | .keyNotHashable => "found unhashable key"
  | .cannotMerge found => "expected a mapping for merging, but found " ++ found.name
  | .cannotMergeAny found =>
    "expected a mapping or list of mappings for merging, but found " ++ found.name
  | .notSequence found => "expected a sequence, but found " ++ found.name
  | .notPair found => "expected a mapping of length 1, but found " ++ found.name
  | .notSingle count =>
    "expected a single mapping item, but found " ++ Numeral.text count ++ " items"

end Problem

/-- A problem, where it was found, and what was being read then. -/
structure Failure where
  context : Option (Context × Option Mark)
  problem : Problem
  mark : Mark
  deriving DecidableEq

namespace Failure

/-- The lines about the context. Its mark is left out where the problem has the same one. -/
def contextLines (source : Source) (f : Failure) : List String :=
  match f.context with
  | none => []
  | some (context, none) => [context.message]
  | some (context, some m) =>
    if m.line = f.mark.line ∧ m.column = f.mark.column then [context.message]
    else [context.message, source.place m]

/-- The text of a failure in a source. -/
def message (source : Source) (f : Failure) : String :=
  "\n".intercalate
    (f.contextLines source ++ [f.problem.message, source.place f.mark])

end Failure

/-- What reading a document, or a part of one, comes to. -/
abbrev Result (α : Type) := Except (Stop Failure) α

/-- A problem without a context. -/
def refuse {α : Type} (problem : Problem) (m : Mark) : Result α :=
  .error (.reported ⟨none, problem, m⟩)

/-- A problem in a context that starts at a mark. -/
def refuseIn {α : Type} (context : Context) (start : Mark) (problem : Problem) (m : Mark) :
    Result α :=
  .error (.reported ⟨some (context, some start), problem, m⟩)

end Treeline.Yaml
