import Treeline.Yaml.Mark

/-!
# Tokens

The tokens that the text of a document is made of. The indentation of block collections shows in
tokens of its own: one where a collection starts and one where it ends.
-/

namespace Treeline.Yaml

/-- A line that begins with a percent sign. Only the version of the language and the short forms of
tags count. -/
inductive Directive
  | version (major : Nat)
  /-- The tags that begin with `handle` stand for tags that begin with `stem`. -/
  | tag (handle stem : String)
  | other
  deriving DecidableEq

/-- What a token is. -/
inductive Lexeme
  | directive (directive : Directive)
  | documentStart
  | documentEnd
  | streamEnd
  | blockSequenceStart
  | blockMappingStart
  | blockEnd
  | flowSequenceStart
  | flowSequenceEnd
  | flowMappingStart
  | flowMappingEnd
  | blockEntry
  | flowEntry
  | key
  | value
  | alias (name : String)
  | anchor (name : String)
  /-- A tag whose handle stands for the beginning of another tag, if it has one. -/
  | tag (handle : Option String) (suffix : String)
  | scalar (text : String) (isPlain : Bool)
  deriving DecidableEq

/-- The name of a kind of token in messages. -/
def Lexeme.name : Lexeme → String
  | .directive _ => "<directive>"
  | .documentStart => "<document start>"
  | .documentEnd => "<document end>"
  | .streamEnd => "<stream end>"
  | .blockSequenceStart => "<block sequence start>"
  | .blockMappingStart => "<block mapping start>"
  | .blockEnd => "<block end>"
  | .flowSequenceStart => "["
  | .flowSequenceEnd => "]"
  | .flowMappingStart => "\x7b"
  | .flowMappingEnd => "\x7d"
  | .blockEntry => "-"
  | .flowEntry => ","
  | .key => "?"
  | .value => ":"
  | .alias _ => "<alias>"
  | .anchor _ => "<anchor>"
  | .tag _ _ => "<tag>"
  | .scalar _ _ => "<scalar>"

/-- A token and where it stands. -/
structure Token where
  lexeme : Lexeme
  start : Mark
  stop : Mark
  deriving DecidableEq

end Treeline.Yaml
