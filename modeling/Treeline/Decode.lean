import Treeline.Data.Outline
import Treeline.Folder
import Treeline.Unfold
import Treeline.Yaml.Load
import Treeline.Yaml.Write

/-!
# Decoding documents

The trees of the documents in a text. All documents are read before the first one becomes a tree.
Documents that hold nothing are left out: their root is an empty scalar that stands for no value.
-/

namespace Treeline

/-- Why a text cannot be decoded. -/
inductive DecodeError
  /-- A file with a name cannot be opened. -/
  | unopened (name : String) (cause : FileError)
  | undecodable (failure : Text.Utf8.Failure)
  | invalid (cause : Yaml.LoadError)
  | unfolding (cause : UnfoldError)
  /-- Data holds something that cannot be written. -/
  | unwritable (cause : Data.Unwritable)
  /-- An error in a file with a name. -/
  | inFile (name : String) (cause : DecodeError)

def DecodeError.message : DecodeError → String
  | .unopened name cause => "error reading file " ++ name ++ ": " ++ cause.message
  | .undecodable failure => "invalid UTF-8 input: " ++ failure.message
  | .invalid cause => "invalid YAML: " ++ cause.message
  | .unfolding cause => cause.message
  | .unwritable cause =>
    "serialization error: (\x27cannot represent an object\x27, " ++ cause.shown ++ ")"
  | .inFile name cause => "error reading file " ++ name ++ ": " ++ cause.message

/-- Whether a document holds nothing. -/
def isBlankDocument (g : Yaml.Graph) : Bool :=
  let root := g.rootNode
  root.tag = Yaml.Tag.null && root.content = .scalar ""

def unfoldAll (limit : Int) (graphs : List Yaml.Graph) : Except UnfoldError (List Tree) :=
  (graphs.filter fun g => !isBlankDocument g).mapM (unfold limit)

/-- The documents of a source, each with at most `limit` nodes. -/
def decodeSource (limit : Int) (source : Yaml.Source) :
    Except (Stop DecodeError) (List Tree) := do
  let graphs ← source.graphs.mapError (Stop.map .invalid)
  (unfoldAll limit graphs).mapError fun cause => .reported (.unfolding cause)

def decodeText (limit : Int) (text : List Char) : Except (Stop DecodeError) (List Tree) :=
  decodeSource limit (.ofText text)

def decodeBytes (limit : Int) (bytes : List UInt8) : Except (Stop DecodeError) (List Tree) :=
  match Yaml.Source.ofBytes bytes with
  | .error cause => .error (.reported (.invalid (.unreadable Yaml.Source.bytesName cause)))
  | .ok source => decodeSource limit source

/-- The documents of a file that messages call by a name. -/
def decodeFile (limit : Int) (name : String) (bytes : List UInt8) :
    Except (Stop DecodeError) (List Tree) :=
  match Text.Utf8.decodeFile bytes with
  | .error failure => .error (.reported (.undecodable failure))
  | .ok text => decodeSource limit (.ofFile name text)

/-- The name that stands for standard input. -/
def standardInput : String := "-"

/-- The documents of a file, or of standard input. -/
def decodeNamed (folder : Folder) (input : List UInt8) (name : String) :
    Except (Stop DecodeError) (List Tree) :=
  if name = standardInput then decodeFile maxNodes "<stdin>" input
  else
    match folder.read name with
    | .error stop => .error (stop.map (.unopened name))
    | .ok bytes => (decodeFile maxNodes name bytes).mapError (Stop.map (.inFile name))

/-- The document that data is written as. It is written and read back, so that its scalars have the
text that they would have in a file. -/
def decodeData (data : Data) : Except (Stop DecodeError) Tree := do
  let outline ← data.outline.mapError (Stop.map .unwritable)
  let trees ← decodeText maxNodes outline.write
  return trees.head?.getD (.mapping [])

end Treeline
