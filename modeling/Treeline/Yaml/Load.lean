import Treeline.Yaml.Graph.Read
import Treeline.Yaml.Source

/-!
# Loading graphs

The node graphs of a text, from its characters on, with errors as messages show them.
-/

namespace Treeline.Yaml

/-- Why a text has no graphs. -/
inductive LoadError
  | unreadable (name : String) (cause : Unreadable)
  | failed (source : Source) (failure : Failure)

def LoadError.message : LoadError → String
  | .unreadable name cause => cause.message name
  | .failed source failure => failure.message source

/-- Reads something from a text whose characters are checked. -/
def Source.read {α : Type} (source : Source) (reading : List Char → Result α) :
    Except (Stop LoadError) α :=
  match source.check with
  | .error cause => .error (.reported (.unreadable source.name cause))
  | .ok () => (reading source.text).mapError (Stop.map (LoadError.failed source))

def Source.graphs (source : Source) : Except (Stop LoadError) (List Graph) :=
  source.read Graph.ofText

end Treeline.Yaml
