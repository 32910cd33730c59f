import Treeline.Argument
import Treeline.Data
import Treeline.Text.Lowercase
import Treeline.Timeout

/-!
# Resources of a cluster

A cluster serves objects of some kinds. For each kind that it serves, discovery lists a resource:
the names of the kind, the group and version that serve it, and the endpoint that requests for its
objects go to. Objects of some kinds live in namespaces, others belong to the whole cluster.
-/

namespace Treeline

/-- Why a cluster does not give what it is asked for. -/
inductive ApiFailure
  /-- It answers with a status and perhaps a reason. -/
  | refused (status : Int) (reason : Option String)
  /-- It does not answer. -/
  | unanswered (text : String)
  deriving DecidableEq

def ApiFailure.message : ApiFailure → String
  | .refused status reason => Numeral.intText status ++ " " ++ reason.getD "None"
  | .unanswered text => text

/-- What serves the objects of a kind. -/
structure Resource where
  endpoint : String
  kind : String
  /-- The plural name, in which a slash leads to a part of each object. -/
  name : Option String
  singular : Option String
  shortNames : List String
  group : Option String
  version : String
  /-- Whether the objects live in namespaces. -/
  isNamespaced : Bool
  /-- Whether the cluster prefers this version of its group. -/
  isPreferred : Bool
  deriving DecidableEq

namespace Resource

/-- Whether a resource with some plural name is a part of another one. -/
def isPart (name : Option String) : Bool := (name.getD "").toList.contains '/'

/-- The lower case names of a resource. -/
def names (r : Resource) : List String :=
  ((r.kind :: r.name.toList ++ r.singular.toList ++ r.shortNames).map Text.lowercase).filter
    (· != "")

/-- Whether a resource belongs to the group that has no name. -/
def isCore (r : Resource) : Bool := r.group == some ""

/-- The group, if it has a name, and the version. -/
def groupVersion (r : Resource) : String :=
  match r.group with
  | none | some "" => r.version
  | some group => group ++ "/" ++ r.version

end Resource

/-- What discovery lists. -/
inductive Discovered
  | resource (r : Resource)
  /-- The lists of objects of a kind. -/
  | collection
  /-- A resource that does not say its kind. -/
  | kindless (name : Option String)

/-- A request for one object. -/
structure Request where
  resource : Resource
  name : String
  /-- The namespace, for objects that live in one. -/
  space : Option Argument
  /-- How long to wait, if there is a limit. -/
  timeout : Option Timeout

namespace Request

def ofNames (resource : Resource) (space : Argument) (name : String) (timeout : Option Timeout) :
    Request where
  resource
  name
  space := if resource.isNamespaced then some space else none
  timeout := timeout.filter Timeout.isSet

def shown (q : Request) : String :=
  (q.space.map Argument.shown).getD "" ++ "/" ++ q.resource.kind ++ "/" ++ q.name ++ " ("
    ++ q.resource.groupVersion ++ ")"

end Request

/-- A cluster that can be asked. -/
structure Cluster where
  discover : Except ApiFailure (List Discovered)
  get : Request → Except ApiFailure Data

end Treeline
