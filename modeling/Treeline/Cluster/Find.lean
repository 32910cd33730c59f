import Treeline.Cluster.Kind
import Treeline.Cluster.Resource
import Treeline.Text.Quoted

/-!
# Finding the resource of a kind

Several resources can serve the same kind. The group without a name comes before the others, then
the preferred version, then what discovery lists first. Parts of objects and lists of objects are
never found.
-/

namespace Treeline

/-- Why an object cannot be fetched. -/
inductive FetchError
  /-- There is no client; the text says why. -/
  | unconnected (text : String)
  | undiscovered (kind : String) (cause : ApiFailure)
  /-- Discovery lists a resource that does not say its kind. -/
  | kindless (kind : String)
  | unknownKind (kind : String)
  | refused (request : Request) (cause : ApiFailure)

def FetchError.message : FetchError → String
  | .unconnected text => text
  | .undiscovered kind cause => "error resolving GVK for " ++ kind ++ ": " ++ cause.message
  | .kindless kind =>
    "error resolving GVK for " ++ kind
      ++ ": \x27NoneType\x27 object has no attribute \x27lower\x27"
  | .unknownKind kind =>
    "error resolving GVK for " ++ kind ++ ": the server doesn\x27t have a resource type "
      ++ Text.quoted (Cluster.kindOf kind)
  | .refused request cause => "error getting " ++ request.shown ++ ": " ++ cause.message

namespace Cluster

/-- The resources that have a name, in order. Nothing is known if a resource that is no part of
another one does not say its kind. -/
def withName? (name : String) : List Discovered → Option (List Resource)
  | [] => some []
  | .collection :: rest => withName? name rest
  | .kindless plural :: rest => if Resource.isPart plural then withName? name rest else none
  | .resource r :: rest =>
    (withName? name rest).map fun found =>
      if !Resource.isPart r.name && r.names.contains name then r :: found else found

/-- How far from the front a resource stands among those of the same kind. -/
def rank (r : Resource) : Nat := (if r.isCore then 0 else 2) + (if r.isPreferred then 0 else 1)

/-- The first of the resources with the lowest rank. -/
def best? : List Resource → Option Resource
  | [] => none
  | r :: rest => some (rest.foldl (fun best s => if rank s < rank best then s else best) r)

/-- The resource that serves the kind that a name asks for. -/
def find (c : Cluster) (kind : String) : Except FetchError Resource :=
  match c.discover with
  | .error cause => .error (.undiscovered kind cause)
  | .ok discovered =>
    match withName? (Text.lowercase (kindOf kind)) discovered with
    | none => .error (.kindless kind)
    | some found =>
      match best? found with
      | none => .error (.unknownKind kind)
      | some r => .ok r

end Cluster

end Treeline
