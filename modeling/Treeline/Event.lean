import Treeline.Cluster.Connect

/-!
# Events of a run

A run connects to a cluster, sends requests, and notes what it has done. The notes are what is
printed when somebody wants to follow the run.
-/

namespace Treeline

/-- Something that a run has done. -/
inductive Note
  | found (kind : String) (resource : Resource)
  | fetched (request : Request)
  | decoded (documents : Nat)
  | resolved (segments : Nat)

def Note.message : Note → String
  | .found kind resource =>
    "kubewalk.fetch: resolved " ++ kind ++ " to " ++ resource.groupVersion ++ ", Kind="
      ++ resource.kind ++ " (" ++ resource.name.getD "None" ++ ")"
  | .fetched request =>
    "kubewalk.fetch: fetched " ++ request.resource.kind ++ "/" ++ request.name
  | .decoded documents =>
    "kubewalk.decode: decoded " ++ Numeral.text documents ++ " document(s)"
  | .resolved segments =>
    "kubewalk.navigator: resolved " ++ Numeral.text segments ++ " path segments"

/-- An event of a run. -/
inductive Event
  /-- A client is made, or the attempt begins. -/
  | connected (connection : Connection)
  | requested (request : Request)
  | noted (note : Note)

namespace Event

def connections (events : List Event) : List Connection :=
  events.filterMap fun
    | .connected connection => some connection
    | _ => none

def requests (events : List Event) : List Request :=
  events.filterMap fun
    | .requested request => some request
    | _ => none

def notes (events : List Event) : List Note :=
  events.filterMap fun
    | .noted note => some note
    | _ => none

end Event

end Treeline
