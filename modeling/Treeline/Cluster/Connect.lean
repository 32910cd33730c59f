import Treeline.Cluster.Find

/-!
# Connecting to a cluster

A client is made in steps. The credentials come from a file or from the account that programs inside
the cluster have; the client that they open is then asked what the cluster serves. The first step
that fails ends the attempt.
-/

namespace Treeline

/-- How to reach a cluster. -/
structure Connection where
  kubeconfig : Option Argument
  context : Option Argument
  /-- Whether the program runs inside the cluster. -/
  isInside : Bool
  deriving DecidableEq

/-- What opens a client. -/
inductive Opener
  | file
  | account
  deriving DecidableEq

/-- A step of making a client. -/
inductive ConnectStep
  /-- Opens a client with the credentials of a file. -/
  | openWithFile (file context : Option Argument)
  | loadAccount
  /-- Opens a client with the credentials of an account. -/
  | openWithAccount
  /-- Starts discovery through an open client. -/
  | startDiscovery (opener : Opener)
  deriving DecidableEq

namespace Connection

def steps (c : Connection) : List ConnectStep :=
  if c.isInside then [.loadAccount, .openWithAccount, .startDiscovery .account]
  else [.openWithFile c.kubeconfig c.context, .startDiscovery .file]

def failed (text : String) : FetchError := .unconnected ("error connecting Kubernetes: " ++ text)

/-- Takes steps in order until one fails. Gives the steps that were begun, and the failure. -/
def take (attempt : ConnectStep → Except String Unit) :
    List ConnectStep → List ConnectStep × Except FetchError Unit
  | [] => ([], .ok ())
  | step :: rest =>
    match attempt step with
    | .error text => ([step], .error (failed text))
    | .ok () =>
      let (begun, result) := take attempt rest
      (step :: begun, result)

end Connection

end Treeline
