import Treeline.Event
import Treeline.Traced

/-!
# Fetching an object

An object is fetched with one request, which goes to the resource that serves its kind. If no
resource is found, no request is sent.
-/

namespace Treeline

def Cluster.fetch (c : Cluster) (kind : String) (space : Argument) (name : String)
    (timeout : Option Timeout) : Traced Event FetchError Data := do
  let resource ← .ofExcept (c.find kind)
  .emit (.noted (.found kind resource))
  let request := Request.ofNames resource space name timeout
  .emit (.requested request)
  let object ← .ofExcept ((c.get request).mapError (.refused request))
  .emit (.noted (.fetched request))
  return object

end Treeline
