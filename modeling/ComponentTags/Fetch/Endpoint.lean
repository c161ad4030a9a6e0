import ComponentTags.Component.Envelope
import ComponentTags.Component.Identity
import ComponentTags.Url.Basic

/-!
Requests for components, and what answers them.
-/

namespace ComponentTags

structure FetchRequest where
  reference : Reference
  identifier : String
  api : Url
deriving DecidableEq, Repr, Inhabited

/-- The address with the namespace and the version of the component at the end of its query. -/
def FetchRequest.url (request : FetchRequest) : Url :=
  (request.api.withPair "namespace" request.reference.space).withPair "version"
    request.reference.version

abbrev Response := Except FetchFailure (Payload × List Warning)

/-- What answers requests; nothing stands for a request that is never answered. -/
abbrev Endpoint := FetchRequest → Option Response

def Endpoint.unreachable : Endpoint := fun _ =>
  some (.error (.transport "error sending request"))

end ComponentTags
