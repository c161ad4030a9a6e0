/-!
Why a component could not be fetched.
-/

namespace ComponentTags

inductive FetchFailure where
  | status (code : Nat)
  | transport (reason : String)
  | decode (reason : String)
  | timeout (milliseconds : Nat)
deriving DecidableEq, Repr, Inhabited

def FetchFailure.message : FetchFailure → String
  | status code => "endpoint returned HTTP " ++ toString code
  | transport reason => "request failed: " ++ reason
  | decode reason => "invalid response body: " ++ reason
  | timeout milliseconds => "request timed out after " ++ toString (milliseconds / 1000) ++ "s"

end ComponentTags
