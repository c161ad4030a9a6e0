import ComponentTags.Component.Reference
import ComponentTags.Fetch.Failure

/-!
Warnings: what a user should know although the work goes on.
-/

namespace ComponentTags

inductive TagFault where
  | blankTag
  | blankKeyword
  | invalidAddress
  | schemeNotWeb (scheme : String)
deriving DecidableEq, Repr, Inhabited

def TagFault.message : TagFault → String
  | blankTag => "tag_name is empty"
  | blankKeyword => "def_keyword is empty"
  | invalidAddress => "invalid api URL"
  | schemeNotWeb scheme => "api URL must use http or https, got '" ++ scheme ++ "'"

inductive Warning where
  | tagSkipped (tag : String) (fault : TagFault)
  | noComponents (configuration : Path)
  | definitionMissing (tag keyword : String)
  | definitionMalformed (tag value : String)
  | similarAttribute (tag attributeName keyword : String)
  | dependencySkipped
  | documentIgnored
  | documentOverwritten
  | artifactMissing (reference : Reference) (path : Path)
  | fetchFailed (reference : Reference) (failure : FetchFailure)
  | dependencyCycle (reference ancestor : Reference)
deriving DecidableEq, Repr, Inhabited

def Warning.message : Warning → String
  | tagSkipped tag fault =>
      "Skipping component configuration for tag '" ++ tag ++ "': " ++ fault.message
  | noComponents configuration =>
      "No components configured in " ++ configuration.text ++ "; sources pass through unchanged"
  | definitionMissing tag keyword =>
      "<" ++ tag ++ "> has no '" ++ keyword
        ++ "' attribute; rendering the definition-error fallback"
  | definitionMalformed tag value =>
      "<" ++ tag ++ "> has malformed definition '" ++ value ++ "' (expected namespace@version)"
  | similarAttribute tag attributeName keyword =>
      "<" ++ tag ++ "> has attribute '" ++ attributeName ++ "'; did you mean '" ++ keyword ++ "'?"
  | dependencySkipped => "Skipping invalid dependency descriptor"
  | documentIgnored => "Ignoring unreadable cache document"
  | documentOverwritten => "Overwriting unreadable cache document"
  | artifactMissing reference path =>
      "Cache lists " ++ reference.text ++ " as materialized but " ++ path.text
        ++ " is missing; fetching again"
  | fetchFailed reference failure =>
      "Failed to fetch " ++ reference.text ++ ": " ++ failure.message
  | dependencyCycle reference ancestor =>
      "Dependency cycle: " ++ reference.text ++ " depends on its ancestor " ++ ancestor.text

end ComponentTags
