import ComponentTags.Component.Payload
import ComponentTags.Json.Decoding
import ComponentTags.Warning

/-!
The envelope in which an endpoint serves a component. The code must be there; a dependency that is
not described properly is left out with a warning, and anything but a list of them stands for none.
-/

namespace ComponentTags

/-- The envelope holds the data and nothing else that counts. -/
def envelopeKind : Json.RecordKind :=
  { name := "Envelope", fields := ["data"] }

def envelopeDataKind : Json.RecordKind :=
  { name := "EnvelopeData", fields := ["runtime", "deps"] }

/-- How deep the description of the dependencies may nest: the envelope and the data lie around it. -/
def dependencyDepth : Nat :=
  125

def lastValue? (name : String) (members : List (String × Json.Value)) : Option Json.Value :=
  members.reverse.lookup name

/-- Reads a dependency that is told freely: further members do not matter, nor do earlier ones. -/
def Dependency.ofValue? : Json.Value → Option Dependency
  | .object extent members => do
      let members ← (Json.Value.asMembers (.object extent members)).toOption
      let space ← lastValue? "namespace" members
      let version ← lastValue? "version" members
      return { space := ← space.asText.toOption, version := ← version.asText.toOption }
  | .array _ [space, version] => do
      return { space := ← space.asText.toOption, version := ← version.asText.toOption }
  | _ => none

/-- The dependencies that a value describes, and a warning for each item that does not. -/
def Dependency.listOfValue : Json.Value → List Dependency × List Warning
  | .array _ items =>
      let found := items.map Dependency.ofValue?
      (found.filterMap id, (found.filter (·.isNone)).map fun _ => .dependencySkipped)
  | _ => ([], [])

namespace Payload

def ofValue (value : Json.Value) : Except Json.Fault (Payload × List Warning) := do
  let envelope ← envelopeKind.read value
  let data ← envelopeDataKind.read (← envelope.field "data")
  let runtime ← (← data.field "runtime").asText
  match data.field? "deps" with
  | none => return ({ runtime, deps := [] }, [])
  | some value =>
      value.check dependencyDepth
      let (deps, warnings) := Dependency.listOfValue value
      return ({ runtime, deps }, warnings)

def ofBody (body : List UInt8) : Except FetchFailure (Payload × List Warning) :=
  match Json.read body >>= ofValue with
  | .ok result => .ok result
  | .error fault => .error (.decode (fault.message body))

end Payload

end ComponentTags
