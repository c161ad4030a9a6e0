import ComponentTags.CommandLine.Creation
import ComponentTags.CommandLine.Inspection
import ComponentTags.CommandLine.Transforming

/-!
Running the program: its arguments, the disk and the endpoint tell all that it does.
-/

namespace ComponentTags.CommandLine

def Invocation.run (invocation : Invocation) (endpoint : Endpoint) (disk : Disk) :
    Except SeveredCharacter (Console × Except Failure Unit) :=
  let console := Console.start disk
  match invocation.demand with
  | .transform demand => demand.run invocation.configuration endpoint console
  | .create force => .ok (create console invocation.configuration force)
  | .listCache format => .ok (listCache console invocation.configuration format)
  | .verifyCache => .ok (verifyCache console invocation.configuration)

/-- The files whose content matters, once the configuration is there. -/
def Invocation.filesRead (invocation : Invocation) (disk : Disk) : List Path :=
  match Configuration.loadOrStandard disk invocation.configuration with
  | .error _ => []
  | .ok configuration =>
      let inputs :=
        match invocation.demand with
        | .transform demand => (filesOfAll disk demand.inputs).toOption.getD []
        | _ => []
      let artifacts := disk.filesBelow configuration.artifactRoot
      (configuration.cacheDocument :: artifacts ++ inputs).filter disk.isFile

end ComponentTags.CommandLine
