import ComponentTags.Build.State

/-!
The steps of a build. Each takes one visit to its next stage; a visit that has to wait for a gate, for
a slot or for other visits takes none. Any order of steps is an order in which a build may run.
-/

namespace ComponentTags.Build

def distinctBy {α : Type} (key : α → ComponentKey) (seen : List ComponentKey) : List α → List α
  | [] => []
  | item :: items =>
      if seen.contains (key item) then distinctBy key seen items
      else item :: distinctBy key (key item :: seen) items

def directRegistrations (setting : BuildSetting) (reference : Reference) (deps : List Dependency) :
    List Registration :=
  (distinctBy NamedReference.key [] (deps.map fun dep => named setting (reference.child dep))).map
    fun component => .of component.reference component.identity

/-- Goes on to visit what a component needs; what needs it already is a cycle and is not visited. -/
def visitDeps (build : Build) (setting : BuildSetting) (index : Nat) (visit : Visit)
    (deps : List Dependency) (entry : Option Payload) : Build :=
  let ancestors := visit.ancestors ++ [visit.component.key]
  let needed := deps.map fun dep => named setting (visit.component.reference.child dep)
  let (cyclic, fresh) := needed.partition fun child => ancestors.contains child.key
  let children := fresh.map fun component =>
    { component, ancestors, isChild := true, run := visit.run, stage := .arriving }
  let build := cyclic.foldl
    (fun build child =>
      (build.warn (.dependencyCycle visit.component.reference child.reference)).count visit.run
        fun report => { report with cycles := report.cycles + 1 })
    build
  let first := build.visits.length
  { build with visits := build.visits ++ children }.atStage index
    (.joining (List.range' first children.length) entry)

def writeModules (build : Build) (visit : Visit) (files : List OutputFile) : Build × Bool :=
  match build.disk.writeAll (files.map fun file => (file.path, file.content)) with
  | (disk, .ok _) => ({ build with disk }, true)
  | (disk, .error _) =>
      ({ build with disk }.count visit.run
        fun report => { report with writeErrors := report.writeErrors + 1 }, false)

def settle (build : Build) (visit : Visit) (payload : Payload) (files : List OutputFile) : Build :=
  match build.writeModules visit files with
  | (build, false) => build
  | (build, true) =>
      { build with cache := build.cache.recordSuccess visit.component.key payload.deps }.count
        visit.run fun report => { report with fetched := report.fetched + 1 }

def fail (build : Build) (index : Nat) (visit : Visit) (failure : FetchFailure) : Build :=
  ((build.warn (.fetchFailed visit.component.reference failure)).count visit.run
    fun report => { report with failed := report.failed + 1 }).atStage index .failing

/-- The first visit of a component closes its gates; any other one waits. -/
def arrive (build : Build) (index : Nat) (visit : Visit) : Build :=
  let key := visit.component.key
  if build.knowledge.nodes.contains key then build.atStage index .waiting
  else
    let build := build.close key
    let build := { build with cache := build.cache.ensure key }
    match build.cache.get? key with
    | some { success := true, deps } => build.atStage index (.looking deps)
    | _ => build.atStage index .queued

/-- A component that the cache knows is there if its module is. -/
def look (build : Build) (setting : BuildSetting) (index : Nat) (visit : Visit)
    (deps : List Dependency) : Build :=
  let key := visit.component.key
  let path := visit.component.identity.path
  if build.disk.holds path then
    let build := build.count visit.run fun report =>
      { report with cacheHits := report.cacheHits + 1 }
    ((build.learn key deps).openNode key).visitDeps setting index visit deps none
  else
    (build.warn (.artifactMissing visit.component.reference path)).atStage index .queued

def send? (build : Build) (setting : BuildSetting) (index : Nat) (visit : Visit) : Option Build :=
  let reference := visit.component.reference
  match setting.registry.find? reference.tag with
  | none =>
      some (build.fail index visit
        (.transport ("tag '" ++ reference.tag ++ "' has no configured endpoint")))
  | some rule =>
      if build.requestsUnderWay < setting.slots then
        let request :=
          { reference, identifier := visit.component.identity.identifier, api := rule.api }
        some ({ build with requests := build.requests ++ [request] }.atStage index .requesting)
      else
        none

/-- What the endpoint answers to the request of a visit; one that takes too long is given up. -/
def response (setting : BuildSetting) (visit : Visit) : Response :=
  let reference := visit.component.reference
  match setting.registry.find? reference.tag with
  | none => .error (.timeout setting.timeout)
  | some rule =>
      (setting.endpoint
        { reference, identifier := visit.component.identity.identifier, api := rule.api }).getD
        (.error (.timeout setting.timeout))

def receive (build : Build) (setting : BuildSetting) (index : Nat) (visit : Visit) : Build :=
  match response setting visit with
  | .error failure => build.fail index visit failure
  | .ok (payload, warnings) =>
      let key := visit.component.key
      let build := { build with warnings := build.warnings ++ warnings }.learn key payload.deps
      if visit.isChild then build.atStage index (.writing payload)
      else (build.openNode key).visitDeps setting index visit payload.deps (some payload)

/-- Writes the message that stands for a component that cannot be had. -/
def writeError (build : Build) (setting : BuildSetting) (index : Nat) (visit : Visit) : Build :=
  let key := visit.component.key
  let (build, _) := build.writeModules visit [setting.workshop.errorFile visit.component.reference]
  ((build.openSubtree key).openNode key).atStage index .done

def writeDependency (build : Build) (setting : BuildSetting) (index : Nat) (visit : Visit)
    (payload : Payload) : Build :=
  let reference := visit.component.reference
  let files := setting.workshop.dependencyFiles reference payload
    (directRegistrations setting reference payload.deps)
  ((build.settle visit payload files).openNode visit.component.key).visitDeps setting index visit
    payload.deps none

/-- Once all children were visited, so was the subtree; an entry then gathers its registrations. -/
def join? (build : Build) (index : Nat) (visit : Visit) (children : List Nat)
    (entry : Option Payload) : Option Build :=
  if children.all build.isDone then
    let key := visit.component.key
    let stage :=
      match entry with
      | none => Stage.done
      | some payload =>
          .gathering payload
            { seen := [key], found := []
              pending := payload.deps.map visit.component.reference.child }
    some ((build.openSubtree key).atStage index stage)
  else
    none

/-- Gathers one more registration once its subtree was visited, or writes the entry after the last. -/
def gather? (build : Build) (setting : BuildSetting) (index : Nat) (visit : Visit)
    (payload : Payload) (gathering : Gathering) : Option Build :=
  match gathering.pending with
  | [] =>
      let files := setting.workshop.entryFiles visit.component.reference payload gathering.found
      some ((build.settle visit payload files).atStage index .done)
  | reference :: pending =>
      let component := named setting reference
      let key := component.key
      if gathering.seen.contains key then
        some (build.atStage index (.gathering payload { gathering with pending }))
      else if build.knowledge.subtrees[key]? = some .closed then none
      else
        let deps := build.knowledge.deps[key]?.getD []
        some (build.atStage index (.gathering payload
          { seen := key :: gathering.seen
            found := gathering.found ++ [.of reference component.identity]
            pending := deps.map reference.child ++ pending }))

def step? (build : Build) (setting : BuildSetting) (index : Nat) : Option Build :=
  match build.visits[index]? with
  | none => none
  | some visit =>
      match visit.stage with
      | .arriving => some (build.arrive index visit)
      | .waiting =>
          if build.knowledge.nodes[visit.component.key]? = some .closed then none
          else some (build.atStage index .done)
      | .looking deps => some (build.look setting index visit deps)
      | .queued => build.send? setting index visit
      | .requesting => some (build.receive setting index visit)
      | .failing => some (build.writeError setting index visit)
      | .writing payload => some (build.writeDependency setting index visit payload)
      | .joining children entry => build.join? index visit children entry
      | .gathering payload gathering => build.gather? setting index visit payload gathering
      | .done => none

end ComponentTags.Build
