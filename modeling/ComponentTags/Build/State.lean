import ComponentTags.Artifact.Module
import ComponentTags.Build.Report
import ComponentTags.Cache.Basic
import ComponentTags.Fetch.Endpoint

/-!
The state of a build. Every component that is met is visited; a visit is at one of a few stages. Two
gates guard a component: the first visit that meets it closes both, the node gate opens once its own
module is settled, and the subtree gate once all below it was visited too.
-/

namespace ComponentTags

/-- A gate that was closed once; it is never closed again. -/
inductive Gate where
  | closed
  | opened
deriving DecidableEq, Repr, Inhabited

def NamedReference.key (component : NamedReference) : ComponentKey :=
  { tag := component.reference.tag, identifier := component.identity.identifier }

/-- The registrations for an entry as they are gathered, and the components that are still to be seen. -/
structure Gathering where
  seen : List ComponentKey
  found : List Registration
  pending : List Reference
deriving DecidableEq, Repr, Inhabited

inductive Stage where
  | arriving
  | waiting
  | looking (deps : List Dependency)
  | queued
  | requesting
  | failing
  | writing (payload : Payload)
  | joining (children : List Nat) (entry : Option Payload)
  | gathering (payload : Payload) (gathering : Gathering)
  | done
deriving DecidableEq, Repr, Inhabited

/--
A visit of a component: the components that need it on this branch, whether it is there for one of
them, and the run that counts what happens.
-/
structure Visit where
  component : NamedReference
  ancestors : List ComponentKey
  isChild : Bool
  run : Nat
  stage : Stage
deriving DecidableEq, Repr, Inhabited

structure BuildSetting where
  workshop : Workshop
  registry : TagRegistry
  endpoint : Endpoint
  slots : Nat
  timeout : Nat

structure Knowledge where
  nodes : KeyMap Gate
  subtrees : KeyMap Gate
  deps : KeyMap (List Dependency)

def Knowledge.none : Knowledge :=
  { nodes := ∅, subtrees := ∅, deps := ∅ }

/-- A build: what it knows, the cache, the disk, all visits, the report of each run, and a log. -/
structure Build where
  knowledge : Knowledge
  cache : Cache
  disk : Disk
  visits : List Visit
  reports : List Report
  warnings : List Warning
  requests : List FetchRequest

namespace Build

def start (cache : Cache) (disk : Disk) : Build :=
  { knowledge := .none, cache, disk, visits := [], reports := [], warnings := [], requests := [] }

def atStage (build : Build) (index : Nat) (stage : Stage) : Build :=
  { build with visits := build.visits.modify index fun visit => { visit with stage } }

def warn (build : Build) (warning : Warning) : Build :=
  { build with warnings := build.warnings ++ [warning] }

def count (build : Build) (run : Nat) (change : Report → Report) : Build :=
  { build with reports := build.reports.modify run change }

def close (build : Build) (key : ComponentKey) : Build :=
  { build with
    knowledge := { build.knowledge with
      nodes := build.knowledge.nodes.insert key .closed
      subtrees := build.knowledge.subtrees.insert key .closed } }

def openNode (build : Build) (key : ComponentKey) : Build :=
  { build with
    knowledge := { build.knowledge with nodes := build.knowledge.nodes.insert key .opened } }

def openSubtree (build : Build) (key : ComponentKey) : Build :=
  { build with
    knowledge := { build.knowledge with subtrees := build.knowledge.subtrees.insert key .opened } }

def learn (build : Build) (key : ComponentKey) (deps : List Dependency) : Build :=
  { build with
    knowledge := { build.knowledge with deps := build.knowledge.deps.insert key deps } }

def requestsUnderWay (build : Build) : Nat :=
  build.visits.countP (·.stage = .requesting)

def isDone (build : Build) (index : Nat) : Bool :=
  (build.visits[index]?).any (·.stage = .done)

def named (setting : BuildSetting) (reference : Reference) : NamedReference :=
  { reference, identity := setting.workshop.naming.identity reference }

/-- One more run, which visits some components. -/
def begin (build : Build) (components : List NamedReference) : Build :=
  { build with
    reports := build.reports ++ [.zero]
    visits := build.visits ++ components.map fun component =>
      { component, ancestors := [], isChild := false, run := build.reports.length
        stage := .arriving } }

end Build

end ComponentTags
