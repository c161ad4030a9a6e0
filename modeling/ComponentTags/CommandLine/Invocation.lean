import ComponentTags.CommandLine.Arguments
import ComponentTags.Component.Dialect
import ComponentTags.Path

/-!
The commands of the program, and what each of them was asked to do.
-/

namespace ComponentTags.CommandLine

/-- Sources to transform, and where the result goes; without a dialect each name tells its own. -/
structure TransformDemand where
  inputs : List String
  dialect : Option Dialect
  write : Bool
  out : Option Path
deriving DecidableEq, Repr, Inhabited

inductive ListFormat where
  | text
  | json
deriving DecidableEq, Repr, Inhabited

inductive Demand where
  | transform (demand : TransformDemand)
  | create (force : Bool)
  | listCache (format : ListFormat)
  | verifyCache
deriving DecidableEq, Repr, Inhabited

structure Invocation where
  demand : Demand
  configuration : Path
  verbose : Bool
  quiet : Bool
deriving DecidableEq, Repr, Inhabited

namespace Invocation

def commonOptions : List OptionRule :=
  [⟨"verbose", some 'v', .switch⟩, ⟨"quiet", some 'q', .switch⟩, ⟨"config", some 'c', .path⟩,
   ⟨"no-progress", none, .switch⟩, ⟨"help", some 'h', .help⟩]

def commonConflicts : List (String × String) :=
  [("verbose", "quiet")]

def transformRule : CommandRule :=
  { name := "transform"
    options :=
      [⟨"dialect", none, .choice ["auto", "jsx", "vue"]⟩, ⟨"write", some 'w', .switch⟩,
       ⟨"out", some 'o', .path⟩] ++ commonOptions
    conflicts := ("out", "write") :: commonConflicts
    needsOperands := true
    commands := [] }

def createRule : CommandRule :=
  { name := "init"
    options := ⟨"force", some 'f', .switch⟩ :: commonOptions
    conflicts := commonConflicts
    needsOperands := false
    commands := [] }

def listRule : CommandRule :=
  { name := "list"
    options := ⟨"format", none, .choice ["text", "json"]⟩ :: commonOptions
    conflicts := commonConflicts
    needsOperands := false
    commands := [] }

def verifyRule : CommandRule :=
  { name := "verify"
    options := commonOptions
    conflicts := commonConflicts
    needsOperands := false
    commands := [] }

def cacheRule : CommandRule :=
  { name := "cache"
    options := commonOptions
    conflicts := commonConflicts
    needsOperands := false
    commands := [listRule, verifyRule] }

def programRule : CommandRule :=
  { name := "cloudcom"
    options := commonOptions ++ [⟨"version", some 'V', .version⟩]
    conflicts := commonConflicts
    needsOperands := false
    commands := [transformRule, createRule, cacheRule] }

/-- What was demanded, told by the last command and what was given to it. -/
def demandOf (level : Level) : Demand :=
  if level.command = transformRule.name then
    .transform
      { inputs := level.operands
        dialect := (level.value? "dialect").bind Dialect.ofName?
        write := level.has "write"
        out := (level.value? "out").map Path.mk }
  else if level.command = createRule.name then .create (level.has "force")
  else if level.command = listRule.name then
    .listCache (if level.value? "format" = some "json" then .json else .text)
  else .verifyCache

def standardFile : String :=
  "cloudcom.toml"

/-- The invocation of the given commands; of the configuration files named, the last one counts. -/
def ofLevels (levels : List Level) : Invocation :=
  { demand := demandOf (levels.getLast?.getD (.start ""))
    configuration := ⟨((levels.filterMap (·.value? "config")).getLast?).getD standardFile⟩
    verbose := levels.any (·.has "verbose")
    quiet := levels.any (·.has "quiet") }

def parse (arguments : List String) : Except Stop Invocation := do
  return ofLevels (← read programRule (.start programRule.name) arguments)

def showsWarnings (invocation : Invocation) : Bool :=
  invocation.verbose || !invocation.quiet

end Invocation

end ComponentTags.CommandLine
