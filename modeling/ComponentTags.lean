import ComponentTags.Main
import ComponentTags.Proofs.Disk.Places
import ComponentTags.Proofs.Disk.Writing
import ComponentTags.Proofs.Artifact.Deeds
import ComponentTags.Proofs.Build.EntryRegistry
import ComponentTags.Proofs.Artifact.Shapes
import ComponentTags.Proofs.Artifact.EntryElements
import ComponentTags.Proofs.Artifact.ScriptBlocks
import ComponentTags.Proofs.Build.History
import ComponentTags.Proofs.Build.ServedModules
import ComponentTags.Proofs.Element.Derivations
import ComponentTags.Proofs.Element.Layout
import ComponentTags.Proofs.Element.MarkupLayout
import ComponentTags.Proofs.Element.CodePrograms
import ComponentTags.Proofs.Element.MarkupTrees
import ComponentTags.Proofs.Element.TagStructure
import ComponentTags.Proofs.Plan.ImportSites
import ComponentTags.Proofs.Plan.Patches
import ComponentTags.Proofs.Plan.Rewriting
import ComponentTags.Proofs.Plan.Surveys
import ComponentTags.Proofs.Plan.Splicing
import ComponentTags.Proofs.Bytewise.Rewriting
import ComponentTags.Proofs.Plan.Prologues
import ComponentTags.Proofs.Plan.Renaming
import ComponentTags.Proofs.Plan.TemplateRenaming
import ComponentTags.Proofs.Plan.TemplateBlocks
import ComponentTags.Proofs.Build.Progress
import ComponentTags.Proofs.Build.Ending
import ComponentTags.Proofs.Build.Recoveries
import ComponentTags.Proofs.Build.Schedules
import ComponentTags.Proofs.Build.Restoring
import ComponentTags.Proofs.Build.Claims
import ComponentTags.Proofs.Build.CycleReports
import ComponentTags.Proofs.Build.Delivery
import ComponentTags.Proofs.Artifact.Preambles
import ComponentTags.Proofs.Build.Imports
import ComponentTags.Proofs.Build.Reach
import ComponentTags.Proofs.Build.Requests
import ComponentTags.Proofs.Build.Once
import ComponentTags.Proofs.Build.Tallies
import ComponentTags.Proofs.Build.Findings
import ComponentTags.Proofs.Text.Encodings
import ComponentTags.Proofs.Cache.Documents
import ComponentTags.Proofs.Cache.Reloading
import ComponentTags.Proofs.Cache.Flushing
import ComponentTags.Proofs.Cache.Sharing
import ComponentTags.Proofs.Build.WarmBuilds
import ComponentTags.Proofs.Build.Isolation
import ComponentTags.Proofs.Url.Forms
import ComponentTags.Proofs.Build.Verdicts
import ComponentTags.Proofs.Component.Envelopes
import ComponentTags.Proofs.Component.ModuleFiles
import ComponentTags.Proofs.Component.DigestInputs
import ComponentTags.Proofs.Component.Identifiers
import ComponentTags.Proofs.Artifact.Registries
import ComponentTags.Proofs.Build.RegistryLookups
import ComponentTags.Proofs.Disk.Traces
import ComponentTags.Proofs.Artifact.Messages
import ComponentTags.Proofs.Element.TypeArguments
import ComponentTags.Proofs.Element.RegularExpressions
import ComponentTags.Proofs.Path.NormalPaths
import ComponentTags.Proofs.Bytewise.Calls
import ComponentTags.Proofs.Build.Wakeups
