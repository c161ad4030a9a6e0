import ComponentTags.Artifact.Support
import ComponentTags.Component.Payload
import ComponentTags.Plan.Scan
import ComponentTags.Plan.Splice

/-!
The module of a component. The entry of a component that a source uses registers all it depends on
and wraps it in the error boundary; a dependency registers what it needs itself; a component that
cannot be had is a message. Compiled code goes into a companion beside the module.
-/

namespace ComponentTags

/-- A component that a module registers: its key, its name and the module that it comes from. -/
structure Registration where
  key : String
  identifier : String
  specifier : String
deriving DecidableEq, Repr, Inhabited

def Registration.of (reference : Reference) (identity : Identity) : Registration :=
  { key := reference.registryKey, identifier := identity.identifier
    specifier := identity.specifier }

def registryLines (registrations : List Registration) : List String :=
  registrations.map (fun r => Import.text { name := r.identifier, specifier := r.specifier })
    ++ ["", "const comDefs = \x7b\x7d;"]
    ++ registrations.flatMap fun r =>
      ["comDefs[" ++ Quoted.encode r.key ++ "] = \x7b",
       "  runtime: " ++ r.identifier ++ ",",
       "\x7d;"]

/-- A function as the component to render: one without a name gets it, another one is given it. -/
def bindRuntime (runtime : String) : String :=
  let rest := runtime.toList.drop "function".length
  if "function".toList.isPrefixOf runtime.toList && (trimFrontChars rest).head? = some '(' then
    "function RenderCom" ++ String.ofList rest
  else
    "const RenderCom = " ++ runtime ++ ";"

def companionLines (companion : Path) (payload : Payload) : List String :=
  match payload.kind with
  | .source => []
  | .compiled => [importLine "RenderCom" companion]

def runtimeLines (payload : Payload) : List String :=
  match payload.kind with
  | .source => ["", bindRuntime payload.trimmedRuntime]
  | .compiled => []

def jsxEntryText (support : Support) (reference : Reference) (companion : Path) (payload : Payload)
    (registrations : List Registration) : String :=
  textLines (
    ["import React from \"react\";",
     importLine "ErrorBoundary" support.errorBoundary,
     importLine "renderCom" support.renderFunction]
    ++ companionLines companion payload
    ++ registryLines registrations
    ++ [""]
    ++ runtimeLines payload
    ++ ["",
     "export default function () \x7b",
     "  return (",
     "    <ErrorBoundary namespace=\"" ++ Entity.attributeText reference.space
       ++ "\" version=\"" ++ Entity.attributeText reference.version ++ "\">",
     "      <RenderCom",
     "        env=\x7b\x7b",
     "          renderCom: (json, opts) => renderCom(json, opts, comDefs),",
     "        \x7d\x7d",
     "      />",
     "    </ErrorBoundary>",
     "  );",
     "\x7d"])

def vueEntryText (support : Support) (reference : Reference) (companion : Path) (payload : Payload)
    (registrations : List Registration) : String :=
  textLines (
    ["<script>",
     "import React from \"react\";",
     "import \x7b applyPureReactInVue \x7d from \"veaury\";",
     importLine "ErrorBoundary" support.errorBoundary,
     importLine "renderCom" support.renderFunction]
    ++ companionLines companion payload
    ++ registryLines registrations
    ++ ["",
     "if (!window.React) \x7b",
     "  window.React = React;",
     "\x7d"]
    ++ runtimeLines payload
    ++ ["",
     "export default applyPureReactInVue(function () \x7b",
     "  return React.createElement(",
     "    ErrorBoundary,",
     "    \x7b namespace: " ++ Quoted.encode reference.space ++ ", version: "
       ++ Quoted.encode reference.version ++ " \x7d,",
     "    React.createElement(RenderCom, \x7b",
     "      env: \x7b",
     "        renderCom: (json, opts) => renderCom(json, opts, comDefs),",
     "      \x7d,",
     "    \x7d)",
     "  );",
     "\x7d);",
     "</script>"])

def dependencyCode (companion : Path) (payload : Payload) (registrations : List Registration) :
    String :=
  textLines (
    (if registrations.isEmpty then [] else registryLines registrations ++ [""])
    ++ match payload.kind with
      | .source => [payload.trimmedRuntime]
      | .compiled =>
          [importLine "RenderCom" companion,
           "",
           "export default RenderCom;"])

def dependencyText (dialect : Dialect) (companion : Path) (payload : Payload)
    (registrations : List Registration) : String :=
  let code := dependencyCode companion payload registrations
  match dialect with
  | .jsx => code ++ "\n"
  | .vue => "<script>\n" ++ code ++ "</script>\n"

def notFoundMessage (reference : Reference) : String :=
  "Component (tagName = " ++ reference.tag ++ ", namespace = " ++ reference.space
    ++ ", version = " ++ reference.version ++ ") not found."

def errorText (dialect : Dialect) (support : Support) (reference : Reference) : String :=
  let message := notFoundMessage reference
  match dialect with
  | .jsx =>
      textLines
        ["import React from \"react\";",
         support.styleImport,
         "",
         "export default function () \x7b",
         "  return <div style=\x7bstyle\x7d>\x7b " ++ Quoted.encode message ++ " \x7d</div>;",
         "\x7d"]
  | .vue =>
      textLines
        ["<template>",
         "  <div style=\"" ++ messageStyle ++ "\">" ++ Entity.contentText message ++ "</div>",
         "</template>"]

/-! ### Files -/

/-- What component modules are made with: the dialect, the shared modules and the names. -/
structure Workshop where
  dialect : Dialect
  support : Support
  naming : Naming
deriving DecidableEq, Repr, Inhabited

namespace Workshop

def of (dialect : Dialect) (directory : Path) (renderer start : String) : Workshop :=
  { dialect
    support := { directory, renderer }
    naming := .of (directory / "com") dialect.artifactExtension start }

def fallbackSpecifier (workshop : Workshop) : String :=
  (workshop.support.fallback workshop.dialect).specifier

def companionFiles (workshop : Workshop) (identity : Identity) (payload : Payload) :
    List OutputFile :=
  match payload.kind with
  | .source => []
  | .compiled => [⟨workshop.naming.companion identity, payload.runtime⟩]

def registration (workshop : Workshop) (reference : Reference) : Registration :=
  .of reference (workshop.naming.identity reference)

/-- The files of a component that a source uses; `closure` is all it depends on. -/
def entryFiles (workshop : Workshop) (reference : Reference) (payload : Payload)
    (closure : List Registration) : List OutputFile :=
  let identity := workshop.naming.identity reference
  let companion := workshop.naming.companion identity
  let text :=
    match workshop.dialect with
    | .jsx => jsxEntryText workshop.support reference companion payload closure
    | .vue => vueEntryText workshop.support reference companion payload closure
  ⟨identity.path, text⟩ :: workshop.companionFiles identity payload

def dependencyFiles (workshop : Workshop) (reference : Reference) (payload : Payload)
    (needed : List Registration) : List OutputFile :=
  let identity := workshop.naming.identity reference
  let companion := workshop.naming.companion identity
  ⟨identity.path, dependencyText workshop.dialect companion payload needed⟩
    :: workshop.companionFiles identity payload

def errorFile (workshop : Workshop) (reference : Reference) : OutputFile :=
  ⟨(workshop.naming.identity reference).path,
    errorText workshop.dialect workshop.support reference⟩

def setting (workshop : Workshop) (registry : TagRegistry) : Setting :=
  { registry, naming := workshop.naming, fallbackSpecifier := workshop.fallbackSpecifier }

end Workshop

end ComponentTags
