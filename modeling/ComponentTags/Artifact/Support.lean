import ComponentTags.Component.Dialect
import ComponentTags.Plan.Splice

/-!
The modules that all component modules share: a style, the boundary that shows errors, the rendering
function and, for both dialects, the fallback for tags whose definition cannot be used.
-/

namespace ComponentTags

structure OutputFile where
  path : Path
  content : String
deriving DecidableEq, Repr, Inhabited

def textLines (lines : List String) : String :=
  String.join (lines.map (· ++ "\n"))

def importLine (name : String) (path : Path) : String :=
  Import.text { name, specifier := path.specifier }

def messageStyle : String :=
  "font-size: 12px; color: #f5222d; overflow: hidden"

/-- Where the shared modules go, and the module that renders components. -/
structure Support where
  directory : Path
  renderer : String
deriving DecidableEq, Repr, Inhabited

namespace Support

def style (support : Support) : Path :=
  support.directory / "CloudComponentConst.js"

def errorBoundary (support : Support) : Path :=
  support.directory / "CloudComponentErrorBoundary.js"

def renderFunction (support : Support) : Path :=
  support.directory / "CloudComponentRenderCom.js"

def fallback (support : Support) : Dialect → Path
  | .jsx => support.directory / (fallbackName ++ ".jsx")
  | .vue => support.directory / (fallbackName ++ ".vue")

def styleImport (support : Support) : String :=
  "import \x7b style \x7d from " ++ Quoted.encode support.style.specifier ++ ";"

def styleText : String :=
  textLines
    ["export const style = \x7b",
     "  fontSize: 12,",
     "  color: \"#f5222d\",",
     "  overflow: \"hidden\",",
     "\x7d;"]

def errorBoundaryText (support : Support) : String :=
  textLines
    ["import React from \"react\";",
     support.styleImport,
     "",
     "export default class ErrorBoundary extends React.Component \x7b",
     "  constructor(props) \x7b",
     "    super(props);",
     "    this.state = \x7b error: null \x7d;",
     "  \x7d",
     "",
     "  static getDerivedStateFromError(error) \x7b",
     "    return \x7b error \x7d;",
     "  \x7d",
     "",
     "  render() \x7b",
     "    if (this.state.error) \x7b",
     "      return React.createElement(",
     "        \"div\",",
     "        \x7b style \x7d,",
     "        React.createElement(",
     "          \"div\",",
     "          null,",
     "          \x60Component (namespace = $\x7bthis.props.namespace\x7d, version = "
       ++ "$\x7bthis.props.version\x7d) failed to render.\x60",
     "        ),",
     "        React.createElement(\"div\", null, String(this.state.error))",
     "      );",
     "    \x7d",
     "",
     "    return this.props.children;",
     "  \x7d",
     "\x7d"]

def renderFunctionText (support : Support) : String :=
  textLines
    ["import \x7b render as renderUI \x7d from " ++ Quoted.encode support.renderer ++ ";",
     "",
     "export default function renderCom(json, opts, comDefs) \x7b",
     "  return new Promise((resolve) => \x7b",
     "    resolve(renderUI(json, Object.assign(\x7b env: \x7b\x7d, comDefs \x7d, opts || \x7b\x7d)));",
     "  \x7d);",
     "\x7d"]

def jsxFallbackText (support : Support) : String :=
  textLines
    ["import React from \"react\";",
     support.styleImport,
     "",
     "export default function " ++ fallbackName ++ "(\x7b tagName, defValue \x7d) \x7b",
     "  return (",
     "    <div style=\x7bstyle\x7d>",
     "      \x7b\x60tagName = $\x7btagName\x7d, component namespace or version is not configured "
       ++ "correctly (current: $\x7bdefValue || \"not configured\"\x7d).\x60\x7d",
     "    </div>",
     "  );",
     "\x7d"]

def vueFallbackText : String :=
  textLines
    ["<script setup>",
     "defineProps(\x7b tagName: String, defValue: String \x7d);",
     "</script>",
     "",
     "<template>",
     "  <div style=\"" ++ messageStyle ++ "\">",
     "    tagName = \x7b\x7b tagName \x7d\x7d, component namespace or version is not configured "
       ++ "correctly (current: \x7b\x7b defValue || \"not configured\" \x7d\x7d).",
     "  </div>",
     "</template>"]

def files (support : Support) : List OutputFile :=
  [⟨support.style, styleText⟩,
   ⟨support.errorBoundary, support.errorBoundaryText⟩,
   ⟨support.renderFunction, support.renderFunctionText⟩,
   ⟨support.fallback .jsx, support.jsxFallbackText⟩,
   ⟨support.fallback .vue, vueFallbackText⟩]

end Support

end ComponentTags
