import ComponentTags.Path
import ComponentTags.Text.Ascii

/-!
The two kinds of sources: modules of code with JSX, and single-file components of Vue.
-/

namespace ComponentTags

/-- What a source is written in. -/
inductive Dialect where
  | jsx
  | vue
deriving DecidableEq, Repr, Inhabited

namespace Dialect

def ofExtension? : String → Option Dialect
  | "js" | "jsx" | "ts" | "tsx" | "mjs" | "cjs" | "mts" | "cts" => some jsx
  | "vue" => some vue
  | _ => none

def ofPath? (path : Path) : Option Dialect :=
  path.extension?.bind ofExtension?

def ofName? (name : String) : Option Dialect :=
  match Ascii.lower name with
  | "jsx" | "js" | "react" => some jsx
  | "vue" => some vue
  | _ => none

def text : Dialect → String
  | jsx => "jsx"
  | vue => "vue"

def artifactExtension : Dialect → String
  | jsx => "js"
  | vue => "vue"

end Dialect

end ComponentTags
