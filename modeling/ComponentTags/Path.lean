/-!
Paths as texts. A path keeps the text it was given; its components leave out repeated and trailing
separators and every `.` but a leading one. Normal paths resolve `.` and `..` by the text alone.
-/

namespace ComponentTags

structure Path where
  text : String
deriving DecidableEq, Repr, Inhabited, Ord

inductive PathStep where
  | root
  | here
  | parent
  | name (text : String)
deriving DecidableEq, Repr, Inhabited

/-- The parts of a text between separators: one more than there are separators. -/
def splitChars (separator : Char) : List Char → List (List Char)
  | [] => [[]]
  | ch :: rest =>
      match splitChars separator rest with
      | [] => [[]]
      | part :: parts => if ch = separator then [] :: part :: parts else (ch :: part) :: parts

def joinTexts (separator : String) (parts : List String) : String :=
  separator.intercalate parts

namespace PathStep

def ofPart? (part : String) : Option PathStep :=
  if part = "" || part = "." then none
  else if part = ".." then some .parent
  else some (.name part)

def text : PathStep → String
  | root => "/"
  | here => "."
  | parent => ".."
  | name text => text

/-- One more step at the end of normal steps: a `..` takes back a name and otherwise stays. -/
def push (steps : List PathStep) : PathStep → List PathStep
  | here => steps
  | parent =>
      match steps.getLast? with
      | some (name _) => steps.dropLast
      | _ => steps ++ [parent]
  | step => steps ++ [step]

/-- Steps without `.`, and with every `..` resolved that follows a name. -/
def normalize (steps : List PathStep) : List PathStep :=
  steps.foldl push []

end PathStep

namespace Path

def isAbsolute (path : Path) : Bool :=
  path.text.toList.head? == some '/'

def parts (path : Path) : List String :=
  let parts := (splitChars '/' path.text.toList).map String.ofList
  if path.isAbsolute then parts.drop 1 else parts

def steps (path : Path) : List PathStep :=
  if path.isAbsolute then
    .root :: path.parts.filterMap PathStep.ofPart?
  else
    match path.parts with
    | "." :: parts => .here :: parts.filterMap PathStep.ofPart?
    | parts => parts.filterMap PathStep.ofPart?

def join (path other : Path) : Path :=
  if other.isAbsolute || path.text = "" then other
  else if path.text.toList.getLast? = some '/' then ⟨path.text ++ other.text⟩
  else ⟨path.text ++ "/" ++ other.text⟩

instance : HDiv Path String Path where
  hDiv path name := path.join ⟨name⟩

def ofSteps (steps : List PathStep) : Path :=
  steps.foldl (fun path step => path.join ⟨step.text⟩) ⟨""⟩

/-- The path with `.` and `..` resolved as far as the text allows. -/
def normalize (path : Path) : Path :=
  ofSteps (PathStep.normalize path.steps)

def absolutize (base path : Path) : Path :=
  if path.isAbsolute then path.normalize else (base.join path).normalize

/-- The name at the end, unless the path ends in something else. -/
def fileName? (path : Path) : Option String :=
  match path.steps.getLast? with
  | some (.name text) => some text
  | _ => none

/-- The parts without what adds no step at the end. -/
def withoutTrailing (path : Path) (parts : List String) : List String :=
  let trimmed := (parts.reverse.dropWhile fun part => part = "" || part = ".").reverse
  if trimmed.isEmpty && !path.isAbsolute && path.parts.head? = some "." then ["."] else trimmed

def parent? (path : Path) : Option Path :=
  match path.steps.getLast? with
  | none | some .root => none
  | some .here => some ⟨""⟩
  | some _ =>
      let parts := path.withoutTrailing (path.withoutTrailing path.parts).dropLast
      some ⟨(if path.isAbsolute then "/" else "") ++ joinTexts "/" parts⟩

def withFileName (path : Path) (name : String) : Path :=
  match path.fileName?, path.parent? with
  | some _, some parent => parent / name
  | _, _ => path / name

/-- What follows the last dot of the file name; a dot at its front does not count. -/
def extension? (path : Path) : Option String :=
  match path.fileName? with
  | none => none
  | some name =>
      let reversed := name.toList.reverse
      let extension := reversed.takeWhile (· != '.')
      match reversed.drop (extension.length + 1) with
      | [] => none
      | _ :: _ => some (String.ofList extension.reverse)

def stem? (path : Path) : Option String :=
  path.fileName?.map fun name =>
    match path.extension? with
    | none => name
    | some extension => String.ofList (name.toList.take (name.length - extension.length - 1))

def below? (base path : Path) : Option Path :=
  if base.steps.isPrefixOf path.steps then some (ofSteps (path.steps.drop base.steps.length)) else none

/-- The path as a module specifier, which has forward slashes only. -/
def specifier (path : Path) : String :=
  path.text.map fun ch => if ch = '\\' then '/' else ch

end Path

end ComponentTags
