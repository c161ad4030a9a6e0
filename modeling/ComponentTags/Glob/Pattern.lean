import ComponentTags.Path

/-!
Glob patterns. Between two separators, `?` stands for any character, `*` for any run of them and
brackets for one that they list; `**` alone stands for any number of directories.
-/

namespace ComponentTags.Glob

/-- What stands for one character, or for a run of them. -/
inductive Token where
  | literal (ch : Char)
  | any
  | run
  | within (ranges : List (Char × Char))
  | outside (ranges : List (Char × Char))
deriving DecidableEq, Repr, Inhabited

/-- What stands between two separators. -/
inductive Component where
  | directories
  | name (tokens : List Token)
deriving DecidableEq, Repr, Inhabited

inductive PatternProblem where
  | wildcards
  | recursiveWildcards
  | range
deriving DecidableEq, Repr, Inhabited

def PatternProblem.text : PatternProblem → String
  | wildcards => "wildcards are either regular \x60*\x60 or recursive \x60**\x60"
  | recursiveWildcards => "recursive wildcards must form a single path component"
  | range => "invalid range pattern"

structure PatternFault where
  position : Nat
  problem : PatternProblem
deriving DecidableEq, Repr, Inhabited

def PatternFault.text (fault : PatternFault) : String :=
  "Pattern syntax error near position " ++ toString fault.position ++ ": " ++ fault.problem.text

/-! ### Reading -/

def ranges : List Char → List (Char × Char)
  | first :: '-' :: last :: rest => (first, last) :: ranges rest
  | ch :: rest => (ch, ch) :: ranges rest
  | [] => []

def bracketed? (text : List Char) : Option (List Char × List Char) :=
  match text with
  | [] => none
  | first :: rest =>
      let inner := rest.takeWhile (· ≠ ']')
      match rest.drop inner.length with
      | [] => none
      | _ :: after => some (first :: inner, after)

def readBrackets (text : List Char) : Option (Token × List Char) :=
  match text with
  | '!' :: rest => (bracketed? rest).map fun (inner, after) => (.outside (ranges inner), after)
  | text => (bracketed? text).map fun (inner, after) => (.within (ranges inner), after)

/-- What is wrong with two stars, if anything is: they stand between separators. -/
def starsFault? (before : Option Char) (position : Nat) (after : List Char) :
    Option PatternFault :=
  if before.any (· ≠ '/') then some ⟨position - 1, .recursiveWildcards⟩
  else if after.head?.any (· ≠ '/') then some ⟨position + 2, .recursiveWildcards⟩
  else none

/--
Reads the tokens of a text; `before` is the character in front of it. Two stars are no token, they are
only looked at.
-/
def readTokens (before : Option Char) (position : Nat) (text : List Char) :
    Except PatternFault (List Token) :=
  match text with
  | [] => .ok []
  | ch :: rest =>
      let resume (token : List Token) (after : List Char) : Except PatternFault (List Token) :=
        if _ : after.length ≤ rest.length then do
          let consumed := (ch :: rest).length - after.length
          let tokens ← readTokens ((ch :: rest)[consumed - 1]?) (position + consumed) after
          return token ++ tokens
        else
          .ok []
      match ch with
      | '?' => resume [.any] rest
      | '*' =>
          match rest with
          | '*' :: '*' :: _ => .error ⟨position + 2, .wildcards⟩
          | '*' :: after =>
              match starsFault? before position after with
              | some fault => .error fault
              | none => resume [] after
          | rest => resume [.run] rest
      | '[' =>
          match readBrackets rest with
          | none => .error ⟨position, .range⟩
          | some (token, after) => resume [token] after
      | ch => resume [.literal ch] rest
termination_by text.length
decreasing_by simp; omega

def readComponent (text : List Char) : Except PatternFault Component :=
  match text with
  | ['*', '*'] => .ok .directories
  | text => (readTokens none 0 text).map .name

/-- The components with one for every run of directories. -/
def collapse : List Component → List Component
  | .directories :: .directories :: rest => collapse (.directories :: rest)
  | component :: rest => component :: collapse rest
  | [] => []

/-- A pattern: where it starts, its components, and whether only directories fit it. -/
structure Pattern where
  absolute : Bool
  components : List Component
  directoriesOnly : Bool
deriving DecidableEq, Repr, Inhabited

def Pattern.parse (text : String) : Except PatternFault Pattern := do
  let chars := text.toList
  let _ ← readTokens none 0 chars
  let absolute := chars.head? = some '/'
  let parts := splitChars '/' (if absolute then chars.drop 1 else chars)
  let parts := if parts.getLast? = some [] then parts.dropLast else parts
  return {
    absolute
    components := collapse (← parts.mapM readComponent)
    directoriesOnly := chars.getLast? = some '/' }

def isPattern (text : String) : Bool :=
  text.toList.any fun ch => ch = '*' || ch = '?' || ch = '['

/-! ### Matching -/

def inRanges (ranges : List (Char × Char)) (ch : Char) : Bool :=
  ranges.any fun (first, last) => first ≤ ch && ch ≤ last

def Token.admits (ch : Char) : Token → Bool
  | literal other => ch = other
  | any | run => true
  | within ranges => inRanges ranges ch
  | outside ranges => !inRanges ranges ch

def fits : List Token → List Char → Bool
  | [], name => name.isEmpty
  | .run :: tokens, [] => fits tokens []
  | .run :: tokens, ch :: name => fits tokens (ch :: name) || fits (.run :: tokens) name
  | _ :: _, [] => false
  | token :: tokens, ch :: name => token.admits ch && fits tokens name
termination_by tokens name => tokens.length + name.length

def Token.literal? : Token → Option Char
  | literal ch => some ch
  | _ => none

def Component.literal? : Component → Option String
  | directories => none
  | name tokens => (tokens.mapM Token.literal?).map String.ofList

end ComponentTags.Glob
