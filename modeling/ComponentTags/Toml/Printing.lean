/-!
Writing texts as TOML: in plain quotes where nothing needs an escape, else as they are in single
quotes, and with three quotes where they have several lines.
-/

namespace ComponentTags.Toml

def longestRun (ch : Char) (current : Nat) : List Char → Nat
  | [] => current
  | other :: rest =>
      if other = ch then longestRun ch (current + 1) rest
      else max current (longestRun ch 0 rest)

def needsCode (ch : Char) : Bool :=
  (ch.toNat ≤ 0x1f && ch ≠ '\t' && ch ≠ '\n') || ch.toNat = 0x7f

def fourDigits (n : Nat) : List Char :=
  ['0', '0', (Nat.digitChar (n / 16)).toUpper, (Nat.digitChar (n % 16)).toUpper]

def escapeChar (long : Bool) (ch : Char) : List Char :=
  match ch with
  | '\x08' => ['\\', 'b']
  | '\t' => ['\\', 't']
  | '\n' => if long then ['\n'] else ['\\', 'n']
  | '\x0c' => ['\\', 'f']
  | '\r' => ['\\', 'r']
  | '\\' => ['\\', '\\']
  | ch => if needsCode ch then '\\' :: 'u' :: fourDigits ch.toNat else [ch]

/-- A text with escapes; `quotes` of its last characters were quotes and stand as they are. -/
def escapeChars (long : Bool) (quotes : Nat) : List Char → List Char
  | [] => []
  | ch :: rest =>
      if ch = '"' then
        if quotes < (if long then 2 else 0) then '"' :: escapeChars long (quotes + 1) rest
        else '\\' :: '"' :: escapeChars long 0 rest
      else escapeChar long ch ++ escapeChars long 0 rest

def textChars (text : List Char) : List Char :=
  let hasCodes := text.any needsCode
  let hasBackslash := text.contains '\\'
  let hasLines := text.contains '\n'
  let doubleQuotes := longestRun '"' 0 text
  let singleQuotes := longestRun '\'' 0 text
  let short (content : List Char) := '"' :: content ++ ['"']
  let long (content : List Char) := ['"', '"', '"', '\n'] ++ content ++ ['"', '"', '"']
  if !hasCodes && !hasBackslash && doubleQuotes = 0 && !hasLines then
    short (escapeChars false 0 text)
  else if !hasCodes && singleQuotes = 0 && !hasLines then '\'' :: text ++ ['\'']
  else if !hasCodes && !hasBackslash && doubleQuotes ≤ 2 then long (escapeChars true 0 text)
  else if !hasCodes && singleQuotes ≤ 2 then
    ['\'', '\'', '\'', '\n'] ++ text ++ ['\'', '\'', '\'']
  else if hasLines then long (escapeChars true 0 text)
  else short (escapeChars false 0 text)

def textLine (key text : String) : String :=
  key ++ " = " ++ String.ofList (textChars text.toList)

def numberLine (key : String) (number : Nat) : String :=
  key ++ " = " ++ toString number

end ComponentTags.Toml
