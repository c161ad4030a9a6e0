import ComponentTags.Source.Cursor

/-!
JSON values as a document spells them: texts and numbers keep their bytes, objects the order of their
members, and everything the place where it stands.
-/

namespace ComponentTags.Json

/-- The bytes between two quotes, escapes and all, and where the text stands with its quotes. -/
structure RawText where
  bytes : List UInt8
  extent : Span
deriving DecidableEq, Repr, Inhabited

/-- A value as it is spelled, with its extent. -/
inductive Value where
  | null (extent : Span)
  | bool (extent : Span) (value : Bool)
  | number (extent : Span) (bytes : List UInt8)
  | text (raw : RawText)
  | array (extent : Span) (items : List Value)
  | object (extent : Span) (members : List (RawText × Value))
deriving Repr, Inhabited

def Value.extent : Value → Span
  | null extent | bool extent _ | number extent _ | array extent _ | object extent _ => extent
  | text raw => raw.extent

inductive Problem where
  | openValue
  | openText
  | openArray
  | openObject
  | noValue
  | badWord
  | badNumber
  | badEscape
  | controlCharacter
  | badKey
  | noColon
  | noItemComma
  | noMemberComma
  | trailingComma
  | trailingText
  | badCharacter
  | loneSurrogate
  | openEscape
  | outOfRange
  | tooDeep
  | missingField (name : String)
  | duplicateField (name : String)
  | wrongType (found expected : String)
  | wrongLength (found : Nat) (expected : String)
deriving DecidableEq, Repr, Inhabited

def Problem.message : Problem → String
  | openValue => "EOF while parsing a value"
  | openText => "EOF while parsing a string"
  | openArray => "EOF while parsing a list"
  | openObject => "EOF while parsing an object"
  | noValue => "expected value"
  | badWord => "expected ident"
  | badNumber => "invalid number"
  | badEscape => "invalid escape"
  | controlCharacter => "control character (\\u0000-\\u001F) found while parsing a string"
  | badKey => "key must be a string"
  | noColon => "expected \x60:\x60"
  | noItemComma => "expected \x60,\x60 or \x60]\x60"
  | noMemberComma => "expected \x60,\x60 or \x60\x7d\x60"
  | trailingComma => "trailing comma"
  | trailingText => "trailing characters"
  | badCharacter => "invalid unicode code point"
  | loneSurrogate => "lone leading surrogate in hex escape"
  | openEscape => "unexpected end of hex escape"
  | outOfRange => "number out of range"
  | tooDeep => "recursion limit exceeded"
  | missingField name => "missing field \x60" ++ name ++ "\x60"
  | duplicateField name => "duplicate field \x60" ++ name ++ "\x60"
  | wrongType found expected => "invalid type: " ++ found ++ ", expected " ++ expected
  | wrongLength found expected =>
      "invalid length " ++ toString found ++ ", expected " ++ expected

structure Fault where
  problem : Problem
  offset : Nat
deriving DecidableEq, Repr, Inhabited

/-- The line of a place after these bytes, counted from one, and the bytes before it on that line. -/
def lineAndColumn (bytes : List UInt8) : Nat × Nat :=
  let feed := '\n'.toUInt8
  (bytes.count feed + 1, (bytes.reverse.takeWhile (· != feed)).length)

def Fault.message (fault : Fault) (document : List UInt8) : String :=
  let (line, column) := lineAndColumn (document.take fault.offset)
  fault.problem.message ++ " at line " ++ toString line ++ " column " ++ toString column

end ComponentTags.Json
