import ComponentTags.Json.Reading
import ComponentTags.Text.Quoted
import ComponentTags.Text.Utf8

/-!
What the parts of a document stand for. A text must be sound: whole UTF-8, and escapes in pairs where
they name one half of a character. A number must be in the range of double precision. A record is
spelled as an object or as the array of its fields.
-/

namespace ComponentTags.Json

def hexValue (digits : List UInt8) : Nat :=
  digits.foldl
    (fun n digit =>
      let ch := (sign digit).toLower
      16 * n + if ch.isDigit then ch.toNat - '0'.toNat else ch.toNat - 'a'.toNat + 10)
    0

def shortEscape (escape : UInt8) : UInt8 :=
  match sign escape with
  | 'b' => 8
  | 't' => 9
  | 'n' => 10
  | 'f' => 12
  | 'r' => 13
  | _ => escape

/-- The first half of a character that takes two escapes. -/
def isHighHalf (code : Nat) : Bool :=
  0xd800 ≤ code && code < 0xdc00

/-- The second half of a character that takes two escapes. -/
def isLowHalf (code : Nat) : Bool :=
  0xdc00 ≤ code && code < 0xe000

def joinHalves (high low : Nat) : Char :=
  Char.ofNat (0x10000 + (high - 0xd800) * 0x400 + (low - 0xdc00))

/-- The number that four digits spell, and the bytes after them. -/
def readCode : List UInt8 → Option (Nat × List UInt8)
  | a :: b :: c :: d :: rest => some (hexValue [a, b, c, d], rest)
  | _ => none

def readLowHalf : List UInt8 → Except Problem (Nat × List UInt8)
  | slash :: escape :: rest =>
      match readCode rest with
      | none => .error .openEscape
      | some (low, rest) =>
          if sign slash = '\\' && sign escape = 'u' then
            if isLowHalf low then .ok (low, rest) else .error .loneSurrogate
          else .error .openEscape
  | _ => .error .openEscape

/-- Reads an escape after its backslash: the bytes that it stands for, and those after it. -/
def readEscape : List UInt8 → Except Problem (List UInt8 × List UInt8)
  | [] => .error .badEscape
  | escape :: rest =>
      if sign escape = 'u' then
        match readCode rest with
        | none => .error .badEscape
        | some (code, rest) =>
            if isLowHalf code then .error .loneSurrogate
            else if isHighHalf code then
              match readLowHalf rest with
              | .error problem => .error problem
              | .ok (low, rest) => .ok (Utf8.encode [joinHalves code low], rest)
            else .ok (Utf8.encode [Char.ofNat code], rest)
      else .ok ([shortEscape escape], rest)

theorem length_lt_of_readCode {bytes rest : List UInt8} {code : Nat}
    (h : readCode bytes = some (code, rest)) : rest.length < bytes.length := by
  revert h
  fun_cases readCode bytes <;> grind

theorem length_lt_of_readLowHalf {bytes rest : List UInt8} {low : Nat}
    (h : readLowHalf bytes = .ok (low, rest)) : rest.length < bytes.length := by
  revert h
  fun_cases readLowHalf bytes <;> grind [→ length_lt_of_readCode]

theorem length_lt_of_readEscape {bytes found rest : List UInt8}
    (h : readEscape bytes = .ok (found, rest)) : rest.length < bytes.length := by
  revert h
  fun_cases readEscape bytes <;> grind [→ length_lt_of_readCode, → length_lt_of_readLowHalf]

def unescape : List UInt8 → Except Problem (List UInt8)
  | [] => .ok []
  | byte :: rest =>
      if sign byte = '\\' then
        match h : readEscape rest with
        | .error problem => .error problem
        | .ok (found, after) =>
            have := length_lt_of_readEscape h
            (unescape after).map (found ++ ·)
      else (unescape rest).map (byte :: ·)
termination_by bytes => bytes.length

def RawText.decode (raw : RawText) : Except Fault String :=
  match unescape raw.bytes with
  | .error problem => .error ⟨problem, raw.extent.stop⟩
  | .ok bytes =>
      match Utf8.decode? bytes with
      | none => .error ⟨.badCharacter, raw.extent.stop⟩
      | some text => .ok (String.ofList text)

/-! ### Numbers -/

/--
A whole number at double precision: the nearest one of 53 significant bits, and of two as near the
even one.
-/
def nearestDouble (n : Nat) : Nat :=
  let unit := Nat.pow 2 (n.log2 + 1 - 53)
  let units := n / unit
  let rest := n % unit
  (if 2 * rest > unit || (2 * rest = unit && units % 2 = 1) then units + 1 else units) * unit

def digitsNumber (digits : List Char) : Nat :=
  digits.foldl (fun n digit => 10 * n + (digit.toNat - '0'.toNat)) 0

/-- The longest front of the digits that fits into 64 bits, and how many digits it has. -/
def leadingDigits (value used : Nat) : List Char → Nat × Nat
  | [] => (value, used)
  | digit :: digits =>
      let longer := 10 * value + (digit.toNat - '0'.toNat)
      if longer < Nat.pow 2 64 then leadingDigits longer (used + 1) digits else (value, used)

def exponentNumber : List Char → Int
  | _ :: '-' :: digits => -digitsNumber digits
  | _ :: '+' :: digits => digitsNumber digits
  | _ :: digits => digitsNumber digits
  | [] => 0

/-- Whether a number lies beyond double precision, as it is computed from its leading digits. -/
def isOutOfRange (number : List UInt8) : Bool :=
  let text := (number.map sign).dropWhile (· = '-')
  let whole := text.takeWhile Char.isDigit
  let tail := text.dropWhile Char.isDigit
  let fraction := if tail.head? = some '.' then (tail.drop 1).takeWhile Char.isDigit else []
  let exponent := exponentNumber (tail.dropWhile fun ch => ch ≠ 'e' && ch ≠ 'E')
  let (value, used) := leadingDigits 0 0 (whole ++ fraction)
  let scale := exponent + whole.length - used
  value ≠ 0 && 0 ≤ scale
    && (308 < scale
      || Nat.pow 2 1024 ≤ nearestDouble (nearestDouble value * nearestDouble (Nat.pow 10 scale.toNat)))

/-! ### Whole values -/

mutual

/-- Checks all texts and numbers of a value, and that containers nest at most `depth` deep. -/
def Value.check (depth : Nat) : Value → Except Fault Unit
  | .null _ | .bool _ _ => .ok ()
  | .number extent digits =>
      if isOutOfRange digits then .error ⟨.outOfRange, extent.stop⟩ else .ok ()
  | .text raw => raw.decode.map fun _ => ()
  | .array extent items =>
      match depth with
      | 0 => .error ⟨.tooDeep, extent.start + 1⟩
      | depth + 1 => Value.checkItems depth items
  | .object extent members =>
      match depth with
      | 0 => .error ⟨.tooDeep, extent.start + 1⟩
      | depth + 1 => Value.checkMembers depth members

def Value.checkItems (depth : Nat) : List Value → Except Fault Unit
  | [] => .ok ()
  | item :: items => do
      item.check depth
      Value.checkItems depth items

def Value.checkMembers (depth : Nat) : List (RawText × Value) → Except Fault Unit
  | [] => .ok ()
  | (key, value) :: members => do
      let _ ← key.decode
      value.check depth
      Value.checkMembers depth members

end

/-- How messages show a value that does not belong where it stands. -/
def Value.description : Value → Except Fault String
  | .null _ => .ok "null"
  | .bool _ value => .ok ("boolean \x60" ++ toString value ++ "\x60")
  | .number _ digits =>
      let text := digits.map sign
      let kind := if text.all fun ch => ch = '-' || ch.isDigit then "integer" else "floating point"
      .ok (kind ++ " \x60" ++ String.ofList text ++ "\x60")
  | .text raw => raw.decode.map fun text => "string " ++ Quoted.encode text
  | .array _ _ => .ok "sequence"
  | .object _ _ => .ok "map"

def Value.mismatch (value : Value) (expected : String) : Fault :=
  match value.description with
  | .error fault => fault
  | .ok found =>
      let offset :=
        match value with
        | .array extent _ | .object extent _ => extent.start
        | _ => value.extent.stop
      ⟨.wrongType found expected, offset⟩

def Value.asText : Value → Except Fault String
  | .text raw => raw.decode
  | value => .error (value.mismatch "a string")

def Value.asBool : Value → Except Fault Bool
  | .bool _ value => .ok value
  | value => .error (value.mismatch "a boolean")

def Value.asItems : Value → Except Fault (List Value)
  | .array _ items => .ok items
  | value => .error (value.mismatch "a sequence")

def Value.asMembers : Value → Except Fault (List (String × Value))
  | .object _ members =>
      members.mapM fun (key, value) => key.decode.map fun name => (name, value)
  | value => .error (value.mismatch "a map")

/-! ### Records -/

structure RecordKind where
  name : String
  fields : List String
deriving DecidableEq, Repr

structure Record where
  kind : RecordKind
  extent : Span
  isNamed : Bool
  found : List (String × Value)

namespace RecordKind

def title (kind : RecordKind) : String :=
  "struct " ++ kind.name

def lengthTitle (kind : RecordKind) : String :=
  let count := kind.fields.length
  kind.title ++ " with " ++ toString count ++ if count = 1 then " element" else " elements"

def named (kind : RecordKind) (found : List (String × Value)) :
    List (RawText × Value) → Except Fault (List (String × Value))
  | [] => .ok found
  | (key, value) :: members =>
      match key.decode with
      | .error fault => .error fault
      | .ok name =>
          if kind.fields.contains name then
            if found.any (·.1 = name) then .error ⟨.duplicateField name, key.extent.stop⟩
            else kind.named (found ++ [(name, value)]) members
          else kind.named found members

/-- Reads a record from an object or from the array of its fields. -/
def read (kind : RecordKind) : Value → Except Fault Record
  | .object extent members =>
      (kind.named [] members).map fun found => { kind, extent, isNamed := true, found }
  | .array extent items =>
      match items.drop kind.fields.length with
      | [] => .ok { kind, extent, isNamed := false, found := kind.fields.zip items }
      | item :: _ => .error ⟨.trailingText, item.extent.start + 1⟩
  | value => .error (value.mismatch kind.title)

end RecordKind

namespace Record

def field? (record : Record) (name : String) : Option Value :=
  record.found.lookup name

def field (record : Record) (name : String) : Except Fault Value :=
  match record.field? name with
  | some value => .ok value
  | none =>
      let problem :=
        if record.isNamed then Problem.missingField name
        else .wrongLength record.found.length record.kind.lengthTitle
      .error ⟨problem, record.extent.stop⟩

end Record

end ComponentTags.Json
