/-!
The smallest parts of TOML documents: blanks, comments, line ends and texts. Every reader of a part
gives the rest of the document, and is used only if that is shorter than where it started.
-/

namespace ComponentTags.Toml

/-- What is read from `text` on, and the rest, which is shorter. -/
abbrev Reading (text : List Char) (α : Type) :=
  Option { r : α × List Char // r.2.length < text.length }

def Reading.of {α : Type} (text : List Char) (reading : Option (α × List Char)) :
    Reading text α :=
  match reading with
  | none => none
  | some r => if h : r.2.length < text.length then some ⟨r, h⟩ else none

def isBlank (ch : Char) : Bool :=
  ch = ' ' || ch = '\t'

def skipBlanks (text : List Char) : List Char :=
  text.dropWhile isBlank

def isPrintable (ch : Char) : Bool :=
  ch = '\t' || (0x20 ≤ ch.toNat && ch.toNat ≠ 0x7f)

def skipComment (text : List Char) : List Char :=
  match skipBlanks text with
  | '#' :: rest => rest.dropWhile isPrintable
  | rest => rest

def afterLineEnd? : List Char → Option (List Char)
  | '\n' :: rest => some rest
  | '\r' :: '\n' :: rest => some rest
  | _ => none

def afterLine? (text : List Char) : Option (List Char) :=
  match skipComment text with
  | [] => some []
  | rest => afterLineEnd? rest

def skipGap (text : List Char) : List Char :=
  let rest := skipComment text
  match afterLineEnd? rest with
  | none => rest
  | some next => if next.length < text.length then skipGap next else rest
termination_by text.length

/-! ### Texts -/

def hexNumber? (digits : List Char) : Option Nat :=
  digits.foldl
    (fun number ch => do
      let number ← number
      let ch := ch.toLower
      if ch.isDigit then some (16 * number + (ch.toNat - '0'.toNat))
      else if 'a' ≤ ch && ch ≤ 'f' then some (16 * number + (ch.toNat - 'a'.toNat + 10))
      else none)
    (some 0)

def codeEscape? (digits : Nat) (text : List Char) : Option (List Char × List Char) := do
  if text.length < digits then none
  else
    let code ← hexNumber? (text.take digits)
    if code.isValidChar then some ([Char.ofNat code], text.drop digits) else none

/-- What an escape stands for; the backslash was read. In long texts one may hide line ends. -/
def escape? (long : Bool) (text : List Char) : Option (List Char × List Char) :=
  match text with
  | 'b' :: rest => some (['\x08'], rest)
  | 't' :: rest => some (['\t'], rest)
  | 'n' :: rest => some (['\n'], rest)
  | 'f' :: rest => some (['\x0c'], rest)
  | 'r' :: rest => some (['\r'], rest)
  | 'e' :: rest => some (['\x1b'], rest)
  | '"' :: rest => some (['"'], rest)
  | '\\' :: rest => some (['\\'], rest)
  | 'x' :: rest => codeEscape? 2 rest
  | 'u' :: rest => codeEscape? 4 rest
  | 'U' :: rest => codeEscape? 8 rest
  | rest =>
      if long then
        (afterLineEnd? (skipBlanks rest)).map fun rest =>
          ([], rest.dropWhile fun ch => isBlank ch || ch = '\n' || ch = '\r')
      else
        none

def readPiece (quote : Char) (long : Bool) (text : List Char) : Option (List Char × List Char) :=
  match text with
  | [] => none
  | ch :: rest =>
      if ch = '\\' && quote = '"' then escape? long rest
      else if isPrintable ch then some ([ch], rest)
      else if long then (afterLineEnd? text).map fun rest => (['\n'], rest)
      else none

/-- What follows a closing quote in front, and the quotes before it that count as text. -/
def closing? (quote : Char) (long : Bool) (text : List Char) : Option (List Char × List Char) :=
  let quotes := min 5 (text.takeWhile (· = quote)).length
  if long then
    if quotes < 3 then none else some (List.replicate (quotes - 3) quote, text.drop quotes)
  else if quotes = 0 then none
  else some ([], text.drop 1)

/-- Reads a text up to its closing quote, or up to three of them if it is a long one. -/
def readQuoted (quote : Char) (long : Bool) (text : List Char) : Option (List Char × List Char) :=
  match closing? quote long text with
  | some closed => some closed
  | none =>
      match Reading.of text (readPiece quote long text) with
      | none => none
      | some ⟨(front, rest), _⟩ =>
          (readQuoted quote long rest).map fun (content, rest) => (front ++ content, rest)
termination_by text.length

/-- Reads a text in quotes of either kind; a line end right after three quotes does not count. -/
def readText (text : List Char) : Option (String × List Char) :=
  match text with
  | quote :: rest =>
      if quote = '"' || quote = '\'' then
        let long := [quote, quote].isPrefixOf rest
        let start := if long then rest.drop 2 else rest
        let start := if long then (afterLineEnd? start).getD start else start
        (readQuoted quote long start).map fun (content, rest) => (String.ofList content, rest)
      else
        none
  | [] => none

/-! ### Keys -/

def isKeyChar (ch : Char) : Bool :=
  ch.isAlphanum || ch = '_' || ch = '-'

def readKeyPart (text : List Char) : Option (String × List Char) :=
  match text with
  | ch :: rest =>
      if ch = '"' || ch = '\'' then
        (readQuoted ch false rest).map fun (content, rest) => (String.ofList content, rest)
      else
        let part := text.takeWhile isKeyChar
        if part.isEmpty then none else some (String.ofList part, text.drop part.length)
  | [] => none

def readKey (text : List Char) : Option (List String × List Char) :=
  match Reading.of text (readKeyPart text) with
  | none => none
  | some ⟨(part, rest), _⟩ =>
      match skipBlanks rest with
      | '.' :: next =>
          if (skipBlanks next).length < text.length then
            (readKey (skipBlanks next)).map fun (parts, rest) => (part :: parts, rest)
          else
            none
      | rest => some ([part], rest)
termination_by text.length

/-! ### Numbers, dates and times -/

def groupedDigits? (isDigit : Char → Bool) (text : List Char) : Option (List Char) :=
  let digits := text.filter (· ≠ '_')
  let isGrouped (before after : Char) : Bool := !(before = '_' && after = '_')
  if !digits.isEmpty && digits.all isDigit && text.head? ≠ some '_' && text.getLast? ≠ some '_'
      && (text.zip (text.drop 1)).all fun (before, after) => isGrouped before after then
    some digits
  else
    none

def numberOf (base : Nat) (digits : List Char) : Nat :=
  digits.foldl
    (fun number ch =>
      let ch := ch.toLower
      base * number + if ch.isDigit then ch.toNat - '0'.toNat else ch.toNat - 'a'.toNat + 10)
    0

def wholeNumber? (text : List Char) : Option Nat := do
  let digits ← groupedDigits? Char.isDigit text
  if digits.length > 1 && digits.head? = some '0' then none else some (numberOf 10 digits)

def splitSign : List Char → Bool × List Char
  | '-' :: rest => (true, rest)
  | '+' :: rest => (false, rest)
  | rest => (false, rest)

def integer? (text : List Char) : Option Int :=
  match text with
  | '0' :: 'x' :: digits =>
      (groupedDigits? (fun ch => ch.isDigit || ('a' ≤ ch.toLower && ch.toLower ≤ 'f')) digits).map
        fun digits => numberOf 16 digits
  | '0' :: 'o' :: digits =>
      (groupedDigits? (fun ch => '0' ≤ ch && ch ≤ '7') digits).map fun digits => numberOf 8 digits
  | '0' :: 'b' :: digits =>
      (groupedDigits? (fun ch => ch = '0' || ch = '1') digits).map fun digits => numberOf 2 digits
  | text =>
      let (negative, digits) := splitSign text
      (wholeNumber? digits).map fun number => if negative then -number else number

def isStorable (number : Int) : Bool :=
  -Int.ofNat (Nat.pow 2 127) ≤ number && number < Int.ofNat (Nat.pow 2 128)

/-- Whether a text is a number with a fraction or an exponent, or none at all. -/
def isFloat (text : List Char) : Bool :=
  let (_, text) := splitSign text
  let mantissa := text.takeWhile fun ch => ch ≠ 'e' && ch ≠ 'E'
  let exponent := (text.drop (mantissa.length + 1))
  let whole := mantissa.takeWhile (· ≠ '.')
  let fraction := mantissa.drop (whole.length + 1)
  let hasFraction := whole.length < mantissa.length
  let hasExponent := mantissa.length < text.length
  String.ofList text = "inf" || String.ofList text = "nan"
    || ((hasFraction || hasExponent)
      && (wholeNumber? whole).isSome
      && (!hasFraction || (groupedDigits? Char.isDigit fraction).isSome)
      && (!hasExponent || (groupedDigits? Char.isDigit (splitSign exponent).2).isSome))

def fixedNumber? (count : Nat) (text : List Char) : Option (Nat × List Char) :=
  let digits := text.take count
  if digits.length = count && digits.all Char.isDigit then
    some (numberOf 10 digits, text.drop count)
  else
    none

def monthLength (year month : Nat) : Nat :=
  if month = 2 then
    if year % 4 = 0 && (year % 100 ≠ 0 || year % 400 = 0) then 29 else 28
  else if [4, 6, 9, 11].contains month then 30
  else 31

def afterDate? (text : List Char) : Option (List Char) := do
  match ← fixedNumber? 4 text with
  | (year, '-' :: rest) =>
      match ← fixedNumber? 2 rest with
      | (month, '-' :: rest) =>
          let (day, rest) ← fixedNumber? 2 rest
          if 1 ≤ month && month ≤ 12 && 1 ≤ day && day ≤ monthLength year month then some rest
          else none
      | _ => none
  | _ => none

def afterFraction? : List Char → Option (List Char)
  | '.' :: rest =>
      if (rest.takeWhile Char.isDigit).isEmpty then none else some (rest.dropWhile Char.isDigit)
  | rest => some rest

def afterTime? (text : List Char) : Option (List Char) := do
  match ← fixedNumber? 2 text with
  | (hour, ':' :: rest) =>
      let (minute, rest) ← fixedNumber? 2 rest
      if hour > 23 || minute > 59 then none
      else
        match rest with
        | ':' :: rest =>
            let (second, rest) ← fixedNumber? 2 rest
            if second > 60 then none else afterFraction? rest
        | rest => some rest
  | _ => none

def isOffset : List Char → Bool
  | [] | ['Z'] | ['z'] => true
  | sign :: rest =>
      (sign = '+' || sign = '-')
        && match fixedNumber? 2 rest with
          | some (hour, ':' :: rest) =>
              hour ≤ 23
                && match fixedNumber? 2 rest with
                  | some (minute, []) => minute ≤ 59
                  | _ => false
          | _ => false

/-- Whether a text is a date, a time or both; only both together have an offset. -/
def isDateTime (text : List Char) : Bool :=
  match afterDate? text with
  | some [] => true
  | some (separator :: rest) =>
      (separator = 'T' || separator = 't' || separator = ' ')
        && match afterTime? rest with
          | some offset => isOffset offset
          | none => false
  | none => afterTime? text = some []

def isScalarChar (ch : Char) : Bool :=
  isKeyChar ch || ch = '+' || ch = '.' || ch = ':'

/-- The characters of a scalar in front; a blank may stand between a date and a time. -/
def scalarChars (text : List Char) : List Char :=
  let front := text.takeWhile isScalarChar
  match text.drop front.length with
  | ' ' :: digit :: rest =>
      if afterDate? front = some [] && digit.isDigit then
        front ++ ' ' :: (digit :: rest).takeWhile isScalarChar
      else
        front
  | _ => front

end ComponentTags.Toml
