import ComponentTags.Url.Percent
import ComponentTags.Path

/-!
Hosts of addresses: names, whose letters are made small and whose other characters are encoded, and
numeric addresses of both lengths, which have one written form each.
-/

namespace ComponentTags.Url

def isForbiddenInHost (ch : Char) : Bool :=
  ['\x00', '\t', '\n', '\r', ' ', '#', '/', ':', '<', '>', '?', '@', '[', '\\', ']', '^', '|'].contains ch

def isForbiddenInDomain (ch : Char) : Bool :=
  isForbiddenInHost ch || ch.toNat < 0x20 || ch == '%' || ch == '\x7f'

/-! ### Numbers -/

def digitsValue? (base : Nat) (digits : List Char) : Option Nat :=
  digits.foldl (fun value ch => do
    let value ← value
    let digit ← hexValue? ch
    if digit < base then some (value * base + digit) else none) (some 0)

/-- A part of a numeric host: hexadecimal after `0x`, octal after `0`, else decimal. -/
def numericPart? : List Char → Option Nat
  | [] => none
  | '0' :: 'x' :: digits | '0' :: 'X' :: digits => digitsValue? 16 digits
  | '0' :: digits => digitsValue? 8 digits
  | digits => digitsValue? 10 digits

/-- The parts between dots, a final dot left out. -/
def hostParts (host : List Char) : List (List Char) :=
  match (splitChars '.' host).reverse with
  | [] :: part :: parts => (part :: parts).reverse
  | parts => parts.reverse

/-- Whether a host is meant to be numeric: its last part is. -/
def endsInNumber (host : List Char) : Bool :=
  match (hostParts host).getLast? with
  | none => false
  | some part => (!part.isEmpty && part.all Char.isDigit) || (numericPart? part).isSome

/-- The number of a numeric host: every part but the last one is a byte. -/
def ipv4Number? (host : List Char) : Option Nat := do
  let parts ← (hostParts host).mapM numericPart?
  let bytes := parts.dropLast
  let last ← parts.getLast?
  if parts.length ≤ 4 && bytes.all (· < 256) && last < Nat.pow 256 (5 - parts.length) then
    some (bytes.foldl (fun number byte => 256 * number + byte) 0 * Nat.pow 256 (5 - parts.length)
      + last)
  else
    none

def ipv4Text (number : Nat) : List Char :=
  (joinTexts "." ([3, 2, 1, 0].map fun i => toString (number / Nat.pow 256 i % 256))).toList

/-! ### Long numeric hosts -/

def decimalByte? (digits : List Char) : Option Nat :=
  if digits.isEmpty || (digits.length > 1 && digits.head? = some '0') then none
  else if digits.all Char.isDigit then (digitsValue? 10 digits).filter (· < 256)
  else none

def hexPiece? (digits : List Char) : Option Nat :=
  if digits.isEmpty || digits.length > 4 then none else digitsValue? 16 digits

/-- The pieces of a text between colons; the last text may be four bytes, which make two pieces. -/
def ipv6Pieces? (text : List Char) : Option (List Nat) :=
  if text.isEmpty then some []
  else
    let parts := splitChars ':' text
    let last := parts.getLast?.getD []
    if last.contains '.' then do
      let pieces ← parts.dropLast.mapM hexPiece?
      match ← (splitChars '.' last).mapM decimalByte? with
      | [a, b, c, d] => some (pieces ++ [a * 256 + b, c * 256 + d])
      | _ => none
    else
      parts.mapM hexPiece?

def splitAtGap? : List Char → Option (List Char × List Char)
  | ':' :: ':' :: rest => some ([], rest)
  | ch :: rest => (splitAtGap? rest).map fun (front, back) => (ch :: front, back)
  | [] => none

/-- The eight pieces of a long numeric host; `::` stands for one or more pieces of zero. -/
def ipv6? (text : List Char) : Option (List Nat) :=
  match splitAtGap? text with
  | none => do
      let pieces ← ipv6Pieces? text
      if pieces.length = 8 then some pieces else none
  | some (front, back) => do
      if front.contains '.' then none else
      let front ← ipv6Pieces? front
      let back ← ipv6Pieces? back
      if front.length + back.length < 8 then
        some (front ++ List.replicate (8 - front.length - back.length) 0 ++ back)
      else
        none

def zerosInFront (pieces : List Nat) : Nat :=
  (pieces.takeWhile (· = 0)).length

def longestZeros (pieces : List Nat) : Nat × Nat :=
  ((List.range pieces.length).map fun i => (i, zerosInFront (pieces.drop i))).foldl
    (fun best run => if best.2 < run.2 then run else best) (0, 0)

def hexPieces (pieces : List Nat) : String :=
  joinTexts ":" (pieces.map fun piece => String.ofList (Nat.toDigits 16 piece))

/-- A long numeric host: the longest run of two or more zeros is left out. -/
def ipv6Text (pieces : List Nat) : List Char :=
  let (place, length) := longestZeros pieces
  if length < 2 then (hexPieces pieces).toList
  else
    (hexPieces (pieces.take place) ++ "::" ++ hexPieces (pieces.drop (place + length))).toList

/-! ### Names -/

/-- The thresholds and bias of the encoding of labels beyond ASCII. -/
def labelBias (delta points : Nat) (first : Bool) : Nat :=
  let delta := if first then delta / 700 else delta / 2
  let delta := delta + delta / points
  let rec reduce (delta k : Nat) : Nat :=
    if 455 < delta then reduce (delta / 35) (k + 36) else k + 36 * delta / (delta + 38)
  termination_by delta
  decreasing_by exact Nat.div_lt_self (by omega) (by omega)
  reduce delta 0

def labelDigit (n : Nat) : Char :=
  if n < 26 then Char.ofNat (0x61 + n) else Char.ofNat (0x30 + n - 26)

def labelNumber (bias k q : Nat) : List Char :=
  let threshold := if k ≤ bias then 1 else if bias + 26 ≤ k then 26 else k - bias
  if q < threshold then [labelDigit q]
  else
    labelDigit (threshold + (q - threshold) % (36 - threshold))
      :: labelNumber bias (k + 36) ((q - threshold) / (36 - threshold))
termination_by q
decreasing_by
  have below : threshold ≤ 26 := by grind
  have above : 1 ≤ threshold := by grind
  exact Nat.lt_of_le_of_lt (Nat.div_le_self _ _) (by omega)

structure LabelState where
  out : List Char
  delta : Nat
  bias : Nat
  handled : Nat

def LabelState.visit (basic m : Nat) (state : LabelState) (ch : Char) : LabelState :=
  if ch.toNat < m then { state with delta := state.delta + 1 }
  else if ch.toNat = m then
    { out := state.out ++ labelNumber state.bias 36 state.delta
      delta := 0
      bias := labelBias state.delta (state.handled + 1) (state.handled == basic)
      handled := state.handled + 1 }
  else state

/-- Inserts the code points beyond ASCII in increasing order, from `n` on. -/
def labelInsertions (label : List Char) (basic : Nat) :
    List Nat → Nat → LabelState → LabelState
  | [], _, state => state
  | m :: points, n, state =>
      let before := { state with delta := state.delta + (m - n) * (state.handled + 1) }
      let after := label.foldl (LabelState.visit basic m) before
      labelInsertions label basic points (m + 1) { after with delta := after.delta + 1 }

def asciiLabel (label : List Char) : List Char :=
  if label.all Ascii.isAscii then label
  else
    let basic := label.filter Ascii.isAscii
    let points := ((label.filter (!Ascii.isAscii ·)).map Char.toNat).mergeSort.eraseDups
    let state := labelInsertions label basic.length points 128
      { out := [], delta := 0, bias := 72, handled := basic.length }
    "xn--".toList ++ basic ++ (if basic.isEmpty then [] else ['-']) ++ state.out

/--
How a character of a host name is read. Letters are made small, in ASCII and in the Latin, Greek and
Cyrillic alphabets; full-width forms stand for ASCII, other full stops for the dot, and invisible
marks for nothing.
-/
def hostChar (ch : Char) : List Char :=
  let n := ch.toNat
  if n < 0x80 then [ch.toLower]
  else if n = 0xad || n = 0x200b || n = 0x2060 || n = 0xfeff then []
  else if n = 0x3002 || n = 0xff0e || n = 0xff61 then ['.']
  else if 0xff01 ≤ n && n ≤ 0xff5e then [(Char.ofNat (n - 0xfee0)).toLower]
  else if (0xc0 ≤ n && n ≤ 0xde && n ≠ 0xd7) || (0x391 ≤ n && n ≤ 0x3ab)
      || (0x410 ≤ n && n ≤ 0x42f) then [Char.ofNat (n + 32)]
  else if 0x400 ≤ n && n ≤ 0x40f then [Char.ofNat (n + 80)]
  else if 0x100 ≤ n && n ≤ 0x137 && n ≠ 0x130 && n % 2 = 0 then [Char.ofNat (n + 1)]
  else [ch]

def webHost? (text : List Char) : Option (List Char) :=
  match text with
  | '[' :: rest =>
      if rest.getLast? = some ']' then
        (ipv6? rest.dropLast).map fun pieces => '[' :: ipv6Text pieces ++ [']']
      else
        none
  | _ =>
      match Utf8.decode? (percentDecode text) with
      | none => none
      | some decoded =>
          let name :=
            ['.'].intercalate ((splitChars '.' (decoded.flatMap hostChar)).map asciiLabel)
          if name.isEmpty || name.any isForbiddenInDomain || decoded.contains '\ufffd' then none
          else if endsInNumber name then (ipv4Number? name).map ipv4Text
          else some name

def plainHost? (text : List Char) : Option (List Char) :=
  match text with
  | '[' :: _ => webHost? text
  | _ => if text.any isForbiddenInHost then none else some (percentEncode (fun _ => false) text)

end ComponentTags.Url
