import ComponentTags.Url.Percent
import ComponentTags.Path

/-!
Query strings as forms: pairs of a name and a value, joined by `=` and separated by `&`. A blank is
written as `+`, and all but letters, digits and four marks is percent-encoded.
-/

namespace ComponentTags.Url

def isFormByte (byte : UInt8) : Bool :=
  let n := byte.toNat
  (0x30 ≤ n && n ≤ 0x39) || (0x41 ≤ n && n ≤ 0x5a) || (0x61 ≤ n && n ≤ 0x7a)
    || n == 0x2a || n == 0x2d || n == 0x2e || n == 0x5f

def formByte (byte : UInt8) : List Char :=
  if byte = 0x20 then ['+']
  else if isFormByte byte then [Char.ofNat byte.toNat]
  else percentByte byte

def formEncode (text : List Char) : List Char :=
  (Utf8.encode text).flatMap formByte

def formPair (name value : List Char) : List Char :=
  formEncode name ++ '=' :: formEncode value

def appendPair (query : List Char) (name value : List Char) : List Char :=
  (if query.isEmpty then [] else query ++ ['&']) ++ formPair name value

def formDecode (text : List Char) : List Char :=
  Utf8.decodeLossy (percentDecode (text.map fun ch => if ch = '+' then ' ' else ch))

/-- The pairs of a form, in order. Without a `=` the value is empty; empty parts hold no pair. -/
def formPairs (query : List Char) : List (List Char × List Char) :=
  ((splitChars '&' query).filter (!·.isEmpty)).map fun part =>
    (formDecode (part.takeWhile (· != '=')), formDecode ((part.dropWhile (· != '=')).drop 1))

end ComponentTags.Url
