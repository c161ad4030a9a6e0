import ComponentTags.Text.Utf8
import ComponentTags.Text.Ascii

/-!
Percent encoding: a byte is written as `%` and two hexadecimal digits. Which characters are encoded
depends on the part of the address; everything beyond ASCII and every control character is.
-/

namespace ComponentTags.Url

def capitalHexDigit (n : Nat) : Char :=
  if n < 10 then Char.ofNat (0x30 + n) else Char.ofNat (0x41 + n - 10)

def percentByte (byte : UInt8) : List Char :=
  ['%', capitalHexDigit (byte.toNat / 16), capitalHexDigit (byte.toNat % 16)]

def isControlOrBeyond (ch : Char) : Bool :=
  ch.toNat < 0x20 || 0x7e < ch.toNat

def percentEncode (encoded : Char → Bool) (text : List Char) : List Char :=
  text.flatMap fun ch =>
    if isControlOrBeyond ch || encoded ch then (String.utf8EncodeChar ch).flatMap percentByte
    else [ch]

def inFragment (ch : Char) : Bool :=
  [' ', '"', '<', '>', '\x60'].contains ch

def inQuery (ch : Char) : Bool :=
  [' ', '"', '#', '<', '>'].contains ch

def inWebQuery (ch : Char) : Bool :=
  inQuery ch || ch == '\''

def inPath (ch : Char) : Bool :=
  inQuery ch || ['?', '^', '\x60', '\x7b', '\x7d'].contains ch

def inUserInfo (ch : Char) : Bool :=
  inPath ch || ['/', ':', ';', '=', '@', '[', '\\', ']', '|'].contains ch

def hexValue? (ch : Char) : Option Nat :=
  let n := ch.toNat
  if 0x30 ≤ n && n ≤ 0x39 then some (n - 0x30)
  else if 0x41 ≤ n && n ≤ 0x46 then some (n - 0x41 + 10)
  else if 0x61 ≤ n && n ≤ 0x66 then some (n - 0x61 + 10)
  else none

/-- The bytes that a percent-encoded text stands for; a `%` without two digits stands for itself. -/
def percentDecode : List Char → List UInt8
  | '%' :: high :: low :: rest =>
      match hexValue? high, hexValue? low with
      | some h, some l => UInt8.ofNat (h * 16 + l) :: percentDecode rest
      | _, _ => String.utf8EncodeChar '%' ++ percentDecode (high :: low :: rest)
  | ch :: rest => String.utf8EncodeChar ch ++ percentDecode rest
  | [] => []

end ComponentTags.Url
