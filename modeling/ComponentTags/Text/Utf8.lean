/-!
UTF-8. Reading is strict or lenient: a lenient reader puts the replacement character in the place of
each longest run of bytes that begins a character but does not finish it.
-/

namespace ComponentTags.Utf8

def encode (text : List Char) : List UInt8 :=
  text.flatMap String.utf8EncodeChar

/-- What a first byte promises: its own bits, how many bytes follow, and the range of the next one. -/
structure Lead where
  bits : Nat
  following : Nat
  low : Nat
  high : Nat
deriving DecidableEq, Repr

/-- Reads a first byte. The range of the next one rules out overlong forms, surrogates and excess. -/
def lead? (byte : Nat) : Option Lead :=
  if byte < 0x80 then some ⟨byte, 0, 0, 0⟩
  else if byte < 0xc2 then none
  else if byte < 0xe0 then some ⟨byte % 0x20, 1, 0x80, 0xbf⟩
  else if byte < 0xf0 then
    some ⟨byte % 0x10, 2, if byte = 0xe0 then 0xa0 else 0x80, if byte = 0xed then 0x9f else 0xbf⟩
  else if byte < 0xf5 then
    some ⟨byte % 0x08, 3, if byte = 0xf0 then 0x90 else 0x80, if byte = 0xf4 then 0x8f else 0xbf⟩
  else none

/--
Reads the bytes that follow a first one. Gives the code point, or nothing if a byte is missing, and
how many bytes belong together.
-/
def follow (following low high bits read : Nat) (bytes : List UInt8) : Option Nat × Nat :=
  match following, bytes with
  | 0, _ => (some bits, read)
  | _ + 1, [] => (none, read)
  | following + 1, byte :: bytes =>
      if low ≤ byte.toNat && byte.toNat ≤ high then
        follow following 0x80 0xbf (bits * 64 + byte.toNat % 64) (read + 1) bytes
      else
        (none, read)

/-- Reads one character: nothing in the place of a broken one, and how many bytes it took. -/
def readChar (byte : UInt8) (bytes : List UInt8) : Option Char × Nat :=
  match lead? byte.toNat with
  | none => (none, 1)
  | some lead =>
      match follow lead.following lead.low lead.high lead.bits 1 bytes with
      | (code, length) => (code.map Char.ofNat, length)

/-- The characters of some bytes, a broken one as nothing. -/
def readChars : List UInt8 → List (Option Char)
  | [] => []
  | byte :: bytes =>
      (readChar byte bytes).1 :: readChars (bytes.drop ((readChar byte bytes).2 - 1))
termination_by bytes => bytes.length

def decode? (bytes : List UInt8) : Option (List Char) :=
  (readChars bytes).mapM id

def decodeLossy (bytes : List UInt8) : List Char :=
  (readChars bytes).map (·.getD '\ufffd')

end ComponentTags.Utf8
