/-!
Quoted strings as JSON writes them: quotes, backslashes and control characters are escaped, and all
else stands for itself.
-/

namespace ComponentTags.Quoted

def hexDigit (n : Nat) : Char :=
  Nat.digitChar n

def encodeChar (ch : Char) : List Char :=
  if ch = '"' then ['\\', '"']
  else if ch = '\\' then ['\\', '\\']
  else if ch = '\x08' then ['\\', 'b']
  else if ch = '\t' then ['\\', 't']
  else if ch = '\n' then ['\\', 'n']
  else if ch = '\x0c' then ['\\', 'f']
  else if ch = '\r' then ['\\', 'r']
  else if ch.toNat < 0x20 then
    ['\\', 'u', '0', '0', hexDigit (ch.toNat / 16), hexDigit (ch.toNat % 16)]
  else [ch]

def encodeChars (text : List Char) : List Char :=
  '"' :: text.flatMap encodeChar ++ ['"']

def encode (text : String) : String :=
  String.ofList (encodeChars text.toList)

end ComponentTags.Quoted
