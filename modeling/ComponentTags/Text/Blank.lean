/-!
White space as Unicode has it, and texts without it at their ends.
-/

namespace ComponentTags

/-- A character of the Unicode property `White_Space`. -/
def isBlank (ch : Char) : Bool :=
  let n := ch.toNat
  (9 ≤ n && n ≤ 13) || n == 0x20 || n == 0x85 || n == 0xa0 || n == 0x1680
    || (0x2000 ≤ n && n ≤ 0x200a) || n == 0x2028 || n == 0x2029 || n == 0x202f || n == 0x205f
    || n == 0x3000

def trimFrontChars (text : List Char) : List Char :=
  text.dropWhile isBlank

def trimChars (text : List Char) : List Char :=
  ((trimFrontChars text).reverse.dropWhile isBlank).reverse

def trimBlanks (text : String) : String :=
  String.ofList (trimChars text.toList)

def isBlankText (text : String) : Bool :=
  text.toList.all isBlank

end ComponentTags
