/-!
Character classes of ASCII, and its case map. Every character beyond ASCII is in none of the classes.
-/

namespace ComponentTags.Ascii

/-- Space, tab, line feed, form feed or carriage return. -/
def isBlank (ch : Char) : Bool :=
  ch == ' ' || ch == '\t' || ch == '\n' || ch == '\x0c' || ch == '\r'

def isAscii (ch : Char) : Bool :=
  ch.toNat < 0x80

def lower (text : String) : String :=
  text.map Char.toLower

end ComponentTags.Ascii
