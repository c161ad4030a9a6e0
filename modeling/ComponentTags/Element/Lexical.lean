import ComponentTags.Source.Cursor
import ComponentTags.Text.Ascii

/-!
The character classes of tags, and the parts of code in which no tag can stand: comments and quoted
strings. A length counts characters from the front of the text; it is never more than the text has.
-/

namespace ComponentTags.Lexical

/-- A character that starts a tag name: an ASCII letter, `_`, `$` or anything beyond ASCII. -/
def isNameStart (ch : Char) : Bool :=
  ch.isAlpha || ch == '_' || ch == '$' || !Ascii.isAscii ch

def isNameChar (ch : Char) : Bool :=
  isNameStart ch || ch.isDigit || ch == '-' || ch == '.' || ch == ':'

def isWordChar (ch : Char) : Bool :=
  ch.isAlphanum || ch == '_' || ch == '$' || !Ascii.isAscii ch

def isAttributeNameChar (ch : Char) : Bool :=
  !Ascii.isBlank ch && !(['=', '>', '/', '"', '\'', '{', '}', '<'].contains ch)

def isUnquotedChar (ch : Char) : Bool :=
  !Ascii.isBlank ch && ch != '>' && ch != '"' && ch != '\''

/-- Words of code after which an expression follows. -/
def wordsBeforeExpression : List String :=
  ["return", "yield", "await", "case", "default", "else", "do", "in", "of", "typeof", "void",
    "delete", "throw", "new"]

/--
Whether code that ends with these characters (last one first) goes on with an operand, so that `<`
opens an element and is no comparison.
-/
def operandFollows (before : List Char) : Bool :=
  match before.dropWhile Ascii.isBlank with
  | [] => true
  | ch :: rest =>
      if isWordChar ch then
        wordsBeforeExpression.contains
          (String.ofList ((ch :: rest).takeWhile isWordChar).reverse)
      else
        ch != ')' && ch != ']'

def elementFollows (afterOpen : List Char) : Bool :=
  match afterOpen with
  | [] => false
  | ch :: _ => isNameStart ch || ch == '>'

/--
Whether the text after a `<` reads like the type parameters of a generic arrow function: a word, then
a comma or the word `extends` with a blank behind it.
-/
def typeParametersFollow (afterOpen : List Char) : Bool :=
  match afterOpen.takeWhile isWordChar with
  | [] => false
  | _ :: _ =>
      let next := (afterOpen.dropWhile isWordChar).dropWhile Ascii.isBlank
      next.head? == some ',' ||
        ("extends".toList.isPrefixOf next && (next.drop 7).head?.any Ascii.isBlank)

/-- The length of a quoted string after its opening quote; a line feed ends it unread. -/
def stringLength (quote : Char) : List Char → Nat
  | [] => 0
  | '\\' :: [] => 1
  | '\\' :: _ :: rest => stringLength quote rest + 2
  | ch :: rest =>
      if ch = '\n' then 0
      else if ch = quote then 1
      else stringLength quote rest + 1

/-- The length of the comment, the quoted string or else the one character at the front of code. -/
def plainLength : List Char → Nat
  | [] => 0
  | '/' :: '/' :: rest => lengthPast ['\n'] rest + 2
  | '/' :: '*' :: rest => lengthPast ['*', '/'] rest + 2
  | '\'' :: rest => stringLength '\'' rest + 1
  | '"' :: rest => stringLength '"' rest + 1
  | _ :: _ => 1

theorem plainLength_pos {text : List Char} (h : text ≠ []) : 0 < plainLength text := by
  fun_cases plainLength text <;> simp_all

end ComponentTags.Lexical
