import ComponentTags.Proofs.Json.Documents

/-!
Grammar. Every text of a JSON document as a tree: the blanks between its parts, the escapes in its
texts, the digits of its numbers. A tree stands for data, in which nothing of the spelling is left but
the digits of numbers.
-/

namespace ComponentTags.Json

/--
What a document stands for. A number keeps its spelling; a text is missing where escapes name one half
of a character only.
-/
inductive Datum where
  | null
  | bool (value : Bool)
  | number (bytes : List UInt8)
  | text (content : Option String)
  | array (items : List Datum)
  | object (members : List (Option String × Datum))

structure Blanks where
  chars : List Char
  areBlank : ∀ ch ∈ chars, ch ∈ [' ', '\t', '\n', '\r']

def Blanks.none : Blanks :=
  ⟨[], List.forall_mem_nil _⟩

/-! ### Numbers -/

structure Digits where
  chars : List Char
  nonempty : chars ≠ []
  areDigits : ∀ ch ∈ chars, ch.isDigit = true

structure Exponent where
  mark : Char
  sign : List Char
  digits : Digits
  isMark : mark = 'e' ∨ mark = 'E'
  isSign : sign = [] ∨ sign = ['+'] ∨ sign = ['-']

/-- A number as it is spelled; a whole part that begins with a zero is one zero. -/
structure Numeral where
  isNegative : Bool
  whole : Digits
  fraction : Option Digits
  exponent : Option Exponent
  isUnpadded : whole.chars.head? = some '0' → whole.chars.length = 1

def Exponent.chars (exponent : Exponent) : List Char :=
  exponent.mark :: (exponent.sign ++ exponent.digits.chars)

namespace Numeral

def signChars (numeral : Numeral) : List Char :=
  if numeral.isNegative then ['-'] else []

def fractionChars (numeral : Numeral) : List Char :=
  numeral.fraction.elim [] ('.' :: ·.chars)

def exponentChars (numeral : Numeral) : List Char :=
  numeral.exponent.elim [] Exponent.chars

def chars (numeral : Numeral) : List Char :=
  numeral.signChars ++ (numeral.whole.chars ++ (numeral.fractionChars ++ numeral.exponentChars))

end Numeral

/-! ### Texts -/

/-- A part of a text: a character as it is, or an escape of one letter or of four digits. -/
inductive Piece where
  | plain (ch : Char) (hquote : ch ≠ '"') (hslash : ch ≠ '\\') (hcontrol : ¬ch.toNat < 0x20)
  | short (letter : Char) (hletter : letter ∈ ['"', '\\', '/', 'b', 'f', 'n', 'r', 't'])
  | code (a b c d : Char) (hdigits : ∀ digit ∈ [a, b, c, d], digit.isHexDigit = true)

/-- A text that is spelled without escapes. -/
def plainPieces (chars : List Char)
    (h : ∀ ch ∈ chars, ch ≠ '"' ∧ ch ≠ '\\' ∧ ¬ch.toNat < 0x20) : List Piece :=
  chars.pmap (fun ch hch => .plain ch hch.1 hch.2.1 hch.2.2) h

/-- The character that an escape of one letter stands for. -/
def shortChar : Char → Char
  | 'b' => '\x08'
  | 'f' => '\x0c'
  | 'n' => '\n'
  | 'r' => '\r'
  | 't' => '\t'
  | letter => letter

def hexDigitNumber (digit : Char) : Nat :=
  if digit.isDigit then digit.toNat - '0'.toNat
  else if 'a' ≤ digit then digit.toNat - 'a'.toNat + 10
  else digit.toNat - 'A'.toNat + 10

/-- The number that the digits of an escape spell. -/
def codeNumber (a b c d : Char) : Nat :=
  [a, b, c, d].foldl (fun n digit => 16 * n + hexDigitNumber digit) 0

def Piece.chars : Piece → List Char
  | plain ch _ _ _ => [ch]
  | short letter _ => ['\\', letter]
  | code a b c d _ => ['\\', 'u', a, b, c, d]

/-- The characters that some pieces stand for: two escapes in a row may be the halves of one. -/
def content? : List Piece → Option (List Char)
  | [] => some []
  | .plain ch _ _ _ :: pieces => (content? pieces).map (ch :: ·)
  | .short letter _ :: pieces => (content? pieces).map (shortChar letter :: ·)
  | .code a b c d _ :: pieces =>
      let code := codeNumber a b c d
      if isLowHalf code then none
      else if isHighHalf code then
        match pieces with
        | .code a b c d _ :: pieces =>
            let low := codeNumber a b c d
            if isLowHalf low then (content? pieces).map (joinHalves code low :: ·) else none
        | _ => none
      else (content? pieces).map (Char.ofNat code :: ·)

def textChars (pieces : List Piece) : List Char :=
  '"' :: (pieces.flatMap Piece.chars ++ ['"'])

def textOf (pieces : List Piece) : Option String :=
  (content? pieces).map String.ofList

/-! ### Values -/

mutual

/-- A value as it is spelled. -/
inductive Spelling where
  | null
  | bool (value : Bool)
  | number (numeral : Numeral)
  | text (pieces : List Piece)
  | array (items : ItemSpellings)
  | object (members : MemberSpellings)

/-- What follows a bracket or an item: the comma stands between the blanks, if there is one. -/
inductive ItemSpellings where
  | close (blanks : Blanks)
  | part (before after : Blanks) (item : Spelling) (items : ItemSpellings)

inductive MemberSpellings where
  | close (blanks : Blanks)
  | part (before after : Blanks) (key : List Piece) (beforeColon afterColon : Blanks)
      (value : Spelling) (members : MemberSpellings)

end

/-- What stands before a part of a series. -/
def leadChars (first : Bool) (before after : Blanks) : List Char :=
  if first then after.chars else before.chars ++ ',' :: after.chars

mutual

def Spelling.chars : Spelling → List Char
  | .null => ['n', 'u', 'l', 'l']
  | .bool value => (toString value).toList
  | .number numeral => numeral.chars
  | .text pieces => textChars pieces
  | .array items => '[' :: items.chars true
  | .object members => '\x7b' :: members.chars true

def ItemSpellings.chars (first : Bool) : ItemSpellings → List Char
  | .close blanks => blanks.chars ++ [']']
  | .part before after item items =>
      leadChars first before after ++ (item.chars ++ items.chars false)

def MemberSpellings.chars (first : Bool) : MemberSpellings → List Char
  | .close blanks => blanks.chars ++ ['\x7d']
  | .part before after key beforeColon afterColon value members =>
      leadChars first before after ++ (textChars key ++ (beforeColon.chars ++
        ':' :: (afterColon.chars ++ (value.chars ++ members.chars false))))

end

mutual

def Spelling.datum : Spelling → Datum
  | .null => .null
  | .bool value => .bool value
  | .number numeral => .number (Utf8.encode numeral.chars)
  | .text pieces => .text (textOf pieces)
  | .array items => .array items.data
  | .object members => .object members.data

def ItemSpellings.data : ItemSpellings → List Datum
  | .close _ => []
  | .part _ _ item items => item.datum :: items.data

def MemberSpellings.data : MemberSpellings → List (Option String × Datum)
  | .close _ => []
  | .part _ _ key _ _ value members => (textOf key, value.datum) :: members.data

end

structure Document where
  before : Blanks
  value : Spelling
  after : Blanks

namespace Document

def chars (document : Document) : List Char :=
  document.before.chars ++ (document.value.chars ++ document.after.chars)

def bytes (document : Document) : List UInt8 :=
  Utf8.encode document.chars

def datum (document : Document) : Datum :=
  document.value.datum

end Document

/-! ### What a value that was read stands for -/

mutual

def Value.datum : Value → Datum
  | .null _ => .null
  | .bool _ value => .bool value
  | .number _ bytes => .number bytes
  | .text raw => .text raw.decode.toOption
  | .array _ items => .array (Value.data items)
  | .object _ members => .object (Value.memberData members)

def Value.data : List Value → List Datum
  | [] => []
  | item :: items => item.datum :: Value.data items

def Value.memberData : List (RawText × Value) → List (Option String × Datum)
  | [] => []
  | (key, value) :: members => (key.decode.toOption, value.datum) :: Value.memberData members

end

theorem Value.data_eq_map (items : List Value) : Value.data items = items.map Value.datum := by
  induction items with
  | nil => rfl
  | cons item items ih => rw [Value.data, ih, List.map_cons]

/-! ### What a printed tree stands for -/

mutual

def Tree.datum : Tree → Datum
  | .bool value => .bool value
  | .text value => .text (some value)
  | .array items => .array (Tree.data items)
  | .object members => .object (Tree.memberData members)

def Tree.data : List Tree → List Datum
  | [] => []
  | item :: items => item.datum :: Tree.data items

def Tree.memberData : List (String × Tree) → List (Option String × Datum)
  | [] => []
  | (key, value) :: members => (some key, value.datum) :: Tree.memberData members

end

theorem Tree.data_eq_map (items : List Tree) : Tree.data items = items.map Tree.datum := by
  induction items with
  | nil => rfl
  | cons item items ih => rw [Tree.data, ih, List.map_cons]

mutual

theorem Spells.datum_eq {value : Value} {tree : Tree} (h : Spells value tree) :
    value.datum = tree.datum := by
  match h with
  | .bool _ _ => rfl
  | .text h => rw [Value.datum, h, Tree.datum, Except.toOption]
  | .array _ h => rw [Value.datum, h.data_eq, Tree.datum]
  | .object _ h => rw [Value.datum, h.memberData_eq, Tree.datum]

theorem SpellItems.data_eq {items : List Value} {trees : List Tree} (h : SpellItems items trees) :
    Value.data items = Tree.data trees := by
  match h with
  | .nil => rfl
  | .cons hitem hitems => rw [Value.data, hitem.datum_eq, hitems.data_eq, Tree.data]

theorem SpellMembers.memberData_eq {members : List (RawText × Value)}
    {trees : List (String × Tree)} (h : SpellMembers members trees) :
    Value.memberData members = Tree.memberData trees := by
  match h with
  | .nil => rfl
  | .cons hkey hvalue hmembers =>
      rw [Value.memberData, hkey, hvalue.datum_eq, hmembers.memberData_eq, Tree.memberData,
        Except.toOption]

end

end ComponentTags.Json
