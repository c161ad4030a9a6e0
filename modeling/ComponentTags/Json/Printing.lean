import ComponentTags.Text.Quoted

/-!
Writing JSON documents: every member and every item on a line of its own, two spaces further in than
its container.
-/

namespace ComponentTags.Json

inductive Tree where
  | bool (value : Bool)
  | text (value : String)
  | array (items : List Tree)
  | object (members : List (String × Tree))
deriving Repr, Inhabited

/-- A new line, with two spaces for each container around it. -/
def newLine (depth : Nat) : List Char :=
  '\n' :: List.replicate (2 * depth) ' '

def keyChars (key : String) : List Char :=
  Quoted.encodeChars key.toList ++ [':', ' ']

mutual

def Tree.chars (depth : Nat) : Tree → List Char
  | .bool value => (toString value).toList
  | .text value => Quoted.encodeChars value.toList
  | .array [] => ['[', ']']
  | .array (item :: items) =>
      '[' :: newLine (depth + 1) ++ item.chars (depth + 1) ++ itemChars (depth + 1) items
        ++ newLine depth ++ [']']
  | .object [] => ['\x7b', '\x7d']
  | .object ((key, value) :: members) =>
      '\x7b' :: newLine (depth + 1) ++ keyChars key ++ value.chars (depth + 1)
        ++ memberChars (depth + 1) members ++ newLine depth ++ ['\x7d']

def itemChars (depth : Nat) : List Tree → List Char
  | [] => []
  | item :: items => ',' :: newLine depth ++ item.chars depth ++ itemChars depth items

def memberChars (depth : Nat) : List (String × Tree) → List Char
  | [] => []
  | (key, value) :: members =>
      ',' :: newLine depth ++ keyChars key ++ value.chars depth ++ memberChars depth members

end

def Tree.render (tree : Tree) : String :=
  String.ofList (tree.chars 0)

end ComponentTags.Json
