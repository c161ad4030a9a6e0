/-!
Texts inside markup. The characters that would end an attribute or start a tag, an entity or an
interpolation are written as entities.
-/

namespace ComponentTags.Entity

def attributeChar (ch : Char) : List Char :=
  match ch with
  | '&' => "&amp;".toList
  | '"' => "&quot;".toList
  | '<' => "&lt;".toList
  | '>' => "&gt;".toList
  | ch => [ch]

def attributeText (text : String) : String :=
  String.ofList (text.toList.flatMap attributeChar)

def contentChar (ch : Char) : List Char :=
  match ch with
  | '&' => "&amp;".toList
  | '<' => "&lt;".toList
  | '>' => "&gt;".toList
  | '\x7b' => "&#123;".toList
  | '\x7d' => "&#125;".toList
  | ch => [ch]

def contentText (text : String) : String :=
  String.ofList (text.toList.flatMap contentChar)

end ComponentTags.Entity
