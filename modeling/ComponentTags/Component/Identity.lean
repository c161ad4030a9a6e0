import ComponentTags.Component.Reference
import ComponentTags.Digest.Sha256
import ComponentTags.Text.Utf8

/-!
The name and the file of a component. Both follow from its reference alone: the name keeps what may
stand in an identifier and ends with a digest of the reference, which tells apart references that
differ in the characters left out.
-/

namespace ComponentTags

/-- The name that modules give a component, and the module that holds it. -/
structure Identity where
  identifier : String
  path : Path
deriving DecidableEq, Repr, Inhabited

def Identity.specifier (identity : Identity) : String :=
  identity.path.specifier

def isIdentifierChar (ch : Char) : Bool :=
  ch.isAlphanum || ch == '_' || ch == '$'

def identifierText (text : String) : String :=
  String.ofList (text.toList.filter isIdentifierChar)

def Reference.digestInput (reference : Reference) : List UInt8 :=
  Utf8.encode reference.tag.toList ++ 0
    :: (Utf8.encode reference.space.toList ++ 0 :: Utf8.encode reference.version.toList)

/-- The first eight hexadecimal digits of the digest of a reference. -/
def Reference.digest (reference : Reference) : String :=
  Sha256.hex ((Sha256.hash reference.digestInput).take 4)

/-- Where component modules go and how their names start. -/
structure Naming where
  directory : Path
  extension : String
  start : String
deriving DecidableEq, Repr, Inhabited

namespace Naming

/-- A naming whose names start with the identifier characters of `start`, and never with a digit. -/
def of (directory : Path) (extension start : String) : Naming :=
  let start := identifierText start
  { directory, extension
    start := if start.toList.head?.any (!·.isDigit) then start else "_" ++ start }

def identity (naming : Naming) (reference : Reference) : Identity :=
  let identifier := naming.start
    ++ identifierText (reference.tag ++ reference.space ++ reference.version)
    ++ "_" ++ reference.digest
  { identifier, path := naming.directory / (identifier ++ "." ++ naming.extension) }

/-- The module of plain code beside a component's own, for code that is compiled already. -/
def companion (naming : Naming) (identity : Identity) : Path :=
  naming.directory / (identity.identifier ++ "CompiledCode.js")

end Naming

end ComponentTags
