import ComponentTags.Url.Form
import ComponentTags.Url.Host

/-!
Absolute addresses: their parts, how they are read and how they are written.
-/

namespace ComponentTags

structure Url.Authority where
  user : String
  password : String
  host : String
  port : Option Nat
deriving DecidableEq, Repr, Inhabited

structure Url where
  scheme : String
  authority : Option Url.Authority
  path : String
  query : Option String
  fragment : Option String
deriving DecidableEq, Repr, Inhabited

namespace Url

/-- The schemes whose addresses name a host on the web, with their usual ports. -/
def defaultPort? : String → Option Nat
  | "http" | "ws" => some 80
  | "https" | "wss" => some 443
  | "ftp" => some 21
  | _ => none

/-- Schemes of web addresses, where a backslash is a slash and a host is required but for files. -/
def isSpecialScheme (scheme : String) : Bool :=
  scheme = "file" || (defaultPort? scheme).isSome

def Authority.text (authority : Authority) : String :=
  let secret := if authority.password = "" then "" else ":" ++ authority.password
  let credentials := authority.user ++ secret
  (if credentials = "" then "" else credentials ++ "@") ++ authority.host
    ++ match authority.port with
      | none => ""
      | some port => ":" ++ toString port

def text (url : Url) : String :=
  url.scheme ++ ":"
    ++ (match url.authority with
      | some authority => "//" ++ authority.text
      | none => if "//".toList.isPrefixOf url.path.toList then "/." else "")
    ++ url.path
    ++ (url.query.elim "" ("?" ++ ·))
    ++ (url.fragment.elim "" ("#" ++ ·))

def target (url : Url) : String :=
  url.path ++ url.query.elim "" ("?" ++ ·)

def withPair (url : Url) (name value : String) : Url :=
  { url with
    query := some (String.ofList
      (appendPair (url.query.getD "").toList name.toList value.toList)) }

/-! ### Reading -/

def splitScheme? (text : List Char) : Option (String × List Char) :=
  let isSchemeChar (ch : Char) := ch.isAlphanum || ch == '+' || ch == '-' || ch == '.'
  let scheme := text.takeWhile isSchemeChar
  match scheme.head?.any Char.isAlpha, text.dropWhile isSchemeChar with
  | true, ':' :: rest => some (String.ofList (scheme.map Char.toLower), rest)
  | _, _ => none

def isSeparator (special : Bool) (ch : Char) : Bool :=
  ch == '/' || (special && ch == '\\')

/-- The segments of a path: one more than there are separators. -/
def splitSegments (special : Bool) (path : List Char) : List (List Char) :=
  splitChars '/' (path.map fun ch => if isSeparator special ch then '/' else ch)

/-- Whether a segment means the same as the text of some dots. -/
def isDots (dots : Nat) (segment : List Char) : Bool :=
  let rec undo : List Char → List Char
    | '%' :: '2' :: 'e' :: rest | '%' :: '2' :: 'E' :: rest => '.' :: undo rest
    | ch :: rest => ch :: undo rest
    | [] => []
  undo segment == List.replicate dots '.'

/--
Segments without those of one or two dots: two dots take back the segment before them. At the end of
the path dots leave an empty segment.
-/
def resolveSegments : List (List Char) → List (List Char) → List (List Char)
  | before, [] => before
  | before, segment :: rest =>
      let last := if rest.isEmpty then [[]] else []
      if isDots 2 segment then resolveSegments (before.dropLast ++ last) rest
      else if isDots 1 segment then resolveSegments (before ++ last) rest
      else resolveSegments (before ++ [segment]) rest

def pathText (segments : List (List Char)) : String :=
  String.ofList (segments.flatMap fun segment => '/' :: percentEncode inPath segment)

def readPath (special : Bool) (path : List Char) : String :=
  match path with
  | [] => if special then "/" else ""
  | ch :: rest =>
      pathText (resolveSegments []
        (splitSegments special (if isSeparator special ch then rest else ch :: rest)))

/-- The host and the port of an authority: a colon inside brackets belongs to the host. -/
def splitPort (inBrackets : Bool) : List Char → List Char × Option (List Char)
  | [] => ([], none)
  | ch :: rest =>
      if ch = ':' && !inBrackets then ([], some rest)
      else
        let inBrackets := if ch = '[' then true else if ch = ']' then false else inBrackets
        let (host, port) := splitPort inBrackets rest
        (ch :: host, port)

/-- The port in digits, if it is one; the usual port of the scheme is left out. -/
def readPort? (scheme : String) (digits : List Char) : Option (Option Nat) :=
  if digits.isEmpty then some none
  else if digits.all Char.isDigit then
    match digitsValue? 10 digits with
    | some port =>
        if port < 65536 then some (if defaultPort? scheme = some port then none else some port)
        else none
    | none => none
  else none

def isDrive : List Char → Bool
  | [letter, mark] => letter.isAlpha && (mark = ':' || mark = '|')
  | _ => false

def readFileHost? (text : List Char) : Option Authority :=
  if text.isEmpty || isDrive text then some ⟨"", "", "", none⟩
  else (webHost? text).map fun host => ⟨"", "", String.ofList host, none⟩

def readAuthority? (scheme : String) (text : List Char) : Option Authority := do
  let special := isSpecialScheme scheme
  let parts := splitChars '@' text
  let credentials := ['@'].intercalate parts.dropLast
  let (host, port) := splitPort false (parts.getLast?.getD [])
  if host.isEmpty && (special || port.isSome || parts.length > 1) then none else
  let host ← if host.isEmpty then some [] else if special then webHost? host else plainHost? host
  let port ← readPort? scheme (port.getD [])
  some
    { user := String.ofList (percentEncode inUserInfo (credentials.takeWhile (· != ':')))
      password := String.ofList
        (percentEncode inUserInfo ((credentials.dropWhile (· != ':')).drop 1))
      host := String.ofList host
      port := port }

def splitTail (special : Bool) (text : List Char) : List Char × Option String × Option String :=
  let front := text.takeWhile (· != '#')
  let fragment := match text.dropWhile (· != '#') with
    | [] => none
    | _ :: rest => some (String.ofList (percentEncode inFragment rest))
  let query := match front.dropWhile (· != '?') with
    | [] => none
    | _ :: rest =>
        some (String.ofList (percentEncode (if special then inWebQuery else inQuery) rest))
  (front.takeWhile (· != '?'), query, fragment)

/-- The text without control characters and blanks at its ends, and without tabs and line breaks. -/
def cleaned (text : List Char) : List Char :=
  let outside (ch : Char) := ch.toNat ≤ 0x20
  (((text.dropWhile outside).reverse.dropWhile outside).reverse).filter
    fun ch => ch != '\t' && ch != '\n' && ch != '\r'

def parse? (text : String) : Option Url := do
  let (scheme, rest) ← splitScheme? (cleaned text.toList)
  let special := isSpecialScheme scheme
  let (front, query, fragment) := splitTail special rest
  let afterSlashes := front.dropWhile (isSeparator special)
  let slashes := front.length - afterSlashes.length
  if special && scheme ≠ "file" || slashes ≥ 2 then
    let start := if special && scheme ≠ "file" then afterSlashes else front.drop 2
    let text := start.takeWhile (!isSeparator special ·)
    let authority ← if scheme = "file" then readFileHost? text else readAuthority? scheme text
    some
      { scheme, query, fragment
        authority := some authority
        path := readPath special (start.dropWhile (!isSeparator special ·)) }
  else if special || slashes = 1 then
    some
      { scheme, query, fragment
        authority := if special then some ⟨"", "", "", none⟩ else none
        path := readPath special front }
  else
    some
      { scheme, query, fragment
        authority := none
        path := String.ofList (percentEncode (fun _ => false) front) }

end Url

end ComponentTags
