import ComponentTags.Toml.Basic
import ComponentTags.Toml.Lexical

/-!
Reading TOML documents. A table may be opened once by a header; dotted keys open tables of their own,
which only dotted keys of the same table extend, and an inline table is complete where it stands.
-/

namespace ComponentTags.Toml

/-- How a table came to be: by a header, on the way to one, or on the way of a dotted key. -/
inductive Origin where
  | header
  | implied
  | dotted
deriving DecidableEq, Repr

inductive Item where
  | value (value : Value)
  | table (origin : Origin) (members : List (String × Item))
  | tables (elements : List (List (String × Item)))
deriving Inhabited

abbrev Members := List (String × Item)

def setMember (members : Members) (key : String) (item : Item) : Members :=
  if members.any (·.1 = key) then
    members.map fun (name, other) => if name = key then (name, item) else (name, other)
  else
    members ++ [(key, item)]

/--
Changes the table that a path leads to, if it may be reached: dotted keys do not go into tables with a
header, and nothing goes into values.
-/
def changeAt (dotted : Bool) (change : Origin → Members → Option Members) :
    List String → Origin → Members → Option Members
  | [], origin, members => change origin members
  | key :: path, _, members =>
      match members.lookup key with
      | none => do
          let origin := if dotted then Origin.dotted else .implied
          let inner ← changeAt dotted change path origin []
          return setMember members key (.table origin inner)
      | some (.value _) => none
      | some (.tables elements) => do
          let inner ← changeAt dotted change path .header (elements.getLast?.getD [])
          return setMember members key (.tables (elements.dropLast ++ [inner]))
      | some (.table origin inner) =>
          if dotted && origin = .header then none
          else do
            let inner ← changeAt dotted change path origin inner
            return setMember members key (.table origin inner)

def openTable (members : Members) (path : List String) : Option Members :=
  match path.getLast? with
  | none => none
  | some key =>
      changeAt false
        (fun _ members =>
          match members.lookup key with
          | none => some (setMember members key (.table .header []))
          | some (.table .implied inner) => some (setMember members key (.table .header inner))
          | _ => none)
        path.dropLast .header members

def openElement (members : Members) (path : List String) : Option Members :=
  match path.getLast? with
  | none => none
  | some key =>
      changeAt false
        (fun _ members =>
          match members.lookup key with
          | none => some (setMember members key (.tables [[]]))
          | some (.tables elements) => some (setMember members key (.tables (elements ++ [[]])))
          | _ => none)
        path.dropLast .header members

def assign (members : Members) (path : List String) (value : Value) : Option Members :=
  match path.getLast? with
  | none => none
  | some key =>
      changeAt true
        (fun origin members =>
          if (origin = .dotted) = path.dropLast.isEmpty then none
          else if members.any (·.1 = key) then none
          else some (setMember members key (.value value)))
        path.dropLast .header members

def assignUnder (members : Members) (header path : List String) (value : Value) : Option Members :=
  changeAt false (fun _ inner => assign inner path value) header .header members

mutual

def Item.toValue : Item → Value
  | .value value => value
  | .table _ members => .table (membersToValues members)
  | .tables elements => .array (elementsToValues elements)

def membersToValues : List (String × Item) → List (String × Value)
  | [] => []
  | (key, item) :: members => (key, item.toValue) :: membersToValues members

def elementsToValues : List (List (String × Item)) → List Value
  | [] => []
  | members :: elements => .table (membersToValues members) :: elementsToValues elements

end

def readScalar (text : List Char) : Option (Value × List Char) :=
  let front := scalarChars text
  let rest := text.drop front.length
  match String.ofList front with
  | "true" => some (.boolean true, rest)
  | "false" => some (.boolean false, rest)
  | _ =>
      match integer? front with
      | some number => if isStorable number then some (.integer number, rest) else none
      | none =>
          if isFloat front then some (.float, rest)
          else if isDateTime front then some (.dateTime, rest)
          else none

mutual

def readValue (text : List Char) : Option (Value × List Char) :=
  match text with
  | '[' :: rest => (readItems rest).map fun (items, rest) => (.array items, rest)
  | '\x7b' :: rest =>
      (readMembers rest []).map fun (members, rest) => (.table (membersToValues members), rest)
  | text =>
      if text.head? = some '"' || text.head? = some '\'' then
        (readText text).map fun (value, rest) => (.text value, rest)
      else
        readScalar text
termination_by 2 * text.length

/-- Reads the items of an array and its end; the last one may have a comma after it. -/
def readItems (text : List Char) : Option (List Value × List Char) :=
  match skipGap text with
  | ']' :: rest => some ([], rest)
  | start =>
      if _ : start.length ≤ text.length then
        match readValue start with
        | none => none
        | some (item, rest) =>
            match skipGap rest with
            | ']' :: rest => some ([item], rest)
            | ',' :: rest =>
                if rest.length < text.length then
                  (readItems rest).map fun (items, rest) => (item :: items, rest)
                else
                  none
            | _ => none
      else
        none
termination_by 2 * text.length + 1

/-- Reads the members of an inline table and its end; `members` were read before. -/
def readMembers (text : List Char) (members : Members) : Option (Members × List Char) :=
  match skipGap text with
  | '\x7d' :: rest => some (members, rest)
  | start => do
      let (key, rest) ← readKey start
      match skipBlanks rest with
      | '=' :: rest =>
          if _ : (skipBlanks rest).length < text.length then do
            let (value, rest) ← readValue (skipBlanks rest)
            let members ← assign members key value
            match skipGap rest with
            | '\x7d' :: rest => some (members, rest)
            | ',' :: rest =>
                if rest.length < text.length then readMembers rest members else none
            | _ => none
          else
            none
      | _ => none
termination_by 2 * text.length + 1

end

def afterHeader? (close : List Char) (text : List Char) : Option (List Char) :=
  let rest := skipBlanks text
  if close.isPrefixOf rest then afterLine? (rest.drop close.length) else none

/-- Reads the lines of a document; `header` opened the current table. -/
def readLines (members : Members) (header : List String) (text : List Char) : Option Members :=
  let next? (members : Members) (header : List String) (rest : Option (List Char)) :
      Option Members :=
    match rest with
    | none => none
    | some rest => if rest.length < text.length then readLines members header rest else none
  match skipGap text with
  | [] => some members
  | '[' :: '[' :: rest => do
      let (path, rest) ← readKey (skipBlanks rest)
      next? (← openElement members path) path (afterHeader? [']', ']'] rest)
  | '[' :: rest => do
      let (path, rest) ← readKey (skipBlanks rest)
      next? (← openTable members path) path (afterHeader? [']'] rest)
  | start => do
      let (path, rest) ← readKey start
      match skipBlanks rest with
      | '=' :: rest =>
          let (value, rest) ← readValue (skipBlanks rest)
          next? (← assignUnder members header path value) header (afterLine? rest)
      | _ => none
termination_by text.length

def read? (document : String) : Option (List (String × Value)) :=
  let text :=
    match document.toList with
    | '\ufeff' :: rest => rest
    | text => text
  (readLines [] [] text).map membersToValues

end ComponentTags.Toml
