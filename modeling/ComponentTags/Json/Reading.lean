import ComponentTags.Json.Basic

/-!
Reading JSON documents. What is read is only the grammar; what texts and numbers stand for is left
open. Each reader says in its type that it consumes something, which is why the recursion ends.
-/

namespace ComponentTags.Json

/-- A place in a document: the bytes that are left, and how many were read. -/
structure Place where
  rest : List UInt8
  offset : Nat
deriving DecidableEq, Repr, Inhabited

/-- The character that a byte stands for if it is one of ASCII. -/
def sign (byte : UInt8) : Char :=
  Char.ofNat byte.toNat

def isBlank (byte : UInt8) : Bool :=
  [' ', '\t', '\n', '\r'].contains (sign byte)

namespace Place

def left (p : Place) : Nat :=
  p.rest.length

def drop (n : Nat) (p : Place) : Place :=
  { rest := p.rest.drop n, offset := p.offset + n }

def skipWhile (accept : UInt8 → Bool) (p : Place) : Place :=
  p.drop (p.rest.takeWhile accept).length

def skipBlanks (p : Place) : Place :=
  p.skipWhile isBlank

def next? (p : Place) : Option Char :=
  p.rest.head?.map sign

def fault (p : Place) (problem : Problem) : Fault :=
  ⟨problem, p.offset⟩

/-- A fault that lies in the next byte, if there is one. -/
def faultAhead (p : Place) (problem : Problem) : Fault :=
  ⟨problem, if p.rest.isEmpty then p.offset else p.offset + 1⟩

def upTo (p q : Place) : Span :=
  ⟨p.offset, q.offset⟩

@[simp]
theorem left_drop (n : Nat) (p : Place) : (p.drop n).left = p.left - n := by
  simp [left, drop]

theorem left_skipWhile_le (accept : UInt8 → Bool) (p : Place) :
    (p.skipWhile accept).left ≤ p.left := by
  simp [skipWhile]

theorem left_skipBlanks_le (p : Place) : p.skipBlanks.left ≤ p.left :=
  left_skipWhile_le _ p

theorem left_pos_of_next? {p : Place} {ch : Char} (h : p.next? = some ch) : 0 < p.left := by
  cases hr : p.rest <;> simp_all [next?, left]

end Place

/-- What is read from `p` on, which is at least one byte. -/
abbrev Past (p : Place) (α : Type) :=
  { r : α × Place // r.2.left < p.left }

namespace Past

@[inline]
def map {p : Place} {α β : Type} (f : α → β) (r : Past p α) : Past p β :=
  ⟨(f r.val.1, r.val.2), r.property⟩

@[inline]
def since {p q : Place} {α : Type} (r : Past q α) (h : q.left ≤ p.left := by omega) : Past p α :=
  ⟨r.val, Nat.lt_of_lt_of_le r.property h⟩

end Past

/-- Reads the rest of a text up to its closing quote; `done` was read before, last byte first. -/
def scanText (done : List UInt8) (offset : Nat) : List UInt8 → Except Fault (List UInt8 × Place)
  | [] => .error ⟨.openText, offset⟩
  | byte :: rest =>
      if sign byte = '"' then .ok (done.reverse, ⟨rest, offset + 1⟩)
      else if sign byte = '\\' then
        match rest with
        | [] => .error ⟨.openText, offset + 1⟩
        | escape :: rest =>
            if sign escape = 'u' then
              match rest with
              | a :: b :: c :: d :: rest =>
                  if [a, b, c, d].all fun digit => (sign digit).isHexDigit then
                    scanText (d :: c :: b :: a :: escape :: byte :: done) (offset + 6) rest
                  else
                    .error ⟨.badEscape, offset + 6⟩
              | _ => .error ⟨.openText, offset + 2 + rest.length⟩
            else if ['"', '\\', '/', 'b', 'f', 'n', 'r', 't'].contains (sign escape) then
              scanText (escape :: byte :: done) (offset + 2) rest
            else
              .error ⟨.badEscape, offset + 2⟩
      else if byte.toNat < 0x20 then .error ⟨.controlCharacter, offset + 1⟩
      else scanText (byte :: done) (offset + 1) rest

theorem left_lt_of_scanText {done : List UInt8} {offset : Nat} {bytes text : List UInt8} {q : Place}
    (h : scanText done offset bytes = .ok (text, q)) : q.left < bytes.length := by
  fun_induction scanText done offset bytes <;> grind [Place.left]

def readText (p : Place) : Except Fault (Past p RawText) :=
  match h : scanText [] (p.offset + 1) (p.rest.drop 1) with
  | .error fault => .error fault
  | .ok (bytes, q) =>
      .ok ⟨(⟨bytes, p.upTo q⟩, q), by
        have := left_lt_of_scanText h
        simp [Place.left] at this ⊢
        omega⟩

def readWord : List Char → Place → Except Fault Place
  | [], p => .ok p
  | ch :: word, p =>
      match p.next? with
      | none => .error (p.fault .openValue)
      | some found =>
          if found = ch then readWord word (p.drop 1) else .error ((p.drop 1).fault .badWord)

theorem left_le_of_readWord {word : List Char} {p q : Place} (h : readWord word p = .ok q) :
    q.left ≤ p.left := by
  fun_induction readWord word p <;> grind [Place.left_drop]

def Place.digits (p : Place) : Nat :=
  (p.rest.takeWhile fun byte => (sign byte).isDigit).length

/-- Reads the digits before the point: a zero has none after it. -/
def readWhole (p : Place) : Except Fault Place :=
  match p.next? with
  | none => .error (p.fault .openValue)
  | some ch =>
      if p.digits = 0 then .error ((p.drop 1).fault .badNumber)
      else if ch = '0' && p.digits > 1 then .error ((p.drop 1).faultAhead .badNumber)
      else .ok (p.drop p.digits)

def readFraction (p : Place) : Except Fault Place :=
  if p.next? = some '.' then
    let q := p.drop 1
    if q.digits = 0 then
      .error (q.faultAhead (if q.rest.isEmpty then .openValue else .badNumber))
    else
      .ok (q.drop q.digits)
  else
    .ok p

def readExponent (p : Place) : Except Fault Place :=
  if p.next? = some 'e' || p.next? = some 'E' then
    let signed := (p.drop 1).next?
    let q := p.drop (if signed = some '+' || signed = some '-' then 2 else 1)
    if q.rest.isEmpty then .error (q.fault .openValue)
    else if q.digits = 0 then .error ((q.drop 1).fault .badNumber)
    else .ok (q.drop q.digits)
  else
    .ok p

theorem left_lt_of_readWhole {p q : Place} (h : readWhole p = .ok q) : q.left < p.left := by
  unfold readWhole at h
  split at h
  · simp at h
  · rename_i ch hch
    have hpos := Place.left_pos_of_next? hch
    split at h
    · simp at h
    · split at h
      · simp at h
      · simp only [Except.ok.injEq] at h
        subst h
        rw [Place.left_drop]
        omega

theorem left_le_of_readFraction {p q : Place} (h : readFraction p = .ok q) : q.left ≤ p.left := by
  grind [readFraction, Place.left_drop]

theorem left_le_of_readExponent {p q : Place} (h : readExponent p = .ok q) : q.left ≤ p.left := by
  grind [readExponent, Place.left_drop]

def readNumber (p : Place) : Except Fault (Past p (List UInt8)) :=
  match h : readWhole (if p.next? = some '-' then p.drop 1 else p) with
  | .error fault => .error fault
  | .ok whole =>
      match hf : readFraction whole with
      | .error fault => .error fault
      | .ok fraction =>
          match he : readExponent fraction with
          | .error fault => .error fault
          | .ok q =>
              .ok ⟨(p.rest.take (p.left - q.left), q), by
                have hw := left_lt_of_readWhole h
                have hf := left_le_of_readFraction hf
                have he := left_le_of_readExponent he
                split at hw <;> simp at hw ⊢ <;> omega⟩

def readWordValue (word : String) (value : Span → Value) (p : Place) (hp : 0 < p.left) :
    Except Fault (Past p Value) :=
  match h : readWord (word.toList.drop 1) (p.drop 1) with
  | .error fault => .error fault
  | .ok q =>
      .ok ⟨(value (p.upTo q), q), by
        have := left_le_of_readWord h
        simp at this ⊢
        omega⟩

/-- A series in brackets: its closing bracket, and the problems of one that does not end. -/
structure Series where
  close : Char
  unclosed : Problem
  noComma : Problem

def Series.items : Series :=
  ⟨']', .openArray, .noItemComma⟩

def Series.members : Series :=
  ⟨'\x7d', .openObject, .noMemberComma⟩

inductive Series.Step where
  | over (q : Place)
  | part (q : Place)

/-- Reads on to the next part of a series, or over its end; only the first part has no comma. -/
def Series.step (series : Series) (first : Bool) (p : Place) : Except Fault Series.Step :=
  let q := p.skipBlanks
  match q.next? with
  | none => .error (q.fault series.unclosed)
  | some ch =>
      if ch = series.close then .ok (.over (q.drop 1))
      else if first then .ok (.part q)
      else if ch = ',' then
        let next := (q.drop 1).skipBlanks
        if next.rest.isEmpty then .error (next.fault .openValue)
        else if next.next? = some series.close then .error (next.faultAhead .trailingComma)
        else .ok (.part next)
      else .error (q.faultAhead series.noComma)

theorem Series.left_lt_of_step_over {series : Series} {first : Bool} {p q : Place}
    (h : series.step first p = .ok (.over q)) : q.left < p.left := by
  simp only [Series.step] at h
  split at h
  · simp at h
  · rename_i ch hch
    have hpos := Place.left_pos_of_next? hch
    have hle := p.left_skipBlanks_le
    split at h
    · simp only [Except.ok.injEq, Step.over.injEq] at h
      subst h
      rw [Place.left_drop]
      omega
    · grind

theorem Series.left_le_of_step_part {series : Series} {first : Bool} {p q : Place}
    (h : series.step first p = .ok (.part q)) : q.left ≤ p.left := by
  simp only [Series.step] at h
  have hle := p.left_skipBlanks_le
  have hnext := (p.skipBlanks.drop 1).left_skipBlanks_le
  rw [Place.left_drop] at hnext
  grind

mutual

def readValue (p : Place) : Except Fault (Past p Value) :=
  let q := p.skipBlanks
  have hq : q.left ≤ p.left := p.left_skipBlanks_le
  match h : q.next? with
  | none => .error (q.fault .openValue)
  | some ch =>
      have hpos : 0 < q.left := Place.left_pos_of_next? h
      have hdrop : (p.skipBlanks.drop 1).left < p.left := by
        rw [Place.left_drop]
        exact Nat.lt_of_lt_of_le (Nat.sub_lt hpos Nat.one_pos) hq
      if ch = '"' then (readText q).map fun text => (text.map .text).since hq
      else if ch = '[' then
        (readItems (q.drop 1) true).map fun items =>
          (items.map (.array (q.upTo items.val.2))).since (Nat.le_of_lt hdrop)
      else if ch = '\x7b' then
        (readMembers (q.drop 1) true).map fun members =>
          (members.map (.object (q.upTo members.val.2))).since (Nat.le_of_lt hdrop)
      else if ch = 'n' then (readWordValue "null" .null q hpos).map (·.since hq)
      else if ch = 't' then (readWordValue "true" (.bool · true) q hpos).map (·.since hq)
      else if ch = 'f' then (readWordValue "false" (.bool · false) q hpos).map (·.since hq)
      else if ch = '-' || ch.isDigit then
        (readNumber q).map fun number => (number.map (.number (q.upTo number.val.2))).since hq
      else .error (q.faultAhead .noValue)
termination_by 2 * p.left
decreasing_by all_goals omega

def readItems (p : Place) (first : Bool) : Except Fault (Past p (List Value)) :=
  match h : Series.items.step first p with
  | .error fault => .error fault
  | .ok (.over q) => .ok ⟨([], q), Series.left_lt_of_step_over h⟩
  | .ok (.part q) =>
      have hq := Series.left_le_of_step_part h
      match readValue q with
      | .error fault => .error fault
      | .ok item =>
          have := item.property
          (readItems item.val.2 false).map fun items => (items.map (item.val.1 :: ·)).since
termination_by 2 * p.left + 1

def readMembers (p : Place) (first : Bool) : Except Fault (Past p (List (RawText × Value))) :=
  match h : Series.members.step first p with
  | .error fault => .error fault
  | .ok (.over q) => .ok ⟨([], q), Series.left_lt_of_step_over h⟩
  | .ok (.part q) =>
      have hq := Series.left_le_of_step_part h
      match readMember q with
      | .error fault => .error fault
      | .ok member =>
          have := member.property
          (readMembers member.val.2 false).map fun members =>
            (members.map (member.val.1 :: ·)).since
termination_by 2 * p.left + 1

def readMember (p : Place) : Except Fault (Past p (RawText × Value)) :=
  if p.next? = some '"' then
    match readText p with
    | .error fault => .error fault
    | .ok key =>
        have hkey := key.property
        let colon := key.val.2.skipBlanks
        if colon.rest.isEmpty then .error (colon.fault .openObject)
        else if colon.next? = some ':' then
          have hcolon : (key.val.2.skipBlanks.drop 1).left < p.left := by
            have := key.val.2.left_skipBlanks_le
            rw [Place.left_drop]
            omega
          (readValue (colon.drop 1)).map fun value =>
            (value.map ((key.val.1, ·))).since (Nat.le_of_lt hcolon)
        else .error (colon.faultAhead .noColon)
  else
    .error (p.faultAhead .badKey)
termination_by 2 * p.left
decreasing_by omega

end

def read (document : List UInt8) : Except Fault Value :=
  match readValue ⟨document, 0⟩ with
  | .error fault => .error fault
  | .ok ⟨(value, p), _⟩ =>
      let q := p.skipBlanks
      if q.rest.isEmpty then .ok value else .error (q.faultAhead .trailingText)

end ComponentTags.Json
