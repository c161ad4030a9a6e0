/-!
Places in a source text. A `Cursor` splits the text into what was read and what is left; every move
forward is a `drop`, so a move never goes back and never leaves the text. Offsets count UTF-8 bytes.
-/

namespace ComponentTags

/-- The bytes from `start` up to, but not including, `stop`. -/
structure Span where
  start : Nat
  stop : Nat
deriving DecidableEq, Repr, Inhabited

def utf8Length : List Char → Nat
  | [] => 0
  | ch :: rest => ch.utf8Size + utf8Length rest

/-- A place in a text: `before` was read (last character first), `rest` is left. -/
structure Cursor where
  before : List Char
  rest : List Char
  offset : Nat
deriving DecidableEq, Repr, Inhabited

namespace Cursor

def start (text : List Char) : Cursor :=
  { before := [], rest := text, offset := 0 }

def remaining (c : Cursor) : Nat :=
  c.rest.length

def advance (c : Cursor) : Cursor :=
  match c.rest with
  | [] => c
  | ch :: rest =>
      { before := ch :: c.before, rest := rest, offset := c.offset + ch.utf8Size }

def drop : Nat → Cursor → Cursor
  | 0, c => c
  | n + 1, c => drop n c.advance

def skipWhile (p : Char → Bool) (c : Cursor) : Cursor :=
  c.drop (c.rest.takeWhile p).length

def textTo (c d : Cursor) : List Char :=
  c.rest.take (c.remaining - d.remaining)

@[simp]
theorem remaining_advance (c : Cursor) : c.advance.remaining = c.remaining - 1 := by
  unfold advance remaining
  split <;> simp_all

@[simp]
theorem remaining_drop (n : Nat) (c : Cursor) : (c.drop n).remaining = c.remaining - n := by
  induction n generalizing c with
  | zero => rfl
  | succ n ih =>
      rw [drop, ih, remaining_advance]
      omega

theorem remaining_of_rest {c : Cursor} {ch : Char} {rest : List Char} (h : c.rest = ch :: rest) :
    c.remaining = rest.length + 1 := by
  simp [remaining, h]

theorem remaining_skipWhile_le (p : Char → Bool) (c : Cursor) :
    (c.skipWhile p).remaining ≤ c.remaining := by
  simp [skipWhile]

end Cursor

/-- How many characters it takes to get past the first `pattern`; all of them if there is none. -/
def lengthPast (pattern : List Char) : List Char → Nat
  | [] => 0
  | ch :: rest =>
      if pattern.isPrefixOf (ch :: rest) then pattern.length
      else lengthPast pattern rest + 1

theorem lengthPast_pos (pattern text : List Char) (hp : pattern ≠ []) (ht : text ≠ []) :
    0 < lengthPast pattern text := by
  fun_cases lengthPast pattern text <;> simp_all [List.length_pos_iff]

end ComponentTags
