/-!
The edit distance of two texts: the least number of characters to insert, delete or replace.
-/

namespace ComponentTags

/--
The distances from one text, longer by the character `ch`, to the prefixes of `other`; `above` holds
the distances without `ch`, and `left` and `corner` are the entries before the current one.
-/
def distanceRow (ch : Char) (left corner : Nat) : List Char → List Nat → List Nat
  | x :: other, up :: above =>
      let here := min (min (left + 1) (up + 1)) (corner + if ch = x then 0 else 1)
      here :: distanceRow ch here up other above
  | _, _ => []

def nextDistances (other : List Char) (above : List Nat) (ch : Char) : List Nat :=
  match above with
  | [] => []
  | corner :: above => (corner + 1) :: distanceRow ch (corner + 1) corner other above

def editDistance (a b : String) : Nat :=
  (a.toList.foldl (nextDistances b.toList) (List.range (b.toList.length + 1))).getLast?.getD 0

end ComponentTags
