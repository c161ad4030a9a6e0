import Std.Data.ExtTreeMap
import ComponentTags.Component.Identity

/-!
Keys: a component under the tag that a build meets it by. Keys are in the order of their tags and,
under one tag, of their identifiers.
-/

namespace ComponentTags

structure ComponentKey where
  tag : String
  identifier : String
deriving DecidableEq, Repr, Inhabited

namespace ComponentKey

instance : Ord ComponentKey where
  compare := compareLex (compareOn tag) (compareOn identifier)

instance : Std.TransOrd ComponentKey :=
  inferInstanceAs (Std.TransCmp (compareLex (compareOn tag) (compareOn identifier)))

instance : Std.LawfulEqOrd ComponentKey where
  eq_of_compare := by
    intro a b h
    have h : (compare a.tag b.tag).then (compare a.identifier b.identifier) = .eq := h
    obtain ⟨ht, hi⟩ := Ordering.then_eq_eq.1 h
    cases a
    cases b
    simp_all

end ComponentKey

abbrev KeyMap (α : Type) := Std.ExtTreeMap ComponentKey α compare

def Naming.key (naming : Naming) (reference : Reference) : ComponentKey :=
  { tag := reference.tag, identifier := (naming.identity reference).identifier }

end ComponentTags
