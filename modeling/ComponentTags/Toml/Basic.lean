/-!
TOML values.
-/

namespace ComponentTags.Toml

/-- A value; what is not needed of floats, dates and times is left out. -/
inductive Value where
  | text (value : String)
  | integer (value : Int)
  | float
  | boolean (value : Bool)
  | dateTime
  | array (items : List Value)
  | table (members : List (String × Value))
deriving Repr, Inhabited

end ComponentTags.Toml
