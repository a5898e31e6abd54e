/-!
# TOML values

What a TOML document says: a table of keys and values.
-/

namespace Likeness.Toml

/-- A key of a table. -/
abbrev Key := List Char

/-- A TOML value.  Of a date or time only its presence is kept. -/
inductive Value where
  | string (text : List Char)
  | integer (n : Int)
  | float (x : Float)
  | boolean (b : Bool)
  | moment
  | array (items : List Value)
  | table (entries : List (Key × Value))

end Likeness.Toml
