import Likeness.Decimal.Style

/-!
# Writing JSON

* `JsonValue.compact` writes a value on one line, without spaces;
* `JsonValue.pretty` writes it with an item a line and two spaces of indentation a level.

Objects keep the order of their members; `JsonValue.sorted` makes an object whose members are in the order of their keys.
-/

namespace Likeness

/-- A JSON value. -/
inductive JsonValue where
  | null
  | boolean (b : Bool)
  | natural (n : Nat)
  | number (x : Float)
  | string (text : String)
  | array (items : List JsonValue)
  | object (members : List (String × JsonValue))

/-- How doubles are written: in full from 0.00001 to below 10 ^ 16, and with an exponent beyond.  What is no number is null. -/
def jsonNumber : NumberStyle where
  tie := .toEven
  nan := "null".toList
  infinite := "null".toList
  signedInfinite := false
  keepsPoint := true
  plain := some ⟨-5, 16⟩

/-- A digit of base 16, in lower case. -/
def lowerHexDigit (n : Nat) : Char :=
  if n < 10 then Char.ofNat ('0'.toNat + n) else Char.ofNat ('a'.toNat + n - 10)

/-- A character within a JSON string. -/
def jsonChar (c : Char) : List Char :=
  if c = '"' then ['\\', '"']
  else if c = '\\' then ['\\', '\\']
  else if c = '\x08' then ['\\', 'b']
  else if c = '\t' then ['\\', 't']
  else if c = '\n' then ['\\', 'n']
  else if c = '\x0c' then ['\\', 'f']
  else if c = '\r' then ['\\', 'r']
  else if c.toNat < 0x20 then ['\\', 'u', '0', '0', lowerHexDigit (c.toNat / 16), lowerHexDigit (c.toNat % 16)]
  else [c]

/-- A JSON string. -/
def jsonString (text : String) : String :=
  String.ofList ('"' :: text.toList.flatMap jsonChar ++ ['"'])

/-- The spaces before an item at a level. -/
def indentation (level : Nat) : String :=
  String.ofList (List.replicate (2 * level) ' ')

/-- Items between brackets, one a line, or just the brackets if there are none. -/
def bracketed (opening closing : String) (level : Nat) (items : List String) : String :=
  if items.isEmpty then opening ++ closing
  else
    opening ++ "\n" ++ ",\n".intercalate (items.map (indentation (level + 1) ++ ·)) ++ "\n" ++ indentation level ++ closing

namespace JsonValue

mutual

/-- A value on one line. -/
def compact : JsonValue → String
  | null => "null"
  | boolean b => if b then "true" else "false"
  | natural n => toString n
  | number x => String.ofList (jsonNumber.write x)
  | string text => jsonString text
  | array items => "[" ++ ",".intercalate (compactItems items) ++ "]"
  | object members => "\x7b" ++ ",".intercalate (compactMembers members) ++ "\x7d"

/-- The items of an array, each on one line. -/
def compactItems : List JsonValue → List String
  | [] => []
  | v :: items => v.compact :: compactItems items

/-- The members of an object, each on one line. -/
def compactMembers : List (String × JsonValue) → List String
  | [] => []
  | (key, v) :: members => (jsonString key ++ ":" ++ v.compact) :: compactMembers members

end

mutual

/-- A value over several lines, at a level of indentation. -/
def prettyAt (level : Nat) : JsonValue → String
  | array items => bracketed "[" "]" level (prettyItems (level + 1) items)
  | object members => bracketed "\x7b" "\x7d" level (prettyMembers (level + 1) members)
  | null => null.compact
  | boolean b => (boolean b).compact
  | natural n => (natural n).compact
  | number x => (number x).compact
  | string text => (string text).compact

/-- The items of an array at a level of indentation. -/
def prettyItems (level : Nat) : List JsonValue → List String
  | [] => []
  | v :: items => prettyAt level v :: prettyItems level items

/-- The members of an object at a level of indentation. -/
def prettyMembers (level : Nat) : List (String × JsonValue) → List String
  | [] => []
  | (key, v) :: members => (jsonString key ++ ": " ++ prettyAt level v) :: prettyMembers level members

end

/-- A value over several lines. -/
def pretty (v : JsonValue) : String :=
  prettyAt 0 v

/-- The members after setting a key, the keys being kept in order. -/
def insertMember (key : String) (v : JsonValue) : List (String × JsonValue) → List (String × JsonValue)
  | [] => [(key, v)]
  | (other, w) :: members =>
    if key < other then (key, v) :: (other, w) :: members
    else if key = other then (key, v) :: members
    else (other, w) :: insertMember key v members

/-- The object with members in the order of their keys; of two members with one key the later one counts. -/
def sorted (members : List (String × JsonValue)) : JsonValue :=
  object (members.foldl (fun sofar (key, v) => insertMember key v sofar) [])

end JsonValue

end Likeness
