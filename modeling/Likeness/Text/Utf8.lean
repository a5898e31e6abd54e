/-!
# UTF-8

Bytes are decoded one by one.  Between two bytes the decoder is either at the start of a character or owes some more bytes,
of which the next one lies between a least and a greatest value.

* `Utf8.decode` gives the characters of a byte string, with `none` for each longest part that starts a character and does not
  finish it, and for each byte that starts none;
* `Utf8.repair` puts U+FFFD in the place of such parts, and `Utf8.decode?` refuses them.
-/

namespace Likeness.Utf8

/-- A character that has been started: its bits so far, how many bytes are owed, and the range of the next one. -/
structure Started where
  bits : Nat
  owed : Nat
  least : Nat
  greatest : Nat
  deriving DecidableEq, Repr

/-- What a byte leads to at the start of a character: what is decoded at once, and the character that it starts. -/
def first (b : Nat) : List (Option Char) × Option Started :=
  if b < 0x80 then ([some (Char.ofNat b)], none)
  else if b < 0xC2 then ([none], none)
  else if b < 0xE0 then ([], some ⟨b - 0xC0, 1, 0x80, 0xBF⟩)
  else if b < 0xF0 then
    ([], some ⟨b - 0xE0, 2, if b = 0xE0 then 0xA0 else 0x80, if b = 0xED then 0x9F else 0xBF⟩)
  else if b < 0xF5 then
    ([], some ⟨b - 0xF0, 3, if b = 0xF0 then 0x90 else 0x80, if b = 0xF4 then 0x8F else 0xBF⟩)
  else ([none], none)

/-- What a byte leads to after what has been started.  A byte out of range ends the started part and is read afresh. -/
def next : Option Started → Nat → List (Option Char) × Option Started
  | none, b => first b
  | some s, b =>
    if s.least ≤ b ∧ b ≤ s.greatest then
      let bits := s.bits * 64 + (b - 0x80)
      if s.owed = 1 then ([some (Char.ofNat bits)], none) else ([], some ⟨bits, s.owed - 1, 0x80, 0xBF⟩)
    else (none :: (first b).1, (first b).2)

/-- The characters of a byte string after what has been started; a part left unfinished at the end counts as one. -/
def decodeFrom : Option Started → List UInt8 → List (Option Char)
  | none, [] => []
  | some _, [] => [none]
  | s, b :: bytes => (next s b.toNat).1 ++ decodeFrom (next s b.toNat).2 bytes

/-- The characters of a byte string, `none` standing for an ill-formed part. -/
def decode (bytes : List UInt8) : List (Option Char) :=
  decodeFrom none bytes

/-- The character that stands for what cannot be decoded. -/
def replacement : Char := '\uFFFD'

/-- The characters of a byte string, each ill-formed part being replaced by U+FFFD. -/
def repair (bytes : List UInt8) : List Char :=
  (decode bytes).map (·.getD replacement)

/-- The characters of a well-formed byte string. -/
def decode? (bytes : List UInt8) : Option (List Char) :=
  (decode bytes).mapM id

/-- The number of bytes that a text takes. -/
def size (text : List Char) : Nat :=
  text.foldl (fun sum c => sum + c.utf8Size) 0

end Likeness.Utf8
