import Likeness.Text.Blank
import Likeness.Text.Numerals
import Likeness.Token.Kind

/-!
# Pieces of a cleaned text

A cleaned text is cut from left to right into pieces: white space, words, numbers, operators, and stray characters.
Words, numbers and operators are as long as they can be; words and operators are the tokens of the text.

* `pieces` cuts a text, and `tokens` keeps the words and operators;
* `firstPiece_eq_cons` says that nothing is lost in a cut.
-/

namespace Likeness

/-- The kinds of pieces. -/
inductive PieceKind where
  /-- One character of white space. -/
  | blank
  | word
  /-- Digits and points, starting with a digit. -/
  | number
  | operator
  /-- One character that starts no other piece. -/
  | stray
  deriving DecidableEq, Repr

/-- A piece of a text. -/
structure Piece where
  kind : PieceKind
  text : List Char
  deriving DecidableEq, Repr

/-- Whether a character can stand in a word after its first. -/
def continuesWord (c : Char) : Bool :=
  isLetter c || isNumeral c || c == '_'

/-- Whether a character can stand in a number after its first. -/
def continuesNumber (c : Char) : Bool :=
  c.isDigit || c == '.'

/-- The longest operator, of at most the given number of characters, that a text starts with. -/
def longestOperator (text : List Char) : Nat → Option Token
  | 0 => none
  | width + 1 => if text.take (width + 1) ∈ operators then some (text.take (width + 1)) else longestOperator text width

/-- The first piece of the text `c :: text`. -/
def firstPiece (c : Char) (text : List Char) : Piece :=
  if isBlank c then ⟨.blank, [c]⟩
  else if startsWord c then ⟨.word, c :: text.takeWhile continuesWord⟩
  else if c.isDigit then ⟨.number, c :: text.takeWhile continuesNumber⟩
  else match longestOperator (c :: text) operatorWindow with
    | some op => ⟨.operator, op⟩
    | none => ⟨.stray, [c]⟩

/-- Cuts a text into pieces.  The first character of a piece is `c`, so one less than its length is left to drop. -/
def pieces : List Char → List Piece
  | [] => []
  | c :: text =>
    let piece := firstPiece c text
    piece :: pieces (text.drop (piece.text.length - 1))
termination_by text => text.length

/-- The words and operators of a text, in order. -/
def tokens (text : List Char) : List Token :=
  (pieces text).filterMap fun p => if p.kind = .word ∨ p.kind = .operator then some p.text else none

/-! ### What a piece is made of -/

private theorem takeWhile_append_drop_length (p : Char → Bool) (text : List Char) :
    text.takeWhile p ++ text.drop (text.takeWhile p).length = text := by
  induction text with
  | nil => rfl
  | cons c text ih => by_cases h : p c <;> simp [h, ih]

theorem longestOperator_eq_some {text op : List Char} {width : Nat} (h : longestOperator text width = some op) :
    op ∈ operators ∧ op <+: text := by
  induction width with
  | zero => cases h
  | succ width ih =>
    unfold longestOperator at h
    split at h
    · next hop =>
      cases h
      exact ⟨hop, List.take_prefix _ _⟩
    · exact ih h

private theorem nil_notMem_operators : [] ∉ operators := by decide

/-- A piece of a text starts with its first character and goes on with what follows. -/
theorem firstPiece_eq_cons (c : Char) (text : List Char) :
    ∃ more, (firstPiece c text).text = c :: more ∧ more ++ text.drop more.length = text := by
  unfold firstPiece
  split
  · exact ⟨[], rfl, rfl⟩
  · split
    · exact ⟨_, rfl, takeWhile_append_drop_length _ _⟩
    · split
      · exact ⟨_, rfl, takeWhile_append_drop_length _ _⟩
      · split
        · next op h =>
          obtain ⟨hop, rest, hrest⟩ := longestOperator_eq_some h
          cases op with
          | nil => exact absurd hop nil_notMem_operators
          | cons d more =>
            obtain ⟨rfl, rfl⟩ := List.cons.inj hrest
            exact ⟨more, rfl, by simp⟩
        · exact ⟨[], rfl, rfl⟩

end Likeness
