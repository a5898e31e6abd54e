/-!
# The roles of the characters of a source text

A source text is read from left to right in one of four modes: code, line comment, block comment, or a literal
between quotes.  Each character thereby gets a role.

* `annotate` gives every character of a text its role;
* `Mode.after` is the mode in which a text is left;
* `map_fst_annotate` says that annotating loses and moves nothing.

In code, two slashes or a slash and a star open a comment, and a quote opens a literal.  In a literal a backslash takes
the next character with it, so that an escaped quote does not close.  Nothing can fail: a comment or literal that is
never closed runs to the end of the text.
-/

namespace Likeness

/-- The two quotes that delimit a literal. -/
inductive Quote where
  | single
  | double
  deriving DecidableEq, Repr

namespace Quote

/-- The character that a quote is written with. -/
def char : Quote → Char
  | single => '\''
  | double => '"'

/-- The quote that a character stands for, if it is one. -/
def ofChar? (c : Char) : Option Quote :=
  if c = '\'' then some single else if c = '"' then some double else none

@[simp] theorem ofChar?_char (q : Quote) : ofChar? q.char = some q := by
  cases q <;> rfl

theorem ofChar?_eq_some {c : Char} {q : Quote} : ofChar? c = some q ↔ c = q.char := by
  refine ⟨fun h => ?_, fun h => h ▸ ofChar?_char q⟩
  unfold ofChar? at h
  split at h
  · next hc => cases h; exact hc
  · split at h
    · next hc => cases h; exact hc
    · cases h

end Quote

/-- The mode in which a source text is being read. -/
inductive Mode where
  | code
  | lineComment
  | blockComment
  | literal (quote : Quote)
  deriving DecidableEq, Repr

/-- What a character of a source text is part of. -/
inductive Role where
  /-- Outside comments and literals. -/
  | code
  /-- A quote that opens or closes a literal. -/
  | quote
  /-- Between the quotes of a literal. -/
  | body
  /-- The first character of a comment. -/
  | opener
  /-- Any other character of a comment but a line end. -/
  | remark
  /-- A line end within a comment, or the one that closes it. -/
  | lineEnd
  deriving DecidableEq, Repr

/-- The mode after a character of code that opens no comment. -/
def Mode.ofCode (c : Char) : Mode :=
  match Quote.ofChar? c with
  | some q => .literal q
  | none => .code

/-- The role of a character of code that opens no comment. -/
def Role.ofCode (c : Char) : Role :=
  if (Quote.ofChar? c).isSome then .quote else .code

/-- Gives each character of a text its role, the text being read from the given mode on. -/
def annotate : Mode → List Char → List (Char × Role)
  | _, [] => []
  | .code, '/' :: '/' :: text => ('/', .opener) :: ('/', .remark) :: annotate .lineComment text
  | .code, '/' :: '*' :: text => ('/', .opener) :: ('*', .remark) :: annotate .blockComment text
  | .code, c :: text => (c, Role.ofCode c) :: annotate (Mode.ofCode c) text
  | .lineComment, '\n' :: text => ('\n', .lineEnd) :: annotate .code text
  | .lineComment, c :: text => (c, .remark) :: annotate .lineComment text
  | .blockComment, '\n' :: text => ('\n', .lineEnd) :: annotate .blockComment text
  | .blockComment, '*' :: '/' :: text => ('*', .remark) :: ('/', .remark) :: annotate .code text
  | .blockComment, c :: text => (c, .remark) :: annotate .blockComment text
  | .literal _, ['\\'] => [('\\', .body)]
  | .literal q, '\\' :: c :: text => ('\\', .body) :: (c, .body) :: annotate (.literal q) text
  | .literal q, c :: text =>
    if c = q.char then (c, .quote) :: annotate .code text else (c, .body) :: annotate (.literal q) text

/-- The mode in which a text is left that is read from the given mode on. -/
def Mode.after : Mode → List Char → Mode
  | m, [] => m
  | .code, '/' :: '/' :: text => Mode.after .lineComment text
  | .code, '/' :: '*' :: text => Mode.after .blockComment text
  | .code, c :: text => Mode.after (Mode.ofCode c) text
  | .lineComment, '\n' :: text => Mode.after .code text
  | .lineComment, _ :: text => Mode.after .lineComment text
  | .blockComment, '*' :: '/' :: text => Mode.after .code text
  | .blockComment, _ :: text => Mode.after .blockComment text
  | .literal q, ['\\'] => .literal q
  | .literal q, '\\' :: _ :: text => Mode.after (.literal q) text
  | .literal q, c :: text => if c = q.char then Mode.after .code text else Mode.after (.literal q) text

/-- Annotating keeps the text: it only adds roles. -/
theorem map_fst_annotate (mode : Mode) (text : List Char) : (annotate mode text).map Prod.fst = text := by
  fun_induction annotate mode text <;> simp_all

end Likeness
