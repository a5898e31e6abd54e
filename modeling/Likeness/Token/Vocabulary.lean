/-!
# The vocabulary

The fixed lists of words and signs that are told apart when sources are compared.  Both lists are ordered: the place of
an entry in its list is its slot in a vector of counts.

* `keywords` holds the 50 reserved words;
* `operators` holds 37 operators and then the 10 `delimiters`;
* `excludedLiterals` holds the words that look like names but stand for values.
-/

namespace Likeness

/-- A token is the text of a word or of an operator. -/
abbrev Token := List Char

-- one name for the law behind all tests of membership in lists of tokens
instance : LawfulBEq Token := List.instLawfulBEq

/-- The reserved words, in alphabetical order. -/
def keywords : List Token :=
  ["abstract", "assert", "boolean", "break", "byte",
   "case", "catch", "char", "class", "const",
   "continue", "default", "do", "double", "else",
   "enum", "extends", "final", "finally", "float",
   "for", "goto", "if", "implements", "import",
   "instanceof", "int", "interface", "long", "native",
   "new", "package", "private", "protected", "public",
   "return", "short", "static", "strictfp", "super",
   "switch", "synchronized", "this", "throw", "throws",
   "transient", "try", "void", "volatile", "while"].map String.toList

/-- The signs that shape a text without counting as operators. -/
def delimiters : List Token :=
  ["(", ")", "\x7b", "\x7d", "[", "]", ";", ",", ".", "@"].map String.toList

/-- The operators of arithmetic, comparison, logic, bits, assignment and choice, followed by the delimiters. -/
def operators : List Token :=
  ["+", "-", "*", "/", "%", "++", "--",
   "==", "!=", ">", "<", ">=", "<=",
   "&&", "||", "!",
   "&", "|", "^", "~", "<<", ">>", ">>>",
   "=", "+=", "-=", "*=", "/=", "%=",
   "&=", "|=", "^=", "<<=", ">>=", ">>>=",
   "?", ":"].map String.toList ++ delimiters

/-- The words for truth values and for no object, which are neither reserved words nor names. -/
def excludedLiterals : List Token :=
  ["true", "false", "null"].map String.toList

/-- The longest operator that is looked for in a text, in characters. -/
def operatorWindow : Nat := 3

/-- The slot of a token among the reserved words. -/
def keywordSlot (t : Token) : Option Nat :=
  keywords.idxOf? t

/-- The slot of a token among the operators and delimiters. -/
def operatorSlot (t : Token) : Option Nat :=
  operators.idxOf? t

theorem keywords_nodup : keywords.Nodup := by decide +kernel

theorem operators_nodup : operators.Nodup := by decide +kernel

theorem mem_operators_of_mem_delimiters {t : Token} (h : t ∈ delimiters) : t ∈ operators :=
  List.mem_append_right _ h

end Likeness
