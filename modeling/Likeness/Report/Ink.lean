/-!
# Coloured text

Text for a terminal is coloured by an escape sequence before it and another one after it that ends all colours.  Where the
text itself ends all colours, its own are started again.
-/

namespace Likeness

/-- How a text stands out, as the numbers of an escape sequence. -/
inductive Ink where
  | bold
  | dimmed
  | red
  | boldRed
  | green
  | yellow
  | boldCyan
  | white
  deriving DecidableEq, Repr

namespace Ink

/-- The numbers that an ink is switched on by. -/
def codes : Ink → String
  | bold => "1"
  | dimmed => "2"
  | red => "31"
  | boldRed => "1;31"
  | green => "32"
  | yellow => "33"
  | boldCyan => "1;36"
  | white => "37"

/-- The escape sequence that switches an ink on. -/
def start (ink : Ink) : List Char :=
  "\x1b[".toList ++ ink.codes.toList ++ ['m']

/-- The escape sequence that ends all colours. -/
def stop : List Char :=
  "\x1b[0m".toList

/-- A text in which an ink is switched on again after each end of all colours. -/
def resumed (ink : Ink) : List Char → List Char
  | [] => []
  | '\x1b' :: '[' :: '0' :: 'm' :: text => stop ++ ink.start ++ resumed ink text
  | c :: text => c :: resumed ink text

/-- A text in an ink, if colours are wanted. -/
def paint (ink : Ink) (coloured : Bool) (text : String) : String :=
  if coloured then String.ofList (ink.start ++ resumed ink text.toList ++ stop) else text

end Ink

end Likeness
