import Likeness.Decimal.Shortest
import Likeness.Toml.Quoted
import Likeness.Toml.Value

/-!
# Numbers, dates and times in TOML documents

* `moment?` reads a date, a time, or both;
* `number?` reads an integer of 64 bits or a double;
* `plainValue?` reads any value that holds no other values.

A float literal too large for a double is refused if it has no minus sign.
-/

namespace Likeness.Toml

/-- The number that two digits write. -/
def twoDigits? : List Char → Option (Nat × List Char)
  | a :: b :: text =>
    if a.isDigit ∧ b.isDigit then some (10 * (a.toNat - '0'.toNat) + (b.toNat - '0'.toNat), text) else none
  | _ => none

/-- What follows a character. -/
def after? (c : Char) : List Char → Option (List Char)
  | [] => none
  | d :: text => if d = c then some text else none

/-- The number of days of a month. -/
def daysOf (year month : Nat) : Nat :=
  if month = 2 then (if year % 4 = 0 ∧ (year % 100 ≠ 0 ∨ year % 400 = 0) then 29 else 28)
  else if month ∈ [4, 6, 9, 11] then 30
  else 31

/-- What follows a date that exists. -/
def date? (text : List Char) : Option (List Char) := do
  let (century, text) ← twoDigits? text
  let (year, text) ← twoDigits? text
  let (month, text) ← twoDigits? (← after? '-' text)
  let (day, text) ← twoDigits? (← after? '-' text)
  if 1 ≤ month ∧ month ≤ 12 ∧ 1 ≤ day ∧ day ≤ daysOf (100 * century + year) month then some text else none

/-- What follows a time of day.  A minute may have a leap second; places after the point are optional. -/
def time? (text : List Char) : Option (List Char) := do
  let (hour, text) ← twoDigits? text
  let (minute, text) ← twoDigits? (← after? ':' text)
  let (second, text) ← twoDigits? (← after? ':' text)
  if hour ≤ 23 ∧ minute ≤ 59 ∧ second ≤ 60 then
    match text with
    | '.' :: c :: rest => if c.isDigit then some (rest.dropWhile Char.isDigit) else some text
    | _ => some text
  else none

/-- What follows an offset from universal time. -/
def offset? : List Char → Option (List Char)
  | 'Z' :: text => some text
  | 'z' :: text => some text
  | c :: text => do
    if c = '+' ∨ c = '-' then
      let (hour, text) ← twoDigits? text
      let (minute, text) ← twoDigits? (← after? ':' text)
      if hour ≤ 23 ∧ minute ≤ 59 then some text else none
    else none
  | [] => none

/-- What follows a date, a time, or a date with a time. -/
def moment? (text : List Char) : Option (List Char) :=
  match date? text with
  | none => time? text
  | some rest =>
    match rest with
    | c :: dayTime =>
      if c = 'T' ∨ c = 't' ∨ c = ' ' then
        match time? dayTime with
        | some rest => some ((offset? rest).getD rest)
        | none => some (c :: dayTime)
      else some (c :: dayTime)
    | [] => some []

/-- The digits that go on a run of digits, single underscores between them being dropped. -/
def moreDigits (isDigit : Char → Bool) : List Char → List Char × List Char
  | [] => ([], [])
  | '_' :: c :: text =>
    if isDigit c then
      let (digits, rest) := moreDigits isDigit text
      (c :: digits, rest)
    else ([], '_' :: c :: text)
  | c :: text =>
    if isDigit c then
      let (digits, rest) := moreDigits isDigit text
      (c :: digits, rest)
    else ([], c :: text)

/-- A run of at least one digit. -/
def digits? (isDigit : Char → Bool) : List Char → Option (List Char × List Char)
  | [] => none
  | c :: text =>
    if isDigit c then
      let (digits, rest) := moreDigits isDigit text
      some (c :: digits, rest)
    else none

/-- The whole part of a decimal number: a zero alone, or digits that do not start with one. -/
def wholeDigits? : List Char → Option (List Char × List Char)
  | '0' :: text => some (['0'], text)
  | text => digits? Char.isDigit text

/-- The number that digits write in a base. -/
def valueOf (base : Nat) (digits : List Char) : Nat :=
  digits.foldl (fun n c => base * n + (hexDigit? c).getD 0) 0

/-- An integer of 64 bits. -/
def integer? (n : Int) : Option Value :=
  if Int64.minValue.toInt ≤ n ∧ n ≤ Int64.maxValue.toInt then some (.integer n) else none

/-- An integer written in a base other than ten, after its opening. -/
def basedInteger? (base : Nat) (isDigit : Char → Bool) (text : List Char) : Option (Value × List Char) := do
  let (digits, rest) ← digits? isDigit text
  let n ← integer? (valueOf base digits)
  return (n, rest)

/-- The places after the point, if there is a point. -/
def fraction? : List Char → Option (List Char × List Char)
  | '.' :: text => digits? Char.isDigit text
  | text => some ([], text)

/-- The exponent after the letter for it, if there is such a letter. -/
def exponent? : List Char → Option (Option Int × List Char)
  | c :: text =>
    if c = 'e' ∨ c = 'E' then
      match text with
      | '-' :: text => (digits? Char.isDigit text).map fun (digits, rest) => (some (-(valueOf 10 digits : Int)), rest)
      | '+' :: text => (digits? Char.isDigit text).map fun (digits, rest) => (some (valueOf 10 digits : Int), rest)
      | text => (digits? Char.isDigit text).map fun (digits, rest) => (some (valueOf 10 digits : Int), rest)
    else some (none, c :: text)
  | [] => some (none, [])

/-- A decimal integer or float, after its sign. -/
def decimal? (negative : Bool) (text : List Char) : Option (Value × List Char) := do
  let (whole, text) ← wholeDigits? text
  let (places, text) ← fraction? text
  let (exponent, rest) ← exponent? text
  if places = [] ∧ exponent = none then
    let n := (valueOf 10 whole : Int)
    let v ← integer? (if negative then -n else n)
    return (v, rest)
  else
    let d : Decimal := ⟨valueOf 10 (whole ++ places), exponent.getD 0 - places.length⟩
    if d.nearestMagnitude = Magnitude.infinity ∧ !negative then none
    else return (.float (d.toFloat negative), rest)

/-- A number after its sign. -/
def unsignedNumber? (negative : Bool) : List Char → Option (Value × List Char)
  | 'i' :: 'n' :: 'f' :: rest => some (.float (Magnitude.infinity.toFloat negative), rest)
  | 'n' :: 'a' :: 'n' :: rest => some (.float (0.0 / 0.0), rest)
  | text => decimal? negative text

/-- Reads a number.  Only numbers without a sign can be written in base 2, 8 or 16. -/
def number? : List Char → Option (Value × List Char)
  | '-' :: text => unsignedNumber? true text
  | '+' :: text => unsignedNumber? false text
  | '0' :: 'x' :: text => basedInteger? 16 (fun c => (hexDigit? c).isSome) text
  | '0' :: 'o' :: text => basedInteger? 8 (fun c => '0' ≤ c && c ≤ '7') text
  | '0' :: 'b' :: text => basedInteger? 2 (fun c => c = '0' || c = '1') text
  | text => unsignedNumber? false text

/-- Reads a string, a truth value, a date or time, or a number. -/
def plainValue? : List Char → Option (Value × List Char)
  | 't' :: 'r' :: 'u' :: 'e' :: rest => some (.boolean true, rest)
  | 'f' :: 'a' :: 'l' :: 's' :: 'e' :: rest => some (.boolean false, rest)
  | text =>
    match quoted? text with
    | some (string, rest) => some (.string string, rest)
    | none =>
      match moment? text with
      | some rest => some (.moment, rest)
      | none => number? text

end Likeness.Toml
