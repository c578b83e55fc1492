import Asciidoc.Text.Digit

/-!
# Numerals

A numeral spells a whole number: digits, a sign before them or not, blanks around it all. Single
underscores may stand between digits. A numeral of more than `Digit.longest` digits is not read.

Not all blanks of texts may stand around a numeral: the four separators of ASCII, from file
separator to unit separator, may not.
-/

namespace Asciidoc.Text.Numeral

/-- The digits of a numeral, without the underscores between them. -/
def digits? (afterDigit : Bool) : Text → Option Text
  | [] => if afterDigit then some [] else none
  | c :: rest =>
    if Digit.isDigit c then (digits? true rest).map (c :: ·)
    else if c = '_' && afterDigit then digits? false rest
    else none

/-- A text without its sign, and whether that is a minus. -/
def signed : Text → Bool × Text
  | '-' :: rest => (true, rest)
  | '+' :: rest => (false, rest)
  | t => (false, t)

/-- The blanks that may stand around a numeral. -/
def isBlank (c : Char) : Bool := Text.isBlank c && !(0x1C ≤ c.toNat && c.toNat ≤ 0x1F)

/-- A text without the blanks that may stand around a numeral. -/
def trimmed (t : Text) : Text := ((t.dropWhile isBlank).reverse.dropWhile isBlank).reverse

/-- The number that a numeral spells. -/
def read? (t : Text) : Option Int :=
  let (negative, unsigned) := signed (trimmed t)
  match digits? false unsigned with
  | none => none
  | some digits =>
    if Digit.longest < digits.length then none
    else some (if negative then -(Digit.number digits) else Digit.number digits)

end Asciidoc.Text.Numeral
