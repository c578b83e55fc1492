import Asciidoc.Text.Printable

/-!
# Texts between quotes

A quoted text stands between apostrophes, or between double quotes when it holds an apostrophe
and no double quote. A backslash precedes a backslash and the quote in use; line feed, carriage
return and tab are written with a letter; any other code point that is not printable is written
as its number in two, four or eight hexadecimal digits.
-/

namespace Asciidoc.Text.Quoted

/-- The hexadecimal digit of a value below sixteen. -/
def hexDigit (n : Nat) : Char :=
  if n < 10 then Char.ofNat (0x30 + n) else Char.ofNat (0x57 + n)

/-- The last `width` hexadecimal digits of a number. -/
def hex : (width n : Nat) → Text
  | 0, _ => []
  | width + 1, n => hex width (n / 16) ++ [hexDigit (n % 16)]

/-- The quote that needs the fewest backslashes. -/
def mark (t : Text) : Char :=
  if t.contains '\x27' && !t.contains '"' then '"' else '\x27'

/-- How a code point is written between the given quotes. -/
def escape (quoteMark c : Char) : Text :=
  if c = quoteMark || c = '\\' then ['\\', c]
  else if c = '\n' then ['\\', 'n']
  else if c = '\r' then ['\\', 'r']
  else if c = '\t' then ['\\', 't']
  else if Printable.isPrintable c then [c]
  else if c.toNat < 0x100 then '\\' :: 'x' :: hex 2 c.toNat
  else if c.toNat < 0x10000 then '\\' :: 'u' :: hex 4 c.toNat
  else '\\' :: 'U' :: hex 8 c.toNat

/-- The text between quotes. -/
def encode (t : Text) : Text :=
  mark t :: t.flatMap (escape (mark t)) ++ [mark t]

end Asciidoc.Text.Quoted
