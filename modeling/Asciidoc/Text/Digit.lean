import Asciidoc.Text.Basic

/-!
# Decimal digits

A decimal digit is a member of the Unicode general category of decimal numbers (version 14).
The category is made of complete runs of ten, each in the order of its values, so the table
lists the zero of every run and a digit's value is its distance from that zero.

What is stated beside the definitions: the ASCII digits are digits with their own values
(`value?_ascii`).
-/

namespace Asciidoc.Text.Digit

/-- The zero of every run of decimal digits. -/
def zeros : List Nat := [
  0x30, 0x660, 0x6f0, 0x7c0, 0x966, 0x9e6, 0xa66, 0xae6, 0xb66, 0xbe6, 0xc66, 0xce6, 0xd66,
  0xde6, 0xe50, 0xed0, 0xf20, 0x1040, 0x1090, 0x17e0, 0x1810, 0x1946, 0x19d0, 0x1a80, 0x1a90,
  0x1b50, 0x1bb0, 0x1c40, 0x1c50, 0xa620, 0xa8d0, 0xa900, 0xa9d0, 0xa9f0, 0xaa50, 0xabf0,
  0xff10, 0x104a0, 0x10d30, 0x11066, 0x110f0, 0x11136, 0x111d0, 0x112f0, 0x11450, 0x114d0,
  0x11650, 0x116c0, 0x11730, 0x118e0, 0x11950, 0x11c50, 0x11d50, 0x11da0, 0x16a60, 0x16ac0,
  0x16b50, 0x1d7ce, 0x1d7d8, 0x1d7e2, 0x1d7ec, 0x1d7f6, 0x1e140, 0x1e2f0, 0x1e950, 0x1fbf0]

/-- The value of a decimal digit. -/
def value? (c : Char) : Option Nat :=
  let n := c.toNat
  if n < 0x80 then if 0x30 ≤ n && n ≤ 0x39 then some (n - 0x30) else none
  else (zeros.find? fun first => first ≤ n && n < first + 10).map (n - ·)

/-- The decimal digits. -/
def isDigit (c : Char) : Bool := (value? c).isSome

/-- The number a run of digits writes; a code point that is no digit adds nothing. -/
def number (digits : Text) : Nat :=
  digits.foldl (fun n c => n * 10 + (value? c).getD 0) 0

/-- The longest run of digits that is still read as a number. -/
def longest : Nat := 4300

/-! ## Laws -/

theorem value?_ascii (n : Fin 10) : value? (Char.ofNat (0x30 + n)) = some n.val := by
  revert n; decide

end Asciidoc.Text.Digit
