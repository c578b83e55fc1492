import Asciidoc.Json.Basic

/-!
# Writing the interchange format

A value is written on one line, with a space after commas and colons, or spread over lines, one
entry or item a line and each level indented by a number of blanks; empty lists and tables stay
on one line in both layouts. Texts are written between double quotes with the quote, the
backslash and the controls escaped; on request everything beyond ASCII is escaped too, a code
point beyond the basic plane as its two surrogates.
-/

namespace Asciidoc.Json

/-- How values are laid out. -/
structure Layout where
  /-- The blanks a level is indented by when values are spread over lines; none for one line. -/
  step : Option Nat
  /-- Whether code points beyond printable ASCII are escaped. -/
  ascii : Bool

/-- Four hexadecimal digits behind the escape that takes them. -/
def unit (n : Nat) : Text := '\\' :: 'u' :: Text.Quoted.hex 4 n

/-- How a code point is written inside a quoted text. -/
def writtenChar (ascii : Bool) (c : Char) : Text :=
  let n := c.toNat
  if c = '"' then ['\\', '"']
  else if c = '\\' then ['\\', '\\']
  else if c = '\n' then ['\\', 'n']
  else if c = '\r' then ['\\', 'r']
  else if c = '\t' then ['\\', 't']
  else if n = 0x0C then ['\\', 'f']
  else if n = 0x08 then ['\\', 'b']
  else if n < 0x20 then unit n
  else if !ascii || n < 0x7F then [c]
  else if n < 0x10000 then unit n
  else unit (0xD800 + (n - 0x10000) / 0x400) ++ unit (0xDC00 + (n - 0x10000) % 0x400)

/-- A text between double quotes. -/
def writtenText (ascii : Bool) (t : Text) : Text :=
  '"' :: t.flatMap (writtenChar ascii) ++ ['"']

/-- A floating-point number, with the names the format's readers know for those that have no
digits. -/
def writtenFloat : Binary64 → Text
  | .undefined => "NaN".toList
  | .infinite false => "Infinity".toList
  | .infinite true => "-Infinity".toList
  | x => x.toText

/-- What starts a line at a depth of nesting. -/
def Layout.newline (layout : Layout) (depth : Nat) : Text :=
  match layout.step with
  | none => []
  | some step => '\n' :: List.replicate (step * depth) ' '

/-- What separates two items at a depth of nesting. -/
def Layout.comma (layout : Layout) (depth : Nat) : Text :=
  match layout.step with
  | none => [',', ' ']
  | some _ => ',' :: layout.newline depth

mutual

/-- A value at a depth of nesting. -/
def writtenAt (layout : Layout) (depth : Nat) : Json → Text
  | .null => ['n', 'u', 'l', 'l']
  | .bool true => ['t', 'r', 'u', 'e']
  | .bool false => ['f', 'a', 'l', 's', 'e']
  | .int n => Text.Decimal.ofInt n
  | .float x => writtenFloat x
  | .string t => writtenText layout.ascii t
  | .list [] => ['[', ']']
  | .list (item :: rest) =>
    '[' :: layout.newline (depth + 1) ++ item.writtenAt layout (depth + 1)
      ++ writtenItems layout (depth + 1) rest ++ layout.newline depth ++ [']']
  | .table [] => ['\x7b', '\x7d']
  | .table ((key, value) :: rest) =>
    '\x7b' :: layout.newline (depth + 1) ++ writtenText layout.ascii key ++ [':', ' ']
      ++ value.writtenAt layout (depth + 1)
      ++ writtenEntries layout (depth + 1) rest ++ layout.newline depth ++ ['\x7d']

/-- The items after the first. -/
def writtenItems (layout : Layout) (depth : Nat) : List Json → Text
  | [] => []
  | item :: rest =>
    layout.comma depth ++ item.writtenAt layout depth ++ writtenItems layout depth rest

/-- The entries after the first. -/
def writtenEntries (layout : Layout) (depth : Nat) : List (Text × Json) → Text
  | [] => []
  | (key, value) :: rest =>
    layout.comma depth ++ writtenText layout.ascii key ++ [':', ' ']
      ++ value.writtenAt layout depth ++ writtenEntries layout depth rest

end

/-- The written form of a value. -/
def written (layout : Layout) (value : Json) : Text := value.writtenAt layout 0

end Asciidoc.Json
