import Asciidoc.Entries
import Asciidoc.Number.Binary64
import Asciidoc.Text.CodePoint

/-!
# Values of the interchange format

A value is what a JSON text, a configuration file or a host hands over: null, a truth value, a
whole number of any size, a binary floating-point number, a text, a list, or a table: keyed
entries in the order in which their keys first came. Its texts are made of characters, unless it
comes out of a JSON text, which may hold surrogates too.

`Json.shown` is how a value is quoted in a message, `Json.plain` how it is pasted into one. A value
with a whole number of more than `Text.Digit.longest` digits in it cannot be quoted.
-/

namespace Asciidoc

/-- A value of the interchange format, with texts of characters if nothing else is said. -/
inductive Json (κ : Type := Char) where
  | null
  | bool (b : Bool)
  | int (n : Int)
  | float (x : Binary64)
  | string (t : List κ)
  | list (items : List (Json κ))
  | table (entries : List (List κ × Json κ))
deriving Inhabited, BEq

namespace Json

variable {κ κ' : Type}

/-- A text given as a string literal. -/
def ofString [CodePoints κ] (s : String) : Json κ := .string (CodePoints.ofText s.toList)

/-- The text of a value that is one. -/
def text? : Json κ → Option (List κ)
  | .string t => some t
  | _ => none

/-- The truth value of a value that is one. -/
def bool? : Json → Option Bool
  | .bool b => some b
  | _ => none

/-- The entries of a table. -/
def entries? : Json → Option (List (Text × Json))
  | .table es => some es
  | _ => none

/-- Whether a value counts as true: null, false, the zeros and whatever is empty do not. -/
def truthy : Json κ → Bool
  | .null => false
  | .bool b => b
  | .int n => n ≠ 0
  | .float x => !x.isZero
  | .string t => !t.isEmpty
  | .list items => !items.isEmpty
  | .table entries => !entries.isEmpty

/-- The name of a value's type, as messages give it. -/
def typeName : Json → String
  | .null => "NoneType"
  | .bool _ => "bool"
  | .int _ => "int"
  | .float _ => "float"
  | .string _ => "str"
  | .list _ => "list"
  | .table _ => "dict"

mutual

/-- A value as a message quotes it. -/
def shown [CodePoints κ] : Json κ → Text
  | .null => "None".toList
  | .bool true => "True".toList
  | .bool false => "False".toList
  | .int n => Text.Decimal.ofInt n
  | .float x => x.toText
  | .string t => CodePoints.quoted t
  | .list items => '[' :: shownItems items ++ [']']
  | .table entries => '\x7b' :: shownEntries entries ++ ['\x7d']

/-- Quoted values with commas between them. -/
def shownItems [CodePoints κ] : List (Json κ) → Text
  | [] => []
  | [item] => item.shown
  | item :: rest => item.shown ++ [',', ' '] ++ shownItems rest

/-- Quoted entries with commas between them. -/
def shownEntries [CodePoints κ] : List (List κ × Json κ) → Text
  | [] => []
  | [(key, value)] => CodePoints.quoted key ++ [':', ' '] ++ value.shown
  | (key, value) :: rest =>
    CodePoints.quoted key ++ [':', ' '] ++ value.shown ++ [',', ' '] ++ shownEntries rest

end

mutual

/-- Whether a value can be quoted: no whole number in it has too many digits to be written. -/
def isQuotable : Json → Bool
  | .int n => (Text.Decimal.ofNat n.natAbs).length ≤ Text.Digit.longest
  | .list items => areQuotable items
  | .table entries => entriesAreQuotable entries
  | _ => true

/-- Whether values can be quoted. -/
def areQuotable : List Json → Bool
  | [] => true
  | item :: rest => item.isQuotable && areQuotable rest

/-- Whether entries can be quoted. -/
def entriesAreQuotable : List (Text × Json) → Bool
  | [] => true
  | (_, value) :: rest => value.isQuotable && entriesAreQuotable rest

end

/-- A value pasted into a message: a text as it is, anything else as it is quoted. -/
def plain : Json → Text
  | .string t => t
  | value => value.shown

/-- A text that is looked for as a value. -/
def isText [DecidableEq κ] [CodePoints κ] (t : Text) (value : Json κ) : Bool :=
  value.text? == some (CodePoints.ofText t)

/-! ## Values with other texts -/

mutual

/-- A value with its texts changed, those of its keys too. -/
def mapTexts (f : List κ → List κ') : Json κ → Json κ'
  | .null => .null
  | .bool b => .bool b
  | .int n => .int n
  | .float x => .float x
  | .string t => .string (f t)
  | .list items => .list (mapItems f items)
  | .table entries => .table (mapEntries f entries)

/-- Values with their texts changed. -/
def mapItems (f : List κ → List κ') : List (Json κ) → List (Json κ')
  | [] => []
  | item :: rest => item.mapTexts f :: mapItems f rest

/-- Entries with their texts changed. -/
def mapEntries (f : List κ → List κ') : List (List κ × Json κ) → List (List κ' × Json κ')
  | [] => []
  | (key, value) :: rest => (f key, value.mapTexts f) :: mapEntries f rest

end

/-- A value as terminals are shown it, with the escapes of surrogates in their place. -/
def displayed : Json CodePoint → Json := mapTexts fun t => t.flatMap CodePoint.shown

end Json

end Asciidoc
