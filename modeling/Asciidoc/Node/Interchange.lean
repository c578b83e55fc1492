import Asciidoc.Json.Reading
import Asciidoc.Json.Written
import Asciidoc.Node.Basic
import Asciidoc.Text.Numeral

/-!
# Trees in the interchange format

A node is a table: its tag under `type`, the fields of its kind, its children unless it is a leaf
kind, its location, its range and its source text. `Node.encode` makes that table and
`Node.decode` reads it.

Reading goes through the fields in a fixed order and stops at the first fault: the tag, then the
location and the range up to the four numbers of the location, then the numbers of the range, the
children, and last the depth of a header. What is found under `raw`, `lang` and `value` is taken
as it is. A number may be given as any value that has a whole number in it: a truth value, a
floating-point number, which is truncated, or a numeral in a text.

Neither way depends on what the texts of a value are made of. A text of the format is read to a
tree whose texts may have surrogates (`Node.read`).
-/

namespace Asciidoc

open Text

section Values

variable {κ : Type}

/-- A table of named fields. -/
def Json.fields [CodePoints κ] (fs : List (String × Json κ)) : Json κ :=
  .table (fs.map fun (key, value) => (CodePoints.ofText key.toList, value))

/-- The value under a name in a table. -/
def Json.field? [DecidableEq κ] [CodePoints κ] (name : String) (entries : List (List κ × Json κ)) :
    Option (Json κ) :=
  Entries.find? (CodePoints.ofText name.toList) entries

/-- A value, or null. -/
def Json.orNull : Option (Json κ) → Json κ
  | some value => value
  | none => .null

/-- The value, unless it is null. -/
def Json.unlessNull : Json κ → Option (Json κ)
  | .null => none
  | value => some value

end Values

namespace Node

variable {κ : Type}

/-! ## Encoding -/

section Encoding

variable [CodePoints κ]

/-- A position as a table. -/
def encodePosition (p : Position) : Json κ :=
  .fields [("line", .int p.line), ("column", .int p.column)]

/-- A location as a table. -/
def encodeLocation (l : Location) : Json κ :=
  .fields [("start", encodePosition l.start), ("end", encodePosition l.stop)]

/-- The fields that go with a kind. -/
def encodeKind : Kind (Json κ) → List (String × Json κ)
  | .header depth => [("depth", .int depth)]
  | .codeBlock lang value => [("lang", .orNull lang), ("value", value)]
  | .str value => [("value", value)]
  | _ => []

mutual

/-- A tree as a value. -/
def encode : Node (Json κ) → Json κ
  | .mk kind loc range raw children =>
    .fields (("type", .ofString kind.name) :: encodeKind kind
      ++ (if kind.isLeaf then [] else [("children", .list (encodeAll children))])
      ++ [("loc", encodeLocation loc), ("range", .list [.int range.start, .int range.stop]),
        ("raw", .orNull raw)])

/-- Trees as values. -/
def encodeAll : List (Node (Json κ)) → List (Json κ)
  | [] => []
  | n :: rest => n.encode :: encodeAll rest

end

end Encoding

/-- The layout that an indentation asks for; none is one line, and one below zero is zero. -/
def layout (indent : Option Int) (ascii : Bool) : Json.Layout := ⟨indent.map Int.toNat, ascii⟩

/-- A tree as a text of the interchange format. -/
def written (indent : Option Int) (ascii : Bool) (n : Node Json) : Text :=
  Json.written (layout indent ascii) n.encode

/-- Trees of several files as one value: the tree itself if it is the only one, else a list of
tables of a path and a tree. -/
def encodeFiles : List (Text × Node Text) → Json
  | [(_, n)] => n.ofTexts.encode
  | files =>
    .list (files.map fun (path, n) =>
      .fields [("filePath", .string path), ("ast", n.ofTexts.encode)])

/-- Trees of several files as a text that a line feed ends. -/
def writtenFiles (indent : Option Int) (files : List (Text × Node Text)) : Text :=
  Json.written (layout indent false) (encodeFiles files) ++ ['\n']

/-! ## Decoding -/

/-- Why a value has no whole number in it. -/
inductive NumberFault where
  /-- It is of a type that never has. -/
  | wrongType
  /-- It is a text or a float that has none. -/
  | noNumber
  /-- It is infinite. -/
  | infinite
deriving DecidableEq, Repr

/-- Why a value is no tree. -/
inductive DecodeFault (κ : Type) where
  /-- The text is not in the interchange format. -/
  | notInterchange
  /-- A numeral of the text is too long to read. -/
  | numeralTooLong
  /-- The text holds something other than a table. -/
  | rootNotTable
  /-- A child is no table. -/
  | childNotTable
  /-- There is no such tag. -/
  | unknownTag (given : Json κ)
  /-- A key of the location or the range is missing. -/
  | missing (tag : String) (key : String)
  /-- The location or the range is not of the form it should be. -/
  | malformedSpan (tag : String)
  /-- The children are nothing that can be gone through. -/
  | childrenNotList
  /-- A number of the range, or the depth, is none; or a number of the location is infinite. -/
  | number (cause : NumberFault)

/-- The wording of a fault, where it has one of its own. -/
def DecodeFault.message? [CodePoints κ] : DecodeFault κ → Option Text
  | .notInterchange => some "Invalid JSON".toList
  | .rootNotTable => some "JSON root must be an object".toList
  | .unknownTag given => some ("Unknown node type: ".toList ++ given.shown)
  | .missing tag key =>
    some ("Malformed span on ".toList ++ tag.toList ++ " node: ".toList
      ++ Quoted.encode key.toList)
  | .malformedSpan tag => some ("Malformed span on ".toList ++ tag.toList ++ " node".toList)
  | _ => none

section Decoding

variable [DecidableEq κ] [CodePoints κ]

/-- The whole number in a value. -/
def wholeNumber : Json κ → Except NumberFault Int
  | .int n => .ok n
  | .bool b => .ok (if b then 1 else 0)
  | .float (.infinite _) => .error .infinite
  | .float x =>
    match x.truncate? with
    | some n => .ok n
    | none => .error .noNumber
  | .string t =>
    match (CodePoints.text? t).bind Numeral.read? with
    | some n => .ok n
    | none => .error .noNumber
  | .null | .list _ | .table _ => .error .wrongType

/-- A value of a table that belongs to the span of a node. -/
def spanField (tag key : String) : Json κ → Except (DecodeFault κ) (Json κ)
  | .table entries =>
    match Json.field? key entries with
    | some value => .ok value
    | none => .error (.missing tag key)
  | _ => .error (.malformedSpan tag)

/-- A number of a location. -/
def spanNumber (tag : String) (value : Json κ) : Except (DecodeFault κ) Int :=
  match wholeNumber value with
  | .ok n => .ok n
  | .error .infinite => .error (.number .infinite)
  | .error _ => .error (.malformedSpan tag)

/-- A position from a table. -/
def decodePosition (tag : String) (value : Json κ) : Except (DecodeFault κ) Position := do
  let line ← spanNumber tag (← spanField tag "line" value)
  let column ← spanNumber tag (← spanField tag "column" value)
  return ⟨line, column⟩

/-- The two values of a range: of a list of two, a text of two code points, or the keys of a
table of two. -/
def twoValues (tag : String) : Json κ → Except (DecodeFault κ) (Json κ × Json κ)
  | .list [a, b] => .ok (a, b)
  | .string [a, b] => .ok (.string [a], .string [b])
  | .table [(a, _), (b, _)] => .ok (.string a, .string b)
  | _ => .error (.malformedSpan tag)

/-- The kind of a tag, with the fields that need no check. -/
def kindOfTag? (entries : List (List κ × Json κ)) (tag : List κ) : Option (Kind (Json κ)) :=
  let value := (Json.field? "value" entries).getD (.string [])
  let kinds : List (Kind (Json κ)) := [
    .document, .header 1, .paragraph, .list, .listItem, .blockQuote,
    .codeBlock ((Json.field? "lang" entries).bind Json.unlessNull) value,
    .table, .tableRow, .tableCell, .str value]
  kinds.find? fun kind => CodePoints.ofText kind.name.toList == tag

/-- The kind of a table of a node. -/
def decodeKind (entries : List (List κ × Json κ)) : Except (DecodeFault κ) (Kind (Json κ)) :=
  let given := (Json.field? "type" entries).getD .null
  match given.text?.bind (kindOfTag? entries) with
  | some kind => .ok kind
  | none => .error (.unknownTag given)

/-- The location of a table of a node, and the two values of its range. -/
def decodeSpan (tag : String) (entries : List (List κ × Json κ)) :
    Except (DecodeFault κ) (Location × Json κ × Json κ) := do
  let table := Json.table entries
  let loc ← spanField tag "loc" table
  let (first, second) ← twoValues tag (← spanField tag "range" table)
  let start ← decodePosition tag (← spanField tag "start" loc)
  let stop ← decodePosition tag (← spanField tag "end" loc)
  return (⟨start, stop⟩, first, second)

/-- A node of a table from all but its children. -/
def decodeHead (entries : List (List κ × Json κ)) :
    Except (DecodeFault κ) (Kind (Json κ) × Location × Range × Option (Json κ)) := do
  let kind ← decodeKind entries
  let (loc, first, second) ← decodeSpan kind.name entries
  let start ← (wholeNumber first).mapError .number
  let stop ← (wholeNumber second).mapError .number
  return (kind, loc, ⟨start, stop⟩, (Json.field? "raw" entries).bind Json.unlessNull)

/-- The kind of a node with its depth, if it has one. -/
def decodeDepth (entries : List (List κ × Json κ)) :
    Kind (Json κ) → Except (DecodeFault κ) (Kind (Json κ))
  | .header _ =>
    match Json.field? "depth" entries with
    | none => .ok (.header 1)
    | some value => ((wholeNumber value).map .header).mapError .number
  | kind => .ok kind

/-- Whether the children given are none, or not to be gone through. Texts and tables that are
not empty hold texts, and those are no nodes. -/
def otherChildren : Json κ → Except (DecodeFault κ) Unit
  | .string [] | .table [] | .list [] => .ok ()
  | .string _ | .table _ | .list _ => .error .childNotTable
  | _ => .error .childrenNotList

mutual

/-- The tree that a value spells. -/
def decode : Json κ → Except (DecodeFault κ) (Node (Json κ))
  | .table entries => do
    let (kind, loc, range, raw) ← decodeHead entries
    let children ← decodeField entries
    let kind ← decodeDepth entries kind
    return .mk kind loc range raw children
  | _ => .error .childNotTable

/-- The trees under the key of the children. -/
def decodeField : List (List κ × Json κ) → Except (DecodeFault κ) (List (Node (Json κ)))
  | [] => .ok []
  | (key, value) :: rest =>
    if key = CodePoints.ofText "children".toList then
      match value with
      | .list items => decodeAll items
      | other => (otherChildren other).map fun _ => []
    else decodeField rest

/-- The trees that values spell. -/
def decodeAll : List (Json κ) → Except (DecodeFault κ) (List (Node (Json κ)))
  | [] => .ok []
  | value :: rest => do
    let n ← decode value
    let others ← decodeAll rest
    return n :: others

end

end Decoding

/-- The tree in a text of the interchange format. -/
def read (t : Text) : Except (DecodeFault CodePoint) (Node (Json CodePoint)) :=
  match Json.read t with
  | .error .malformed => .error .notInterchange
  | .error .tooLong => .error .numeralTooLong
  | .ok (.table entries) => decode (.table entries)
  | .ok _ => .error .rootNotTable

end Node

end Asciidoc
