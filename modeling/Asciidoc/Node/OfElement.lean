import Asciidoc.Element.Basic
import Asciidoc.Node.Basic
import Asciidoc.Rules
import Asciidoc.Span.Finder

/-!
# Nodes of elements

An element becomes nodes by having its text found in the source. The search for an element goes
through a window: in any run of siblings it starts at the sibling's own line and ends at the line
of the next, so that a text that comes more than once is found where it belongs. A missing hint
leaves the bound of the enclosing window.

An element whose text is not found becomes nothing, and neither does what is inside it; a
container left without children becomes nothing too. What is lost is told in `Loss`, in the order
in which it was searched for. Sections are flattened: their title is followed by their blocks.
Compound blocks leave their children to their parent.

Cells of a row are searched from left to right: a cell that starts on the line where the last one
found ended is searched from the column after that. The other elements start at the first column
of their line.
-/

namespace Asciidoc

open Text

/-- What is lost of a document, and why. -/
inductive Loss where
  /-- The text of an element was not found in the lines of a window. -/
  | notFound (kind : Text) (line : Hint) (minLine maxLine : Int)
  /-- There are no nodes for elements of a kind. -/
  | noNodes (kind : Text) (line : Hint)
  /-- Nothing in a cell was found. -/
  | emptyCell (line : Hint)
  /-- A line had to be held against a comment marker that is no text. -/
  | markerNotText
deriving DecidableEq, Repr

/-- An element in the wording of a loss. -/
def Loss.describe (kind : Text) (line : Hint) : Text :=
  kind ++ " element".toList ++
    match line with
    | some n => " on line ".toList ++ Decimal.ofInt n
    | none => []

/-- The wording of a loss. -/
def Loss.message : Loss → Text
  | .notFound kind line minLine maxLine =>
    "Dropping ".toList ++ describe kind line ++ ": text not found in lines ".toList
      ++ Decimal.ofInt minLine ++ '-' :: Decimal.ofInt maxLine
  | .noNodes kind line => "No conversion for ".toList ++ describe kind line
  | .emptyCell line =>
    "Dropping ".toList ++ describe "table_cell".toList line ++ ": no located content".toList
  | .markerNotText => []

/-- What elements became. -/
structure Converted where
  /-- The nodes, in the order of the elements. -/
  nodes : List (Node Text) := []
  /-- What was lost, in the order of the search. -/
  losses : List Loss := []

/-- What two runs of elements became together. -/
def Converted.append (a b : Converted) : Converted := ⟨a.nodes ++ b.nodes, a.losses ++ b.losses⟩

instance : Append Converted := ⟨Converted.append⟩

/-- What text is located by. -/
structure Locating where
  /-- The text. -/
  source : Source
  /-- What comment lines start with. -/
  marker : Marker := .text Marker.slashes
  /-- Whether header rows become nodes. -/
  includeTableHeader : Bool := false

namespace Locating

/-- The location of the lines of an element, or the loss of it. -/
def find (env : Locating) (kind : Text) (line : Hint) (expected : List Text) (w : Window) :
    Except Loss Location :=
  if env.marker = .unusable ∧ env.source.needsMarker expected w then .error .markerNotText
  else
    match env.source.find? env.marker.textD expected w with
    | some loc => .ok loc
    | none => .error (.notFound kind line w.minLine w.maxLine)

/-- A node at a location, with the source text it covers if it has a form of its own. -/
def node? (env : Locating) (kind : Node.Kind Text) (loc : Location) (children : List (Node Text)) :
    Option (Node Text) :=
  (env.source.range? loc).map fun range =>
    .mk kind loc range (if kind.isSynthetic then none else some (env.source.slice range)) children

/-- A node from its first child to its last, if it has children. -/
def around? (env : Locating) (kind : Node.Kind Text) (children : List (Node Text)) :
    Option (Node Text) :=
  match children.head?, children.getLast? with
  | some first, some last => env.node? kind ⟨first.loc.start, last.loc.stop⟩ children
  | _, _ => none

/-- A container around what elements became. -/
def gather (env : Locating) (kind : Node.Kind Text) (inside : Converted) : Converted :=
  ⟨(env.around? kind inside.nodes).toList, inside.losses⟩

/-- A node around a piece of text, both where the text is found. -/
def textNode (env : Locating) (outer : Node.Kind Text) (kind : Text) (line : Hint) (value : Text)
    (expected : List Text) (w : Window) : Converted :=
  match env.find kind line expected w with
  | .error loss => ⟨[], [loss]⟩
  | .ok loc =>
    ⟨((env.node? (.str value) loc []).bind fun leaf => env.node? outer loc [leaf]).toList, []⟩

/-- A title. -/
def titled (env : Locating) (kind : Text) (line : Hint) (title : Text) (depth : Int) (w : Window) :
    Converted :=
  env.textNode (.header depth) kind line title [title] w

/-- A paragraph of a text that may have several lines. -/
def paragraph (env : Locating) (kind : Text) (line : Hint) (value : Text) (w : Window) :
    Converted :=
  env.textNode .paragraph kind line value value.lines w

/-- A listing; comment lines are part of it. -/
def listing (env : Locating) (line : Hint) (lines : List Text) (language : Option Text)
    (w : Window) : Converted :=
  match env.find "listing".toList line lines { w with skipComments := false } with
  | .error loss => ⟨[], [loss]⟩
  | .ok loc => ⟨(env.node? (.codeBlock language (unlines lines)) loc []).toList, []⟩

/-- The text of a list item, if it has one. -/
def itemText (env : Locating) (line : Hint) (text : Option Text) (w : Window) : Converted :=
  match text with
  | some (c :: rest) => env.paragraph "list_item".toList line (c :: rest) w
  | _ => {}

/-- An item around its text and its blocks, in the order in which they start. -/
def itemAround (env : Locating) (inside : Converted) : Converted :=
  env.gather .listItem
    ⟨inside.nodes.mergeSort fun a b => a.range.start ≤ b.range.start, inside.losses⟩

/-- The window of a cell: from its line on, and on the line where the last cell ended from the
column where it ended. -/
def cellWindow (w : Window) (line : Hint) (last : Option Position) : Window :=
  let w := w.narrowed line none
  match last with
  | some p => { w with startColumn := if p.line = w.minLine then p.column else 0 }
  | none => { w with startColumn := 0 }

/-- A cell around what it holds, or the loss of it. -/
def cellAround (env : Locating) (line : Hint) (inside : Converted) : Converted :=
  if inside.nodes.isEmpty then ⟨[], inside.losses ++ [.emptyCell line]⟩
  else env.gather .tableCell inside

mutual

/-- What an element becomes. -/
def convert (env : Locating) (w : Window) : Element → Converted
  | .document _ header blocks _ _ =>
    let title : Converted :=
      match header with
      | some t => env.titled "header".toList t.line t.title 1 (w.narrowed t.line none)
      | none => {}
    env.gather .document (title ++ convertAll env w none blocks)
  | .sectionBlock line title level blocks =>
    let first := env.titled "section".toList line title (level + 1) w
    if first.nodes.isEmpty then first else first ++ convertAll env w none blocks
  | .paragraph line lines =>
    if lines.isEmpty then {} else env.paragraph "paragraph".toList line (unlines lines) w
  | .literal line lines =>
    if lines.isEmpty then {} else env.paragraph "literal".toList line (unlines lines) w
  | .listing line lines language => env.listing line lines language w
  | .unorderedList _ _ items => env.gather .list (convertAll env w none items)
  | .orderedList _ _ items => env.gather .list (convertAll env w none items)
  | .item line text _ blocks =>
    env.itemAround (env.itemText line text w ++ convertAll env w none blocks)
  | .descriptionList _ _ entries => env.gather .list (convertEntries env w entries)
  | .quoteBlock _ blocks => env.gather .blockQuote (convertAll env w none blocks)
  | .compound _ _ blocks => convertAll env w none blocks
  | .table _ headerRows bodyRows =>
    let body := convertRows env w bodyRows
    env.gather .table
      (if env.includeTableHeader then convertRows env w headerRows ++ body else body)
  | .header title => ⟨[], [.noNodes "header".toList title.line]⟩
  | .cell line _ _ _ _ => ⟨[], [.noNodes "table_cell".toList line]⟩
  | .unsupported line kind => ⟨[], [.noNodes (Element.unsupported line kind).kindName line]⟩
  | .bare line => ⟨[], [.noNodes "element".toList line]⟩

/-- What siblings become; `next` is the line of what comes after them. -/
def convertAll (env : Locating) (w : Window) (next : Hint) : List Element → Converted
  | [] => {}
  | e :: rest =>
    let following := match rest with
      | [] => next
      | other :: _ => other.line
    convert env (w.narrowed e.line following) e ++ convertAll env w next rest

/-- What an element becomes that may not be there. -/
def convertOption (env : Locating) (w : Window) (next : Hint) : Option Element → Converted
  | none => {}
  | some e => convert env (w.narrowed e.line next) e

/-- What the terms and descriptions of a description list become, as siblings. -/
def convertEntries (env : Locating) (w : Window) : List (Entry Element) → Converted
  | [] => {}
  | ⟨terms, description⟩ :: rest =>
    let next : Hint := (rest.flatMap Entry.items).head?.bind Element.line
    let afterTerms : Hint := match description with
      | some d => d.line
      | none => next
    convertAll env w afterTerms terms ++ convertOption env w next description
      ++ convertEntries env w rest

/-- What rows become. A row is searched from the line of its first cell. -/
def convertRows (env : Locating) (w : Window) : List (List Element) → Converted
  | [] => {}
  | row :: rest =>
    env.gather .tableRow
      (convertRow env (w.narrowed (row.head?.bind Element.line) none) none row)
      ++ convertRows env w rest

/-- What the cells of a row become; `last` is where the last one found ended. -/
def convertRow (env : Locating) (w : Window) (last : Option Position) :
    List Element → Converted
  | [] => {}
  | cell :: rest =>
    let first := convertCell env (cellWindow w cell.line last) cell
    let reached := (first.nodes.getLast?.map fun n => n.loc.stop).orElse fun _ => last
    first ++ convertRow env w reached rest

/-- What a cell becomes. -/
def convertCell (env : Locating) (w : Window) : Element → Converted
  | .cell line text style inner _ =>
    if style = some Element.asciidocStyle then
      env.cellAround line (convertInner env { w with startColumn := 0 } inner)
    else env.textNode .tableCell "table_cell".toList line text text.lines w
  | e => ⟨[], [.noNodes e.kindName e.line]⟩

/-- What the blocks of the document in a cell become. -/
def convertInner (env : Locating) (w : Window) : Option Element → Converted
  | none => {}
  | some e => convertBlocks env w e

/-- What the blocks of a document become. -/
def convertBlocks (env : Locating) (w : Window) : Element → Converted
  | .document _ _ blocks _ _ => convertAll env w none blocks
  | _ => {}

end

/-- The document that an element becomes; the empty one if it becomes nothing or something
else. -/
def document (env : Locating) (skipComments : Bool) (e : Element) : Node Text × List Loss :=
  let w : Window := { minLine := 1, maxLine := env.source.count, skipComments := skipComments }
  let converted := env.convert w e
  (match converted.nodes with
    | n :: _ => if n.kind.isDocument then n else Node.emptyDocument
    | [] => Node.emptyDocument, converted.losses)

end Locating

end Asciidoc
