import Asciidoc.Element.Basic
import Asciidoc.Node.Basic
import Asciidoc.Proofs.Token.InText

/-!
# The prose of a document

Prose is what a document says in running text: its title, the titles of its sections, the texts of
items, terms and descriptions, its paragraphs and its literal paragraphs. `Element.prose` lists it
in source order, with the kind of node that each piece is to become and the line it is reported
to start on.

Listings, literal blocks between delimiters and tables are no prose. The element of a literal
block does not say whether delimiters stood around it; the line it starts on does.
-/

namespace Asciidoc

open Text

/-- A piece of running text as the reader reports it. -/
structure Prose where
  /-- The kind of node that it is to become. -/
  kind : Node.Kind Text
  /-- The line it is reported to start on. -/
  line : Hint
  /-- The text. -/
  text : Text
  /-- Whether it is a paragraph whose lines are reported without their outer blanks. -/
  trimmed : Bool := false

/-- Whether a line opens a literal block. -/
def Source.opensLiteral (s : Source) (marker : Text) (line : Int) : Bool :=
  match s.line? line with
  | some text => (Token.ofLine marker line text).kind = .blockDelimiter .literal
  | none => false

/-- The prose of a document title. -/
def Title.prose (t : Title) : Prose := { kind := .header 1, line := t.line, text := t.title }

namespace Element

mutual

/-- The prose of an element, in source order. -/
def prose (s : Source) (marker : Text) : Element → List Prose
  | .document _ top blocks _ _ => (top.map Title.prose).toList ++ proseAll s marker blocks
  | .sectionBlock line title level blocks =>
    { kind := .header (level + 1), line := line, text := title } :: proseAll s marker blocks
  | .paragraph line lines =>
    [{ kind := .paragraph, line := line, text := unlines lines, trimmed := true }]
  | .literal line lines =>
    if line.any (s.opensLiteral marker) then []
    else [{ kind := .paragraph, line := line, text := unlines lines }]
  | .unorderedList _ _ items | .orderedList _ _ items => proseAll s marker items
  | .item line text _ blocks =>
    (text.map fun t => { kind := .paragraph, line := line, text := t : Prose }).toList
      ++ proseAll s marker blocks
  | .descriptionList _ _ entries => proseEntries s marker entries
  | .quoteBlock _ blocks | .compound _ _ blocks => proseAll s marker blocks
  | .listing .. | .table .. | .cell .. | .header _ | .unsupported .. | .bare _ => []

/-- The prose of siblings. -/
def proseAll (s : Source) (marker : Text) : List Element → List Prose
  | [] => []
  | e :: rest => e.prose s marker ++ proseAll s marker rest

/-- The prose of an element that may not be there. -/
def proseOption (s : Source) (marker : Text) : Option Element → List Prose
  | none => []
  | some e => e.prose s marker

/-- The prose of terms and descriptions. -/
def proseEntries (s : Source) (marker : Text) : List (Entry Element) → List Prose
  | [] => []
  | ⟨terms, description⟩ :: rest =>
    proseAll s marker terms ++ proseOption s marker description ++ proseEntries s marker rest

end

end Element

end Asciidoc
