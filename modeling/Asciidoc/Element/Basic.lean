import Asciidoc.Entries

/-!
# Elements: a document as the reader sees it

The element tree holds what a document says: sections, paragraphs, listings, lists, tables. An
element carries the text without list markers, checkboxes, labels and comment lines, and a hint
at the line it starts on. Where the text stands exactly is not known here; that is recovered by
`Asciidoc.Node.ofElement`.

A hint may be missing, and nothing in the type keeps the hints of a tree in order, so that
locating has to cope with any tree. A table cell in AsciiDoc style holds a document of its own.
-/

namespace Asciidoc

/-- The line an element starts on, if known. -/
abbrev Hint := Option Int

/-- The title line of a document. -/
structure Title where
  /-- The line it stands on. -/
  line : Hint := none
  /-- The title. -/
  title : Text := []
  /-- The level. -/
  level : Int := 0
deriving DecidableEq, Repr

/-- What a block whose children take its place is. -/
inductive Compound where
  /-- An admonition with its label. -/
  | admonition (label : Text)
  | example
  | sidebar
  | openBlock
  /-- One that is nothing in particular. -/
  | plain
deriving DecidableEq, Repr

/-- The terms of a description list that share a description, and the description. -/
structure Entry (α : Type) where
  /-- The terms, in order. -/
  terms : List α
  /-- The description they share. -/
  description : Option α

/-- An element of a document. -/
inductive Element where
  /-- A whole document, or the content of a table cell. -/
  | document (line : Hint) (header : Option Title) (blocks : List Element)
      (attributes : List (Text × Text)) (source : Text)
  /-- The title line of a document, as an element. -/
  | header (title : Title)
  /-- A title and the blocks that follow it. -/
  | sectionBlock (line : Hint) (title : Text) (level : Int) (blocks : List Element)
  /-- Lines of running text. -/
  | paragraph (line : Hint) (lines : List Text)
  /-- Lines whose blanks are kept. -/
  | literal (line : Hint) (lines : List Text)
  /-- Lines of code as written. -/
  | listing (line : Hint) (lines : List Text) (language : Option Text)
  /-- A list whose items share a marker. -/
  | unorderedList (line : Hint) (marker : Text) (items : List Element)
  /-- A numbered list. -/
  | orderedList (line : Hint) (marker : Text) (items : List Element)
  /-- An item of a list, a term or a description: a text and the blocks attached to it. -/
  | item (line : Hint) (text : Option Text) (checked : Option Bool) (blocks : List Element)
  /-- Terms and their descriptions. -/
  | descriptionList (line : Hint) (delimiter : Text) (entries : List (Entry Element))
  /-- Quoted blocks. -/
  | quoteBlock (line : Hint) (blocks : List Element)
  /-- A block whose children take its place. -/
  | compound (line : Hint) (kind : Compound) (blocks : List Element)
  /-- Rows of cells. -/
  | table (line : Hint) (headerRows bodyRows : List (List Element))
  /-- A cell: its text as written, and in AsciiDoc style what the text says. -/
  | cell (line : Hint) (text : Text) (style : Option Text) (inner : Option Element)
      (columns : Int)
  /-- A block with no place in the converted tree: a break, an image, passed-through lines. -/
  | unsupported (line : Hint) (kind : Text)
  /-- Nothing but a place. -/
  | bare (line : Hint)
deriving Inhabited

namespace Element

/-- The line an element starts on. -/
def line : Element → Hint
  | .document line .. | .sectionBlock line .. | .paragraph line .. | .literal line ..
  | .listing line .. | .unorderedList line .. | .orderedList line .. | .item line ..
  | .descriptionList line .. | .quoteBlock line .. | .compound line .. | .table line ..
  | .cell line .. | .unsupported line .. | .bare line => line
  | .header title => title.line

/-- The word for what an element is. -/
def context : Element → String
  | .document .. => "document"
  | .header .. => "header"
  | .sectionBlock .. => "section"
  | .paragraph .. => "paragraph"
  | .literal .. => "literal"
  | .listing .. => "listing"
  | .unorderedList .. => "ulist"
  | .orderedList .. => "olist"
  | .item .. => "list_item"
  | .descriptionList .. => "dlist"
  | .quoteBlock .. => "quote"
  | .compound _ (.admonition _) _ => "admonition"
  | .compound _ .example _ => "example"
  | .compound _ .sidebar _ => "sidebar"
  | .compound _ .openBlock _ => "open"
  | .compound _ .plain _ => "compound"
  | .table .. => "table"
  | .cell .. => "table_cell"
  | .unsupported .. => "unsupported"
  | .bare .. => "element"

/-- The kind of an unsupported block if it has one, else the word for the element. -/
def kindName : Element → Text
  | .unsupported _ (c :: kind) => c :: kind
  | e => e.context.toList

/-- The style of cells that hold a document. -/
def asciidocStyle : Text := "asciidoc".toList

end Element

/-- The items of description list entries in source order: each entry's terms, then its
description. -/
def Entry.items {α : Type} (e : Entry α) : List α := e.terms ++ e.description.toList

end Asciidoc
