import Asciidoc.Json.Basic
import Asciidoc.Span.Basic

/-!
# Nodes: what a document becomes

A node says what a piece of a document is and exactly where it stands. The payload of a tree is
text in a tree that was converted, and any value in one that was read from the interchange
format; `Node.map` takes the one to the other. Nothing in the type keeps spans in order or
children inside their parents, so that a tree from outside can be told wrong.

Two orders of going through a tree are defined: `Node.preorder` goes down a node and then through
the subtrees of its children, and `Node.walk` keeps a stack of the nodes still to come.
-/

namespace Asciidoc

/-- What a node is, with the fields that go with it. -/
inductive Node.Kind (α : Type) where
  /-- A whole document. -/
  | document
  /-- A title with its depth, the first of which is 1. -/
  | header (depth : Int)
  | paragraph
  | list
  | listItem
  | blockQuote
  /-- A listing with its language and its content. -/
  | codeBlock (lang : Option α) (value : α)
  | table
  | tableRow
  | tableCell
  /-- A piece of text. -/
  | str (value : α)
deriving DecidableEq, Repr, BEq

/-- A node of a converted document. -/
inductive Node (α : Type) where
  /-- A node from what it is, where it stands, the source text it covers if it has a form of its
  own there, and its children. -/
  | mk (kind : Node.Kind α) (loc : Location) (range : Range) (raw : Option α)
      (children : List (Node α))
deriving BEq

namespace Node

/-- The tag of a kind. -/
def Kind.name {α : Type} : Kind α → String
  | .document => "Document"
  | .header _ => "Header"
  | .paragraph => "Paragraph"
  | .list => "List"
  | .listItem => "ListItem"
  | .blockQuote => "BlockQuote"
  | .codeBlock _ _ => "CodeBlock"
  | .table => "Table"
  | .tableRow => "TableRow"
  | .tableCell => "TableCell"
  | .str _ => "Str"

/-- The word for a kind in an outline. -/
def Kind.word {α : Type} : Kind α → String
  | .document => "document"
  | .header _ => "header"
  | .paragraph => "paragraph"
  | .list => "list"
  | .listItem => "list_item"
  | .blockQuote => "block_quote"
  | .codeBlock _ _ => "code_block"
  | .table => "table"
  | .tableRow => "table_row"
  | .tableCell => "table_cell"
  | .str _ => "str"

/-- Whether nodes of a kind are written without children. -/
def Kind.isLeaf {α : Type} : Kind α → Bool
  | .codeBlock _ _ | .str _ => true
  | _ => false

/-- Whether nodes of a kind hold together what has no form of its own in the source. -/
def Kind.isSynthetic {α : Type} : Kind α → Bool
  | .list | .listItem | .blockQuote | .table | .tableRow => true
  | _ => false

/-- Whether a kind is that of whole documents. -/
def Kind.isDocument {α : Type} : Kind α → Bool
  | .document => true
  | _ => false

/-- A kind with its texts changed. -/
def Kind.map {α β : Type} (f : α → β) : Kind α → Kind β
  | .document => .document
  | .header depth => .header depth
  | .paragraph => .paragraph
  | .list => .list
  | .listItem => .listItem
  | .blockQuote => .blockQuote
  | .codeBlock lang value => .codeBlock (lang.map f) (f value)
  | .table => .table
  | .tableRow => .tableRow
  | .tableCell => .tableCell
  | .str value => .str (f value)

/-- What a node is. -/
def kind {α : Type} : Node α → Kind α
  | .mk kind .. => kind

/-- Where a node stands. -/
def loc {α : Type} : Node α → Location
  | .mk _ loc .. => loc

/-- The offsets at which a node stands. -/
def range {α : Type} : Node α → Range
  | .mk _ _ range .. => range

/-- The source text a node covers. -/
def raw {α : Type} : Node α → Option α
  | .mk _ _ _ raw _ => raw

/-- The children of a node. -/
def children {α : Type} : Node α → List (Node α)
  | .mk _ _ _ _ children => children

/-- The tag of a node. -/
def name {α : Type} (n : Node α) : String := n.kind.name

mutual

/-- A tree with its texts changed. -/
def map {α β : Type} (f : α → β) : Node α → Node β
  | .mk kind loc range raw children =>
    .mk (kind.map f) loc range (raw.map f) (mapAll f children)

/-- Trees with their texts changed. -/
def mapAll {α β : Type} (f : α → β) : List (Node α) → List (Node β)
  | [] => []
  | n :: rest => n.map f :: mapAll f rest

end

/-- A tree of texts among trees of any values. -/
def ofTexts {κ : Type} (n : Node (List κ)) : Node (Json κ) := n.map Json.string

/-- What comes of a text in which nothing could be converted: a document without children at the
start of the text. -/
def emptyDocument : Node Text :=
  .mk .document ⟨Position.origin, Position.origin⟩ ⟨0, 0⟩ (some []) []

/-! ## Going through a tree -/

mutual

/-- A node and what is below it, each node before its children. -/
def preorder {α : Type} : Node α → List (Node α)
  | .mk kind loc range raw children =>
    .mk kind loc range raw children :: preorderAll children

/-- The nodes of trees, tree after tree. -/
def preorderAll {α : Type} : List (Node α) → List (Node α)
  | [] => []
  | n :: rest => n.preorder ++ preorderAll rest

end

mutual

/-- The number of nodes of a tree. -/
def size {α : Type} : Node α → Nat
  | .mk _ _ _ _ children => sizeAll children + 1

/-- The number of nodes of trees. -/
def sizeAll {α : Type} : List (Node α) → Nat
  | [] => 0
  | n :: rest => n.size + sizeAll rest

end

theorem sizeAll_append {α : Type} (xs ys : List (Node α)) :
    sizeAll (xs ++ ys) = sizeAll xs + sizeAll ys := by
  induction xs with
  | nil => simp [sizeAll]
  | cons x rest ih => simp [sizeAll, ih, Nat.add_assoc]

theorem size_eq {α : Type} (n : Node α) : n.size = sizeAll n.children + 1 := by
  cases n
  rfl

/-- The nodes reached from a stack of nodes: the top one, then those reached once its children
have taken its place. -/
def walkFrom {α : Type} : List (Node α) → List (Node α)
  | [] => []
  | n :: stack => n :: walkFrom (n.children ++ stack)
termination_by stack => sizeAll stack
decreasing_by
  rw [sizeAll_append, sizeAll, size_eq]
  omega

/-- A node and what is below it, by way of a stack. -/
def walk {α : Type} (n : Node α) : List (Node α) := walkFrom [n]

/-- The nodes with a tag. -/
def findAll {α : Type} (tag : Text) (n : Node α) : List (Node α) :=
  n.walk.filter fun m => m.name.toList == tag

/-- The values of the pieces of text. -/
def values {α : Type} (n : Node α) : List α :=
  n.walk.filterMap fun m =>
    match m.kind with
    | .str value => some value
    | _ => none

/-- The pieces of text joined, if they are texts. -/
def text? (joiner : Text) (n : Node Json) : Option Text :=
  (n.values.mapM Json.text?).map (Text.join joiner)

/-- One line a node: the word for its kind and its first offset. -/
def outline {α : Type} (n : Node α) : List Text :=
  n.preorder.map fun m => m.kind.word.toList ++ ' ' :: Text.Decimal.ofInt m.range.start

end Node

end Asciidoc
