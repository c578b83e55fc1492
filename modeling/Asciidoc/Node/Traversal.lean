import Asciidoc.Node.Basic

/-!
# Ways of going through a tree

A visitor has something to do at the nodes of each kind. A node accepts it by letting it do what it
does there and then sending it to the children, from left to right. What a visitor does may be any
effect: it may add to what is known, or stop with a failure.

A traversal gets by without recursion. It keeps a stack of the nodes still to come, whose top is its
last node, and goes on round by round: the top node is reached, and its children take its place in
reverse, so that the first of them is the new top.

Nodes are looked for by their tag (`Node.findAll`) or by their class. Every kind of nodes has a
class, and one class is that of all nodes.
-/

namespace Asciidoc.Node

/-! ## Visitors -/

/-- What a visitor does at the nodes of each kind. -/
structure Visitor (α : Type) (m : Type → Type) where
  document : Node α → m Unit
  header : Node α → m Unit
  paragraph : Node α → m Unit
  list : Node α → m Unit
  listItem : Node α → m Unit
  blockQuote : Node α → m Unit
  codeBlock : Node α → m Unit
  table : Node α → m Unit
  tableRow : Node α → m Unit
  tableCell : Node α → m Unit
  str : Node α → m Unit

section Accept

variable {α : Type} {m : Type → Type}

/-- What a visitor does at a node. -/
def Visitor.visit (v : Visitor α m) (n : Node α) : m Unit :=
  match n.kind with
  | .document => v.document n
  | .header _ => v.header n
  | .paragraph => v.paragraph n
  | .list => v.list n
  | .listItem => v.listItem n
  | .blockQuote => v.blockQuote n
  | .codeBlock _ _ => v.codeBlock n
  | .table => v.table n
  | .tableRow => v.tableRow n
  | .tableCell => v.tableCell n
  | .str _ => v.str n

variable [Monad m]

mutual

/-- Lets a visitor go through a tree. -/
def accept (v : Visitor α m) : Node α → m Unit
  | .mk kind loc range raw children => do
    v.visit (.mk kind loc range raw children)
    acceptAll v children

/-- Lets a visitor go through trees, one after the other. -/
def acceptAll (v : Visitor α m) : List (Node α) → m Unit
  | [] => pure ()
  | n :: rest => do
    n.accept v
    acceptAll v rest

end

end Accept

/-! ## Traversals -/

/-- A traversal under way. -/
structure Traversal (α : Type) where
  /-- The nodes still to come, with what is below them; the next one is the last. -/
  stack : List (Node α)
  /-- The nodes that have been reached. -/
  reached : List (Node α)

namespace Traversal

variable {α : Type}

/-- The traversal of a tree before its first round. -/
def start (n : Node α) : Traversal α := ⟨[n], []⟩

/-- A round of a traversal; none if it is at its end. -/
def step? (t : Traversal α) : Option (Traversal α) :=
  t.stack.getLast?.map fun n => ⟨t.stack.dropLast ++ n.children.reverse, t.reached ++ [n]⟩

/-- A number of rounds; none if the traversal comes to its end before. -/
def rounds? : Nat → Traversal α → Option (Traversal α)
  | 0, t => some t
  | k + 1, t => t.step?.bind (rounds? k)

end Traversal

/-! ## Classes -/

/-- A class of nodes. -/
inductive Class where
  /-- All nodes. -/
  | node
  | document
  | header
  | paragraph
  | list
  | listItem
  | blockQuote
  | codeBlock
  | table
  | tableRow
  | tableCell
  | str
deriving DecidableEq, Repr

/-- The class of the nodes of a kind. -/
def Class.ofKind {α : Type} : Kind α → Class
  | .document => .document
  | .header _ => .header
  | .paragraph => .paragraph
  | .list => .list
  | .listItem => .listItem
  | .blockQuote => .blockQuote
  | .codeBlock _ _ => .codeBlock
  | .table => .table
  | .tableRow => .tableRow
  | .tableCell => .tableCell
  | .str _ => .str

/-- The tag of a class. -/
def Class.name : Class → String
  | .node => "TxtNode"
  | .document => "Document"
  | .header => "Header"
  | .paragraph => "Paragraph"
  | .list => "List"
  | .listItem => "ListItem"
  | .blockQuote => "BlockQuote"
  | .codeBlock => "CodeBlock"
  | .table => "Table"
  | .tableRow => "TableRow"
  | .tableCell => "TableCell"
  | .str => "Str"

/-- Whether a node is of a class. -/
def Class.holds {α : Type} (c : Class) (n : Node α) : Bool :=
  c = .node || c = .ofKind n.kind

/-- The nodes of a class. -/
def findInstances {α : Type} (c : Class) (n : Node α) : List (Node α) := n.walk.filter c.holds

/-- The value of a piece of text. -/
def piece? {α : Type} (n : Node α) : Option α :=
  match n.kind with
  | .str value => some value
  | _ => none

end Asciidoc.Node
