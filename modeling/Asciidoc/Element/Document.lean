import Asciidoc.Element.OfTokens

/-!
# Reading documents

A document may start with a title line of level 0. Attribute entries, blank lines and comments
may come before it; up to two lines of text after it name the author and the revision and say
nothing to the tree; attribute entries after those still belong to the header. Without a title
line the document has no header, but the attribute entries before that are taken in all the
same.

Reading is total. A document with faults is refused on account of its first fault.
-/

namespace Asciidoc

open Text

/-- Takes in the attribute entries among lines. -/
def Cursor.recordAll (c : Cursor) (lines : List Token) : Cursor :=
  lines.foldl (fun c t =>
    match t.kind with
    | .attribute value unset => c.record t.content value unset
    | _ => c) c

/-- Past the lines before a title line, and the attribute entries among them taken in. -/
def Cursor.pastPreamble (c : Cursor) : Cursor :=
  let isPreamble : Token → Bool := fun t => t.isSkipped || t.isAttribute
  (c.recordAll (c.unread.takeWhile isPreamble)).moveTo (c.unread.dropWhile isPreamble)

/-- The lines without the first, if that is text. -/
def dropTextLine : List Token → List Token
  | [] => []
  | t :: rest => if t.kind = .text then rest else t :: rest

/-- Past the lines of the header after its title line. -/
def Cursor.pastTitle (c : Cursor) : Cursor :=
  let isEntry : Token → Bool := fun t => t.isAttribute || t.kind = .comment
  let unread := dropTextLine (dropTextLine c.unread)
  (c.recordAll (unread.takeWhile isEntry)).moveTo (unread.dropWhile isEntry)

/-- Reads the header of a document, if there is one. -/
def Cursor.header (c : Cursor) : Option Title × Cursor :=
  let start := c.pastPreamble
  match start.unread with
  | [] => (none, start)
  | t :: rest =>
    if t.kind = .heading 0 then (some ⟨some t.line, t.content, 0⟩, (start.moveTo rest).pastTitle)
    else (none, start)

/-- Reads a document to its end. -/
def Cursor.readDocument (c : Cursor) (env : Reading) (allowHeader : Bool) (source : Text) :
    Element × Cursor :=
  let (header, start) := if allowHeader then c.header else (none, c)
  let blocks := env.blocks false (-1) none start
  (.document (some 1) header blocks.value blocks.cursor.attributes source, blocks.cursor)

/-- What reading a document gives. -/
structure Loaded where
  /-- The document, or its first fault. -/
  document : Except Fault Element
  /-- What was worth telling, in order, up to that fault. -/
  notices : List Notice

/-- Reads numbered lines as a document. -/
def Element.ofLines (rules : Rules.Reading) (marker : Marker) (attributes : List (Text × Text))
    (allowHeader : Bool) (source : Text) (lines : List (Int × Text)) : Loaded :=
  match Tokens.ofLines? marker lines with
  | none => ⟨.error .markerNotText, []⟩
  | some tokens =>
    let start : Cursor := { unread := tokens.list, attributes := attributes }
    let (root, finish) := start.readDocument ⟨rules, marker.textD⟩ allowHeader source
    ⟨match finish.fault? with
      | none => .ok root
      | some (fault, _) => .error fault, finish.notices⟩

/-- Reads a text as a document. -/
def Element.ofText (rules : Rules.Reading) (marker : Marker) (t : Text) : Loaded :=
  Element.ofLines rules marker [] true t (Tokens.numbered t)

/-! ## Block by block -/

/-- One block of lines that are read block by block, with what is known after it. -/
structure ReadBlock where
  /-- The line it starts with. -/
  start : Token
  /-- What the line or lines made. -/
  element : Option Element
  /-- The place after it. -/
  cursor : Cursor

/-- The blocks of lines, each with the place after it, without a header; a block with a fault
is the last and gives its fault with the place of it. -/
def Cursor.steps (c : Cursor) (env : Reading) : List (Except (Fault × Place) ReadBlock) :=
  match h : c.skipBlank.unread with
  | [] => []
  | t :: rest =>
    have hrest := Cursor.length_lt_of_skipBlank h
    let ⟨element, next, within⟩ := env.block false false t (c.skipBlank.moveTo rest)
    have _shorter : next.size < c.size := Nat.lt_of_le_of_lt within hrest
    match next.fault? with
    | none => .ok ⟨t, element, next⟩ :: next.steps env
    | some fault => [.error fault]
termination_by c.size

end Asciidoc
