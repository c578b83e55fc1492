import Asciidoc.Element.Lines
import Asciidoc.Table.Cells

/-!
# Reading blocks

The reader of blocks takes classified lines to elements. Each function takes the line a block
starts with and the place after it, and comes back with a place that has at most as many unread
lines: `Reached.within` says so, and that is what the recursion ends by. A run of blocks asks
for a block only when it has a line to give, so every block takes at least one line.

Three things are decided here and nowhere else.

* A heading ends the sections of its level and below. Inside a delimited block it starts none.
* A list line belongs to the innermost list with its marker; a marker that no enclosing list has
  starts a list inside the item before. Blank lines and comments between are passed over.
* A table cell in AsciiDoc style is a document of its own, read from the lines of the cell.

What is said about a block is used up by that block, also when it makes nothing of it.
-/

namespace Asciidoc

open Text

/-- What the reader of blocks goes by. -/
structure Reading where
  /-- The choices. -/
  rules : Rules.Reading := {}
  /-- What comment lines start with, for the lines of cells. -/
  marker : Text := Marker.slashes
deriving DecidableEq, Repr

/-- A list from its first line and its items. -/
def listOf (first : Token) (items : List Element) : Element :=
  match first.kind with
  | .orderedItem marker => .orderedList (some first.line) marker items
  | .unorderedItem marker _ => .unorderedList (some first.line) marker items
  | _ => .unorderedList (some first.line) [] items

/-- A list item from its first line, the lines that go on with it and the blocks attached. -/
def itemOf (first : Token) (more : List Token) (blocks : List Element) : Element :=
  let checked :=
    match first.kind with
    | .unorderedItem _ checked => checked
    | _ => none
  .item (some first.line) (some (unlines (first.content :: more.map (·.content)))) checked blocks

/-- A term of a description list from its line. -/
def termOf (t : Token) : Element := .item (some t.line) (some t.content) none []

/-- A description from the lines of its text, with their numbers, and the blocks attached. -/
def descriptionOf (lines : List (Int × Text)) (blocks : List Element) : Option Element :=
  match lines, blocks with
  | [], [] => none
  | [], first :: rest => some (.item first.line none none (first :: rest))
  | (line, _) :: _, _ => some (.item (some line) (some (unlines (lines.map (·.2)))) none blocks)

/-- Whether a line is a heading at a level or above. -/
def Token.endsSection (level : Int) (t : Token) : Bool :=
  match t.kind with
  | .heading n => decide ((n : Int) ≤ level)
  | _ => false

/-- The remarks on digits that are read as numbers. -/
def numeralRemarks (place : Place) (numerals : List Text) : List Remark :=
  if numerals.any fun digits => Digit.longest < digits.length then
    [.fault .numeralTooLong place]
  else []

/-- A cell that was read, with what was met inside it. -/
structure CellRead where
  /-- The number of columns it spans and the cell. -/
  cell : Nat × Element
  /-- The remarks on its columns and its document. -/
  remarks : List Remark := []

/-- A table from its opening line, its body and its cells, and the place after it. -/
def Cursor.closeTable (c : Cursor) (rules : Rules.Reading) (attributes : BlockAttributes)
    (opening : Token) (body : List Token) (columns : Nat) (cells : List CellRead) :
    Reached c.size Element :=
  let rows := Table.rows columns (cells.map (·.cell))
  let told := c.remark (cells.flatMap (·.remarks))
  ⟨tableOf rules attributes opening body rows.1,
    if rows.2.isEmpty then told else told.notice (.incompleteRow rows.2.length opening.line), by
      split <;> exact Nat.le_refl _⟩

/-- Past the text lines that go on with an item. -/
def Cursor.pastText (c : Cursor) : Cursor := c.moveTo (itemSpan c.unread).2

theorem Cursor.size_pastText_le (c : Cursor) : c.pastText.size ≤ c.size :=
  length_itemSpan_le c.unread

/-- Where a description starts, given the line after its first term: after its last term, and
if that says nothing yet, after blank lines too. -/
def Cursor.pastTerms (c : Cursor) (delimiter : Text) (first : Token) (description : Text) :
    Cursor :=
  let span := termSpan delimiter first description c.unread
  if span.2.1.isEmpty then (c.moveTo span.2.2).skipBlank else c.moveTo span.2.2

theorem Cursor.size_pastTerms_le (c : Cursor) (delimiter : Text) (first : Token)
    (description : Text) : (c.pastTerms delimiter first description).size ≤ c.size := by
  have hspan := length_termSpan_le delimiter first description c.unread
  rw [Cursor.pastTerms]
  split
  · exact Nat.le_trans (Cursor.size_skipBlank_le _) hspan
  · exact hspan

/-- An entry from the place after its first term and the blocks attached to its description. -/
def Cursor.entryOf (c : Cursor) (delimiter : Text) (first : Token) (description : Text)
    (blocks : List Element) : Entry Element :=
  let span := termSpan delimiter first description c.unread
  let start :=
    if span.2.1.isEmpty then [] else [((span.1.getLastD first).line, span.2.1)]
  let more := (itemSpan (c.pastTerms delimiter first description).unread).1
  ⟨span.1.map termOf, descriptionOf (start ++ more.map fun t => (t.line, t.content)) blocks⟩

/-- Past the lines of a table and its closing delimiter. -/
def Cursor.pastTable (c : Cursor) (opening : Token) : Cursor :=
  let span := tableSpan opening.content c.unread
  if span.2.2 then c.moveTo span.2.1 else (c.moveTo span.2.1).notice (.unclosedTable opening.line)

theorem Cursor.size_pastTable_le (c : Cursor) (opening : Token) :
    (c.pastTable opening).size ≤ c.size := by
  have hspan := length_tableSpan_le opening.content c.unread
  rw [Cursor.pastTable]
  split <;> exact hspan.2

/-- The place before the lines of a cell. -/
def Cursor.ofCell (marker : Text) (attributes : List (Text × Text)) (p : Table.PendingCell) :
    Cursor :=
  { unread := (Tokens.ofLines marker p.content).list, attributes := attributes }

theorem Cursor.size_ofCell (marker : Text) (attributes : List (Text × Text))
    (p : Table.PendingCell) : (Cursor.ofCell marker attributes p).size = p.content.length := by
  simp [Cursor.ofCell, Cursor.size, Tokens.ofLines]

namespace Reading

mutual

/-- Reads blocks to the end, to the delimiter that closes them, or to a heading of a level. -/
def blocks (env : Reading) (inList : Bool) (level : Int) (closing : Option Text) (c : Cursor) :
    Reached c.size (List Element) :=
  have hskip := c.size_skipBlank_le
  match h : c.skipBlank.unread with
  | [] =>
    match closing with
    | none => ⟨[], c.skipBlank, hskip⟩
    | some delimiter => ⟨[], c.skipBlank.notice (.unclosedBlock delimiter), hskip⟩
  | t :: rest =>
    have hrest := Cursor.length_lt_of_skipBlank h
    if closing = some t.content ∧ t.isDelimiter then
      ⟨[], c.skipBlank.moveTo rest, Nat.le_of_lt hrest⟩
    else if closing = none ∧ t.endsSection level then ⟨[], c.skipBlank, hskip⟩
    else
      let ⟨first, next, within⟩ := block env inList closing.isSome t (c.skipBlank.moveTo rest)
      have hnext : next.size < c.size := Nat.lt_of_le_of_lt within hrest
      ((blocks env inList level closing next).map (first.toList ++ ·)).widen (Nat.le_of_lt hnext)
termination_by 8 * c.size + 1
decreasing_by all_goals (simp only [Cursor.size_moveTo] at *; omega)

/-- Reads the block that a line starts. Lines that only say something about the block after
them, and comment blocks, make no element. -/
def block (env : Reading) (inList inDelimited : Bool) (t : Token) (c : Cursor) :
    Reached c.size (Option Element) :=
  match t.kind with
  | .attribute value unset => ⟨none, c.record t.content value unset, Nat.le_refl _⟩
  | .blockAttribute => ⟨none, c.addPending t, Nat.le_refl _⟩
  | .anchor => ⟨none, c.namePending BlockAttributes.identifierKey t.content, Nat.le_refl _⟩
  | .blockTitle => ⟨none, c.namePending BlockAttributes.titleKey t.content, Nat.le_refl _⟩
  | .heading level => (sectionAt env inList inDelimited level t c).map some
  | .unorderedItem marker _ => (list env [] marker t c).map some
  | .orderedItem marker => (list env [] marker t c).map some
  | .term delimiter description => (descriptionList env [] delimiter description t c).map some
  | .blockDelimiter frame => framed env (some frame) t c
  | .openDelimiter => framed env none t c
  | .fence language => (c.fenced t.line language).map some
  | .tableDelimiter => (table env t c).map some
  | .thematicBreak =>
    ⟨some (.unsupported (some t.line) "thematic_break".toList), c.clearPending, Nat.le_refl _⟩
  | .pageBreak =>
    ⟨some (.unsupported (some t.line) "page_break".toList), c.clearPending, Nat.le_refl _⟩
  | .blockImage =>
    ⟨some (.unsupported (some t.line) "image".toList), c.clearPending, Nat.le_refl _⟩
  | .continuation | .comment | .blank | .text => c.paragraph env.rules inList t
termination_by 8 * c.size + 6
decreasing_by all_goals omega

/-- Reads a heading and, unless it stands on its own, the blocks of its section. -/
def sectionAt (env : Reading) (inList inDelimited : Bool) (level : Nat) (t : Token) (c : Cursor) :
    Reached c.size Element :=
  let style := c.pending.style
  if inDelimited || style = "discrete".toList || style = "float".toList then
    ⟨.sectionBlock (some t.line) t.content level [], c.clearPending, Nat.le_refl _⟩
  else
    (blocks env inList level none c.clearPending).map
      fun bs => .sectionBlock (some t.line) t.content level bs
termination_by 8 * c.size + 5
decreasing_by simp only [Cursor.size_clearPending]; omega

/-- Reads the block that a delimiter opens. Paragraphs in it are not the text of a list item. -/
def framed (env : Reading) (frame : Option Frame) (opening : Token) (c : Cursor) :
    Reached c.size (Option Element) :=
  match c.framedLines? frame opening with
  | some lines => lines
  | none =>
    (blocks env false (-1) (some opening.content) c.clearPending).map
      fun bs => some (framedBlocks env.rules c.pending frame opening bs)
termination_by 8 * c.size + 5
decreasing_by simp only [Cursor.size_clearPending]; omega

/-- Reads a list from its first line; `enclosing` are the markers of the lists around it. -/
def list (env : Reading) (enclosing : List Text) (marker : Text) (first : Token) (c : Cursor) :
    Reached c.size Element :=
  (items env (enclosing ++ [marker]) marker first c.clearPending).map (listOf first)
termination_by 8 * c.size + 5
decreasing_by simp only [Cursor.size_clearPending]; omega

/-- Reads an item and the items after it with the same marker. -/
def items (env : Reading) (scope : List Text) (marker : Text) (first : Token) (c : Cursor) :
    Reached c.size (List Element) :=
  let ⟨read, next, within⟩ := item env scope first c
  have hskip := next.size_skipBlank_le
  match h : next.skipBlank.unread with
  | [] => ⟨[read], next.skipBlank, Nat.le_trans hskip within⟩
  | t :: rest =>
    have hrest := Nat.lt_of_lt_of_le (Cursor.length_lt_of_skipBlank h) within
    if t.marker? = some marker then
      ((items env scope marker t (next.skipBlank.moveTo rest)).map (read :: ·)).widen
        (Nat.le_of_lt hrest)
    else ⟨[read], next.skipBlank, Nat.le_trans hskip within⟩
termination_by 8 * c.size + 4
decreasing_by
  · omega
  · simp only [Cursor.size_moveTo]; omega

/-- Reads an item: its line, the text lines after it and the blocks attached. -/
def item (env : Reading) (scope : List Text) (first : Token) (c : Cursor) :
    Reached c.size Element :=
  have hpast := c.size_pastText_le
  ((attached env scope c.pastText).map (itemOf first (itemSpan c.unread).1)).widen hpast
termination_by 8 * c.size + 3
decreasing_by omega

/-- Reads the blocks that belong to an item: those after a plus sign, and lists whose marker no
enclosing list has. -/
def attached (env : Reading) (scope : List Text) (c : Cursor) : Reached c.size (List Element) :=
  match h : c.unread with
  | [] => ⟨[], c, Nat.le_refl _⟩
  | t :: rest =>
    have hrest := Cursor.length_lt_size h
    if t.kind = .continuation then
      let ⟨first, next, within⟩ := attachedBlock env (c.moveTo rest)
      have hnext : next.size < c.size := Nat.lt_of_le_of_lt within hrest
      ((attached env scope next).map (first.toList ++ ·)).widen (Nat.le_of_lt hnext)
    else
      match hc : c.skipBlank.unread with
      | [] => ⟨[], c, Nat.le_refl _⟩
      | candidate :: after =>
        have hafter := Cursor.length_lt_of_skipBlank hc
        match candidate.marker?, candidate.kind with
        | some marker, _ =>
          if scope.contains marker then ⟨[], c, Nat.le_refl _⟩
          else
            let ⟨first, next, within⟩ := list env scope marker candidate (c.moveTo after)
            have hnext : next.size < c.size := Nat.lt_of_le_of_lt within hafter
            ((attached env scope next).map (first :: ·)).widen (Nat.le_of_lt hnext)
        | none, .term delimiter description =>
          if scope.contains delimiter then ⟨[], c, Nat.le_refl _⟩
          else
            let ⟨first, next, within⟩ :=
              descriptionList env scope delimiter description candidate (c.moveTo after)
            have hnext : next.size < c.size := Nat.lt_of_le_of_lt within hafter
            ((attached env scope next).map (first :: ·)).widen (Nat.le_of_lt hnext)
        | none, _ => ⟨[], c, Nat.le_refl _⟩
termination_by 8 * c.size + 2
decreasing_by all_goals (simp only [Cursor.size_moveTo] at *; omega)

/-- Reads the block after a plus sign together with the lines that say something about it; a
blank line or the end means there is none. -/
def attachedBlock (env : Reading) (c : Cursor) : Reached c.size (Option Element) :=
  match h : c.unread with
  | [] => ⟨none, c, Nat.le_refl _⟩
  | t :: rest =>
    have hrest := Cursor.length_lt_size h
    if t.kind = .blank then ⟨none, c, Nat.le_refl _⟩
    else
      let ⟨read, next, within⟩ := block env true false t (c.moveTo rest)
      have hnext : next.size < c.size := Nat.lt_of_le_of_lt within hrest
      if read.isNone ∧ t.isMetadata then (attachedBlock env next).widen (Nat.le_of_lt hnext)
      else ⟨read, next, Nat.le_of_lt hnext⟩
termination_by 8 * c.size + 2
decreasing_by all_goals (simp only [Cursor.size_moveTo] at *; omega)

/-- Reads a description list from its first line. -/
def descriptionList (env : Reading) (enclosing : List Text) (delimiter description : Text)
    (first : Token) (c : Cursor) : Reached c.size Element :=
  (entries env (enclosing ++ [delimiter]) delimiter description first c.clearPending).map
    fun es => .descriptionList (some first.line) delimiter es
termination_by 8 * c.size + 5
decreasing_by simp only [Cursor.size_clearPending]; omega

/-- Reads an entry and the entries after it with the same delimiter. -/
def entries (env : Reading) (scope : List Text) (delimiter description : Text) (first : Token)
    (c : Cursor) : Reached c.size (List (Entry Element)) :=
  let ⟨read, next, within⟩ := entry env scope delimiter description first c
  have hskip := next.size_skipBlank_le
  match h : next.skipBlank.unread with
  | [] => ⟨[read], next.skipBlank, Nat.le_trans hskip within⟩
  | t :: rest =>
    have hrest := Nat.lt_of_lt_of_le (Cursor.length_lt_of_skipBlank h) within
    match t.description? delimiter with
    | some other =>
      ((entries env scope delimiter other t (next.skipBlank.moveTo rest)).map (read :: ·)).widen
        (Nat.le_of_lt hrest)
    | none => ⟨[read], next.skipBlank, Nat.le_trans hskip within⟩
termination_by 8 * c.size + 4
decreasing_by
  · omega
  · simp only [Cursor.size_moveTo]; omega

/-- Reads an entry: the terms that share a description, and the description. A description that
does not start on the line of its term may come after blank lines. -/
def entry (env : Reading) (scope : List Text) (delimiter description : Text) (first : Token)
    (c : Cursor) : Reached c.size (Entry Element) :=
  have hpast := Nat.le_trans (Cursor.size_pastText_le _)
    (c.size_pastTerms_le delimiter first description)
  ((attached env scope (c.pastTerms delimiter first description).pastText).map
    (c.entryOf delimiter first description)).widen hpast
termination_by 8 * c.size + 3
decreasing_by omega

/-- Reads a table. -/
def table (env : Reading) (opening : Token) (c : Cursor) : Reached c.size Element :=
  have : (tableSpan opening.content c.unread).1.length ≤ c.size :=
    (length_tableSpan_le opening.content c.unread).1
  let body := (tableSpan opening.content c.unread).1
  let cols := (c.pending.value? "cols".toList).getD []
  let pending := Table.cells body
  let past := c.clearPending.pastTable opening
  let counted := past.remark (numeralRemarks past.toPlace (Table.columnNumerals cols pending))
  let read := (Table.cells (tableSpan opening.content c.unread).1).attach.map fun ⟨p, hp⟩ =>
    have := Table.length_lines_le (tableSpan opening.content c.unread).1 p hp
    cell env c.attributes p
  (counted.closeTable env.rules c.pending opening body (Table.columnCount cols pending)
    read).widen (c.clearPending.size_pastTable_le opening)
termination_by 8 * c.size + 5
decreasing_by omega

/-- Reads a cell, and in AsciiDoc style the document it holds. -/
def cell (env : Reading) (attributes : List (Text × Text)) (p : Table.PendingCell) : CellRead :=
  let start := Cursor.ofCell env.marker attributes p
  let remarks := numeralRemarks start.toPlace [p.spanDigits]
  let line : Hint := some p.line
  if p.isAsciidoc && !p.content.isEmpty then
    have := Table.length_content_le p
    have := Cursor.size_ofCell env.marker attributes p
    let inner := blocks env false (-1) none (Cursor.ofCell env.marker attributes p)
    let document : Element :=
      .document (some 1) none inner.value inner.cursor.attributes p.text
    ⟨(p.columns, .cell line p.text p.style (some document) p.columns),
      remarks ++ inner.cursor.remarks⟩
  else ⟨(p.columns, .cell line p.text p.style none p.columns), remarks⟩
termination_by 8 * p.lines.length + 2
decreasing_by omega

end

end Reading

end Asciidoc
