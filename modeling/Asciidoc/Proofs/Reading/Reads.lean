import Asciidoc.Element.Document
import Asciidoc.Proofs.Table.Pieces

/-!
# What the reader of blocks can do

`Reads` says what reading a part of a document from a place can come to: one constructor for
each way in which a run of blocks, a block, a list, an item, an entry goes on or ends. It is
written over places and values alone, so the bounds that the reader carries for its own
termination do not appear, and a law about reading is an induction with named cases.

The reader is a run of the relation (`Reading.blocks_reads`), and what a block, a list or a cell
can be is taken from `Reads`. The recursion of the reader itself is unfolded only here and where
two of its runs are held against each other. The relation can be narrowed to runs that take certain lines only at certain
places; what is proved of all runs is proved for whatever is admitted.
-/

namespace Asciidoc

open Text

/-! ## Names for what single lines do -/

/-- The place after a line that only says something about the block after it. -/
def Cursor.described (c : Cursor) (t : Token) : Cursor :=
  match t.kind with
  | .attribute value unset => c.record t.content value unset
  | .blockAttribute => c.addPending t
  | .anchor => c.namePending BlockAttributes.identifierKey t.content
  | .blockTitle => c.namePending BlockAttributes.titleKey t.content
  | _ => c

/-- The kind of unsupported block that a line is by itself. -/
def Token.breakName? (t : Token) : Option Text :=
  match t.kind with
  | .thematicBreak => some "thematic_break".toList
  | .pageBreak => some "page_break".toList
  | .blockImage => some "image".toList
  | _ => none

/-- The frame that an opening delimiter names; two dashes name none. -/
def Token.opens? (t : Token) : Option (Option Frame) :=
  match t.kind with
  | .blockDelimiter frame => some (some frame)
  | .openDelimiter => some none
  | _ => none

/-- A line of a list is no term. -/
theorem Token.kind_ne_term {t : Token} {marker delimiter description : Text}
    (h : t.marker? = some marker) : t.kind ≠ .term delimiter description := by
  intro hk
  simp [Token.marker?, hk] at h

/-- A line that starts no other block starts a paragraph. -/
def Token.startsParagraph (t : Token) : Bool :=
  match t.kind with
  | .continuation | .comment | .blank | .text => true
  | _ => false

/-- Whether a cell holds a document that is read. -/
def Table.PendingCell.holdsDocument (p : Table.PendingCell) : Bool :=
  p.isAsciidoc && !p.content.isEmpty

/-- A cell, given what the blocks of its document are and the place after them. -/
def Reading.cellOf (env : Reading) (attributes : List (Text × Text)) (p : Table.PendingCell)
    (blocks : List Element) (after : Cursor) : CellRead :=
  let remarks := numeralRemarks (Cursor.ofCell env.marker attributes p).toPlace [p.spanDigits]
  if p.holdsDocument then
    ⟨(p.columns, .cell (some p.line) p.text p.style
        (some (.document (some 1) none blocks after.attributes p.text)) p.columns),
      remarks ++ after.remarks⟩
  else ⟨(p.columns, .cell (some p.line) p.text p.style none p.columns), remarks⟩

/-- The lines of the table that a delimiter opens. -/
def Cursor.tableBody (c : Cursor) (opening : Token) : List Token :=
  (tableSpan opening.content c.unread).1

/-- A table and the place after it, given its cells. -/
def Cursor.tableAt (c : Cursor) (env : Reading) (opening : Token) (cells : List CellRead) :
    Element × Cursor :=
  let body := c.tableBody opening
  let cols := (c.pending.value? "cols".toList).getD []
  let pending := Table.cells body
  let past := c.clearPending.pastTable opening
  let counted := past.remark (numeralRemarks past.toPlace (Table.columnNumerals cols pending))
  let closed := counted.closeTable env.rules c.pending opening body
    (Table.columnCount cols pending) cells
  (closed.value, closed.cursor)

/-- A table consists of the first of the cells that were read for it, in order. -/
theorem Cursor.tableAt_eq (c : Cursor) (env : Reading) (opening : Token) (cells : List CellRead) :
    ∃ headerRows bodyRows left,
      (c.tableAt env opening cells).1 = .table (some opening.line) headerRows bodyRows ∧
      (headerRows.flatten ++ bodyRows.flatten) ++ left = cells.map (·.cell.2) := by
  rw [tableAt]
  dsimp only [closeTable]
  generalize Table.columnCount _ _ = columns
  have hrows : (Table.rows columns (cells.map (·.cell))).1.flatten
      ++ (Table.rows columns (cells.map (·.cell))).2 = cells.map (·.cell.2) :=
    (Table.flatten_rowsFrom columns [] 0 _).trans List.map_map
  unfold tableOf
  split
  · rename_i hread
    rw [hread] at hrows
    exact ⟨[], [], _, rfl, hrows⟩
  · rename_i first rest hread
    rw [hread] at hrows
    split
    · exact ⟨[first], rest, _, rfl, by simpa using hrows⟩
    · exact ⟨[], first :: rest, _, rfl, hrows⟩

namespace Reading

/-! ## The parts of a document and how they are read -/

/-- A part of a document that is read at a place. -/
inductive Part where
  /-- Blocks up to the end, a closing delimiter or a heading of a level. -/
  | blocks (inList : Bool) (level : Int) (closing : Option Text)
  /-- The block that a line starts. -/
  | block (inList inDelimited : Bool) (first : Token)
  /-- A list from its first line, inside lists with some markers. -/
  | list (enclosing : List Text) (marker : Text) (first : Token)
  /-- An item and the items after it with the same marker. -/
  | items (scope : List Text) (marker : Text) (first : Token)
  /-- An item from its line. -/
  | item (scope : List Text) (first : Token)
  /-- The blocks that belong to an item. -/
  | attached (scope : List Text)
  /-- The block after a plus sign. -/
  | attachedBlock
  /-- A description list from its first line. -/
  | descriptionList (enclosing : List Text) (delimiter description : Text) (first : Token)
  /-- An entry and the entries after it with the same delimiter. -/
  | entries (scope : List Text) (delimiter description : Text) (first : Token)
  /-- An entry from its first term. -/
  | entry (scope : List Text) (delimiter description : Text) (first : Token)

/-- What reading a part gives. -/
@[reducible] def Part.Value : Part → Type
  | .blocks .. | .items .. | .attached .. => List Element
  | .block .. | .attachedBlock => Option Element
  | .list .. | .item .. | .descriptionList .. => Element
  | .entries .. => List (Entry Element)
  | .entry .. => Entry Element

/-- Reading a part at a place gives a value and ends at another place. Lines that say something
about the block after them and opening lines of tables, at which alone a fault can be met, are
read where they are admitted. -/
inductive Reads (env : Reading) (admits : Token → Cursor → Prop) :
    (part : Part) → Cursor → part.Value → Cursor → Prop where
  -- Runs of blocks.
  | blocksEnd {inList level closing c} (h : c.skipBlank.unread = []) :
    Reads env admits (.blocks inList level closing) c []
      (closing.elim c.skipBlank fun delimiter => c.skipBlank.notice (.unclosedBlock delimiter))
  | blocksClosed {inList level closing c t rest} (h : c.skipBlank.unread = t :: rest)
      (hclosing : closing = some t.content) (ht : t.isDelimiter = true) :
    Reads env admits (.blocks inList level closing) c [] (c.skipBlank.moveTo rest)
  | blocksHeading {inList level c t rest} (h : c.skipBlank.unread = t :: rest)
      (ht : t.endsSection level = true) :
    Reads env admits (.blocks inList level none) c [] c.skipBlank
  | blocksCons {inList level closing c t rest first next more last}
      (h : c.skipBlank.unread = t :: rest)
      (hclosed : ¬(closing = some t.content ∧ t.isDelimiter = true))
      (hheading : ¬(closing = none ∧ t.endsSection level = true))
      (hfirst : Reads env admits (.block inList closing.isSome t) (c.skipBlank.moveTo rest) first next)
      (hmore : Reads env admits (.blocks inList level closing) next more last) :
    Reads env admits (.blocks inList level closing) c (first.toList ++ more) last
  -- Single blocks.
  | metadata {inList inDelimited t c} (ht : t.isMetadata = true) (hadmits : admits t c) :
    Reads env admits (.block inList inDelimited t) c none (c.described t)
  | lineBreak {inList inDelimited t c name} (ht : t.breakName? = some name) :
    Reads env admits (.block inList inDelimited t) c (some (.unsupported (some t.line) name))
      c.clearPending
  | headingAlone {inList inDelimited t c} {level : Nat} (ht : t.kind = .heading level)
      (halone : inDelimited = true ∨ c.pending.style = "discrete".toList
        ∨ c.pending.style = "float".toList) :
    Reads env admits (.block inList inDelimited t) c
      (some (.sectionBlock (some t.line) t.content level [])) c.clearPending
  | heading {inList t c bs last} {level : Nat} (ht : t.kind = .heading level)
      (hblocks : Reads env admits (.blocks inList level none) c.clearPending bs last) :
    Reads env admits (.block inList false t) c (some (.sectionBlock (some t.line) t.content level bs)) last
  | listBlock {inList inDelimited t c marker e last} (ht : t.marker? = some marker)
      (hlist : Reads env admits (.list [] marker t) c e last) :
    Reads env admits (.block inList inDelimited t) c (some e) last
  | descriptionBlock {inList inDelimited t c delimiter description e last}
      (ht : t.kind = .term delimiter description)
      (hlist : Reads env admits (.descriptionList [] delimiter description t) c e last) :
    Reads env admits (.block inList inDelimited t) c (some e) last
  | framedLines {inList inDelimited t c frame r} (ht : t.opens? = some frame)
      (hlines : c.framedLines? frame t = some r) :
    Reads env admits (.block inList inDelimited t) c r.value r.cursor
  | framedBlocks {inList inDelimited t c frame bs last} (ht : t.opens? = some frame)
      (hlines : c.framedLines? frame t = none)
      (hblocks : Reads env admits (.blocks false (-1) (some t.content)) c.clearPending bs last) :
    Reads env admits (.block inList inDelimited t) c
      (some (Asciidoc.framedBlocks env.rules c.pending frame t bs)) last
  | fence {inList inDelimited t c language} (ht : t.kind = .fence language) :
    Reads env admits (.block inList inDelimited t) c (some (c.fenced t.line language).value)
      (c.fenced t.line language).cursor
  | table {inList inDelimited t c} {inner : Table.PendingCell → List Element}
      {after : Table.PendingCell → Cursor} (ht : t.kind = .tableDelimiter)
      (hadmits : admits t c)
      (hcells : ∀ p ∈ Table.cells (c.tableBody t), p.holdsDocument = true →
        Reads env admits (.blocks false (-1) none) (Cursor.ofCell env.marker c.attributes p) (inner p)
          (after p)) :
    Reads env admits (.block inList inDelimited t) c
      (some (c.tableAt env t ((Table.cells (c.tableBody t)).map fun p =>
        env.cellOf c.attributes p (inner p) (after p))).1)
      (c.tableAt env t ((Table.cells (c.tableBody t)).map fun p =>
        env.cellOf c.attributes p (inner p) (after p))).2
  | paragraph {inList inDelimited t c} (ht : t.startsParagraph = true) :
    Reads env admits (.block inList inDelimited t) c (c.paragraph env.rules inList t).value
      (c.paragraph env.rules inList t).cursor
  -- Lists and their items.
  | list {enclosing marker first c es last}
      (hitems : Reads env admits (.items (enclosing ++ [marker]) marker first) c.clearPending es last) :
    Reads env admits (.list enclosing marker first) c (listOf first es) last
  | itemsLast {scope marker first c e next} (hitem : Reads env admits (.item scope first) c e next)
      (hnext : ∀ t rest, next.skipBlank.unread = t :: rest → t.marker? ≠ some marker) :
    Reads env admits (.items scope marker first) c [e] next.skipBlank
  | itemsCons {scope marker first c e next t rest es last}
      (hitem : Reads env admits (.item scope first) c e next) (h : next.skipBlank.unread = t :: rest)
      (ht : t.marker? = some marker)
      (hitems : Reads env admits (.items scope marker t) (next.skipBlank.moveTo rest) es last) :
    Reads env admits (.items scope marker first) c (e :: es) last
  | item {scope first c bs last} (hattached : Reads env admits (.attached scope) c.pastText bs last) :
    Reads env admits (.item scope first) c (itemOf first (itemSpan c.unread).1 bs) last
  -- What belongs to an item.
  | attachedEnd {scope c}
      (hfirst : ∀ t, c.unread.head? = some t → t.kind ≠ .continuation)
      (hnext : ∀ t rest, c.skipBlank.unread = t :: rest →
        (∀ marker, t.marker? = some marker → marker ∈ scope) ∧
        ∀ delimiter description, t.kind = .term delimiter description → delimiter ∈ scope) :
    Reads env admits (.attached scope) c [] c
  | attachedCons {scope c t rest first next more last} (h : c.unread = t :: rest)
      (ht : t.kind = .continuation) (hfirst : Reads env admits .attachedBlock (c.moveTo rest) first next)
      (hmore : Reads env admits (.attached scope) next more last) :
    Reads env admits (.attached scope) c (first.toList ++ more) last
  | attachedList {scope c t rest marker e next more last} (h : c.skipBlank.unread = t :: rest)
      (ht : t.marker? = some marker) (hscope : marker ∉ scope)
      (hlist : Reads env admits (.list scope marker t) (c.moveTo rest) e next)
      (hmore : Reads env admits (.attached scope) next more last) :
    Reads env admits (.attached scope) c (e :: more) last
  | attachedDescriptions {scope c t rest delimiter description e next more last}
      (h : c.skipBlank.unread = t :: rest) (ht : t.kind = .term delimiter description)
      (hscope : delimiter ∉ scope)
      (hlist : Reads env admits (.descriptionList scope delimiter description t) (c.moveTo rest) e next)
      (hmore : Reads env admits (.attached scope) next more last) :
    Reads env admits (.attached scope) c (e :: more) last
  | nothingAttached {c} (h : ∀ t, c.unread.head? = some t → t.kind = .blank) :
    Reads env admits .attachedBlock c none c
  | metadataAttached {c t rest next e last} (h : c.unread = t :: rest) (hblank : t.kind ≠ .blank)
      (hblock : Reads env admits (.block true false t) (c.moveTo rest) none next)
      (ht : t.isMetadata = true) (hmore : Reads env admits .attachedBlock next e last) :
    Reads env admits .attachedBlock c e last
  | blockAttached {c t rest e next} (h : c.unread = t :: rest) (hblank : t.kind ≠ .blank)
      (hblock : Reads env admits (.block true false t) (c.moveTo rest) e next)
      (ht : ¬(e.isNone = true ∧ t.isMetadata = true)) :
    Reads env admits .attachedBlock c e next
  -- Description lists and their entries.
  | descriptionList {enclosing delimiter description first c es last}
      (hentries : Reads env admits (.entries (enclosing ++ [delimiter]) delimiter description first)
        c.clearPending es last) :
    Reads env admits (.descriptionList enclosing delimiter description first) c
      (.descriptionList (some first.line) delimiter es) last
  | entriesLast {scope delimiter description first c e next}
      (hentry : Reads env admits (.entry scope delimiter description first) c e next)
      (hnext : ∀ t rest, next.skipBlank.unread = t :: rest → t.description? delimiter = none) :
    Reads env admits (.entries scope delimiter description first) c [e] next.skipBlank
  | entriesCons {scope delimiter description first c e next t rest other es last}
      (hentry : Reads env admits (.entry scope delimiter description first) c e next)
      (h : next.skipBlank.unread = t :: rest) (ht : t.description? delimiter = some other)
      (hentries : Reads env admits (.entries scope delimiter other t) (next.skipBlank.moveTo rest) es
        last) :
    Reads env admits (.entries scope delimiter description first) c (e :: es) last
  | entry {scope delimiter description first c bs last}
      (hattached : Reads env admits (.attached scope)
        (c.pastTerms delimiter first description).pastText bs last) :
    Reads env admits (.entry scope delimiter description first) c
      (c.entryOf delimiter first description bs) last

/-! ## The reader reads so -/

/-- Every line is admitted at every place. -/
def Anywhere : Token → Cursor → Prop := fun _ _ => True

/-- A cell holds what the blocks of its document are. -/
theorem cell_eq (env : Reading) (attributes : List (Text × Text)) (p : Table.PendingCell) :
    env.cell attributes p = env.cellOf attributes p
      (env.blocks false (-1) none (Cursor.ofCell env.marker attributes p)).value
      (env.blocks false (-1) none (Cursor.ofCell env.marker attributes p)).cursor := by
  rw [cell.eq_def]
  rfl

mutual

/-- A run of blocks is read. -/
theorem blocks_reads (env : Reading) (inList : Bool) (level : Int) (closing : Option Text)
    (c : Cursor) : env.Reads Anywhere (.blocks inList level closing) c
      (env.blocks inList level closing c).value (env.blocks inList level closing c).cursor := by
  have hskip := c.size_skipBlank_le
  rw [blocks.eq_def]
  split
  next h =>
    cases closing with
    | none => exact .blocksEnd h
    | some delimiter => exact .blocksEnd h
  next t rest h =>
    have hrest := Cursor.length_lt_of_skipBlank h
    dsimp only
    split
    next hclosed => exact .blocksClosed h hclosed.1 hclosed.2
    next hclosed =>
      split
      next hheading =>
        obtain ⟨rfl, ht⟩ := hheading
        exact .blocksHeading h ht
      next hheading =>
        have hfirst := block_reads env inList closing.isSome t (c.skipBlank.moveTo rest)
        have hnext := (env.block inList closing.isSome t (c.skipBlank.moveTo rest)).within
        exact .blocksCons h hclosed hheading hfirst (blocks_reads env inList level closing _)
termination_by 8 * c.size + 1
decreasing_by all_goals (simp only [Cursor.size_moveTo] at *; omega)

/-- The block that a line starts is read. -/
theorem block_reads (env : Reading) (inList inDelimited : Bool) (t : Token) (c : Cursor) :
    env.Reads Anywhere (.block inList inDelimited t) c (env.block inList inDelimited t c).value
      (env.block inList inDelimited t c).cursor := by
  rw [block.eq_def]
  split
  case h_1 value unset ht | h_2 ht | h_3 ht | h_4 ht =>
    have hdescribed : env.Reads Anywhere (.block inList inDelimited t) c none (c.described t) :=
      .metadata (by simp only [Token.isMetadata, ht]) trivial
    simpa only [Cursor.described, ht] using hdescribed
  case h_5 level ht => exact sectionAt_reads env inList inDelimited level t c ht
  case h_6 marker checked ht =>
    exact .listBlock (by simp only [Token.marker?, ht]) (list_reads env [] marker t c)
  case h_7 marker ht =>
    exact .listBlock (by simp only [Token.marker?, ht]) (list_reads env [] marker t c)
  case h_8 delimiter description ht =>
    exact .descriptionBlock ht (descriptionList_reads env [] delimiter description t c)
  case h_9 frame ht =>
    exact framed_reads env inList inDelimited (some frame) t c (by simp only [Token.opens?, ht])
  case h_10 ht =>
    exact framed_reads env inList inDelimited none t c (by simp only [Token.opens?, ht])
  case h_11 language ht => exact .fence ht
  case h_12 ht => exact table_reads env inList inDelimited t c ht
  case h_13 ht | h_14 ht | h_15 ht => exact .lineBreak (by simp only [Token.breakName?, ht])
  case h_16 ht | h_17 ht | h_18 ht | h_19 ht =>
    exact .paragraph (by simp only [Token.startsParagraph, ht])
termination_by 8 * c.size + 6
decreasing_by all_goals omega

/-- A heading is read with the blocks of its section. -/
theorem sectionAt_reads (env : Reading) (inList inDelimited : Bool) (level : Nat) (t : Token)
    (c : Cursor) (ht : t.kind = .heading level) :
    env.Reads Anywhere (.block inList inDelimited t) c
      (some (env.sectionAt inList inDelimited level t c).value)
      (env.sectionAt inList inDelimited level t c).cursor := by
  rw [sectionAt.eq_def]
  dsimp only
  split
  next halone =>
    refine .headingAlone ht ?_
    simpa only [Bool.or_eq_true, decide_eq_true_eq, or_assoc] using halone
  next halone =>
    have hdelimited : inDelimited = false := by
      cases inDelimited with
      | true => simp at halone
      | false => rfl
    subst hdelimited
    exact .heading ht (blocks_reads env inList level none c.clearPending)
termination_by 8 * c.size + 5
decreasing_by simp only [Cursor.size_clearPending]; omega

/-- The block that a delimiter opens is read. -/
theorem framed_reads (env : Reading) (inList inDelimited : Bool) (frame : Option Frame)
    (t : Token) (c : Cursor) (ht : t.opens? = some frame) :
    env.Reads Anywhere (.block inList inDelimited t) c (env.framed frame t c).value
      (env.framed frame t c).cursor := by
  rw [framed.eq_def]
  split
  next lines hlines => exact .framedLines ht hlines
  next hlines =>
    exact .framedBlocks ht hlines (blocks_reads env false (-1) (some t.content) c.clearPending)
termination_by 8 * c.size + 5
decreasing_by simp only [Cursor.size_clearPending]; omega

/-- A list is read. -/
theorem list_reads (env : Reading) (enclosing : List Text) (marker : Text) (first : Token)
    (c : Cursor) : env.Reads Anywhere (.list enclosing marker first) c
      (env.list enclosing marker first c).value (env.list enclosing marker first c).cursor := by
  rw [list.eq_def]
  exact .list (items_reads env (enclosing ++ [marker]) marker first c.clearPending)
termination_by 8 * c.size + 5
decreasing_by simp only [Cursor.size_clearPending]; omega

/-- An item and the items after it are read. -/
theorem items_reads (env : Reading) (scope : List Text) (marker : Text) (first : Token)
    (c : Cursor) : env.Reads Anywhere (.items scope marker first) c
      (env.items scope marker first c).value (env.items scope marker first c).cursor := by
  have hitem := item_reads env scope first c
  have hwithin := (env.item scope first c).within
  rw [items.eq_def]
  dsimp only
  split
  next h => exact .itemsLast hitem fun t rest ht => by simp [h] at ht
  next t rest h =>
    have hrest := Nat.lt_of_lt_of_le (Cursor.length_lt_of_skipBlank h) hwithin
    split
    next ht => exact .itemsCons hitem h ht (items_reads env scope marker t _)
    next ht =>
      refine .itemsLast hitem fun u more hu => ?_
      obtain ⟨rfl, -⟩ := List.cons.inj (h.symm.trans hu)
      exact ht
termination_by 8 * c.size + 4
decreasing_by
  · omega
  · simp only [Cursor.size_moveTo]; omega

/-- An item is read. -/
theorem item_reads (env : Reading) (scope : List Text) (first : Token) (c : Cursor) :
    env.Reads Anywhere (.item scope first) c (env.item scope first c).value
      (env.item scope first c).cursor := by
  have hpast := c.size_pastText_le
  rw [item.eq_def]
  exact .item (attached_reads env scope c.pastText)
termination_by 8 * c.size + 3
decreasing_by omega

/-- The blocks that belong to an item are read. -/
theorem attached_reads (env : Reading) (scope : List Text) (c : Cursor) :
    env.Reads Anywhere (.attached scope) c (env.attached scope c).value (env.attached scope c).cursor := by
  rw [attached.eq_def]
  split
  next h =>
    refine .attachedEnd (by simp [h]) fun t rest ht => ?_
    simp [Cursor.skipBlank, Cursor.moveTo, h] at ht
  next t rest h =>
    have hrest := Cursor.length_lt_size h
    dsimp only
    split
    next ht =>
      have hfirst := attachedBlock_reads env (c.moveTo rest)
      have hnext := (env.attachedBlock (c.moveTo rest)).within
      exact .attachedCons h ht hfirst (attached_reads env scope _)
    next hplus =>
      have hfirst : ∀ u, c.unread.head? = some u → u.kind ≠ .continuation := by
        rw [h]
        rintro u ⟨⟩
        exact hplus
      split
      next hc => exact .attachedEnd hfirst fun u more hu => by simp [hc] at hu
      next candidate after hc =>
        have hafter := Cursor.length_lt_of_skipBlank hc
        have hend (hscope : (∀ marker, candidate.marker? = some marker → marker ∈ scope) ∧
            ∀ delimiter description, candidate.kind = .term delimiter description →
              delimiter ∈ scope) : env.Reads Anywhere (.attached scope) c [] c := by
          refine .attachedEnd hfirst fun u more hu => ?_
          obtain ⟨rfl, -⟩ := List.cons.inj (hc.symm.trans hu)
          exact hscope
        split
        next _ _ marker hm =>
          split
          next hin =>
            refine hend ⟨fun other ho => ?_, fun delimiter description hk => ?_⟩
            · rw [hm] at ho
              obtain rfl := Option.some.inj ho
              simpa using hin
            · exact absurd hk (Token.kind_ne_term hm)
          next hin =>
            have hlist := list_reads env scope marker candidate (c.moveTo after)
            have hnext := (env.list scope marker candidate (c.moveTo after)).within
            exact .attachedList hc hm (by simpa using hin) hlist (attached_reads env scope _)
        next delimiter description hm hk =>
          split
          next hin =>
            refine hend ⟨fun other ho => by simp [hm] at ho, fun other text ho => ?_⟩
            rw [hk] at ho
            obtain ⟨rfl, -⟩ := Token.Kind.term.inj ho
            simpa using hin
          next hin =>
            have hlist := descriptionList_reads env scope delimiter description candidate
              (c.moveTo after)
            have hnext :=
              (env.descriptionList scope delimiter description candidate (c.moveTo after)).within
            exact .attachedDescriptions hc hk (by simpa using hin) hlist
              (attached_reads env scope _)
        next hm hk =>
          exact hend ⟨fun other ho => by simp [hm] at ho, fun other text ho => absurd ho (hk _ _)⟩
termination_by 8 * c.size + 2
decreasing_by all_goals (simp only [Cursor.size_moveTo] at *; omega)

/-- The block after a plus sign is read. -/
theorem attachedBlock_reads (env : Reading) (c : Cursor) :
    env.Reads Anywhere .attachedBlock c (env.attachedBlock c).value (env.attachedBlock c).cursor := by
  rw [attachedBlock.eq_def]
  split
  next h => exact .nothingAttached (by simp [h])
  next t rest h =>
    have hrest := Cursor.length_lt_size h
    dsimp only
    split
    next hblank =>
      refine .nothingAttached ?_
      rw [h]
      rintro u ⟨⟩
      exact hblank
    next hblank =>
      have hblock := block_reads env true false t (c.moveTo rest)
      have hnext := (env.block true false t (c.moveTo rest)).within
      split
      next hnone =>
        rw [Option.isNone_iff_eq_none.mp hnone.1] at hblock
        exact .metadataAttached h hblank hblock hnone.2 (attachedBlock_reads env _)
      next hsome => exact .blockAttached h hblank hblock hsome
termination_by 8 * c.size + 2
decreasing_by all_goals (simp only [Cursor.size_moveTo] at *; omega)

/-- A description list is read. -/
theorem descriptionList_reads (env : Reading) (enclosing : List Text)
    (delimiter description : Text) (first : Token) (c : Cursor) :
    env.Reads Anywhere (.descriptionList enclosing delimiter description first) c
      (env.descriptionList enclosing delimiter description first c).value
      (env.descriptionList enclosing delimiter description first c).cursor := by
  rw [descriptionList.eq_def]
  exact .descriptionList
    (entries_reads env (enclosing ++ [delimiter]) delimiter description first c.clearPending)
termination_by 8 * c.size + 5
decreasing_by simp only [Cursor.size_clearPending]; omega

/-- An entry and the entries after it are read. -/
theorem entries_reads (env : Reading) (scope : List Text) (delimiter description : Text)
    (first : Token) (c : Cursor) :
    env.Reads Anywhere (.entries scope delimiter description first) c
      (env.entries scope delimiter description first c).value
      (env.entries scope delimiter description first c).cursor := by
  have hentry := entry_reads env scope delimiter description first c
  have hwithin := (env.entry scope delimiter description first c).within
  rw [entries.eq_def]
  dsimp only
  split
  next h => exact .entriesLast hentry fun t rest ht => by simp [h] at ht
  next t rest h =>
    have hrest := Nat.lt_of_lt_of_le (Cursor.length_lt_of_skipBlank h) hwithin
    split
    next other ht => exact .entriesCons hentry h ht (entries_reads env scope delimiter other t _)
    next ht =>
      refine .entriesLast hentry fun u more hu => ?_
      obtain ⟨rfl, -⟩ := List.cons.inj (h.symm.trans hu)
      exact ht
termination_by 8 * c.size + 4
decreasing_by
  · omega
  · simp only [Cursor.size_moveTo]; omega

/-- An entry is read. -/
theorem entry_reads (env : Reading) (scope : List Text) (delimiter description : Text)
    (first : Token) (c : Cursor) :
    env.Reads Anywhere (.entry scope delimiter description first) c
      (env.entry scope delimiter description first c).value
      (env.entry scope delimiter description first c).cursor := by
  have hpast := Nat.le_trans (Cursor.size_pastText_le _)
    (c.size_pastTerms_le delimiter first description)
  rw [entry.eq_def]
  exact .entry (attached_reads env scope (c.pastTerms delimiter first description).pastText)
termination_by 8 * c.size + 3
decreasing_by omega

/-- A table is read. -/
theorem table_reads (env : Reading) (inList inDelimited : Bool) (t : Token) (c : Cursor)
    (ht : t.kind = .tableDelimiter) :
    env.Reads Anywhere (.block inList inDelimited t) c (some (env.table t c).value)
      (env.table t c).cursor := by
  have hbody : (c.tableBody t).length ≤ c.size := (length_tableSpan_le t.content c.unread).1
  have hcells : ∀ p ∈ Table.cells (c.tableBody t), p.holdsDocument = true →
      env.Reads Anywhere (.blocks false (-1) none) (Cursor.ofCell env.marker c.attributes p)
        (env.blocks false (-1) none (Cursor.ofCell env.marker c.attributes p)).value
        (env.blocks false (-1) none (Cursor.ofCell env.marker c.attributes p)).cursor := by
    intro p hp _
    have hlines := Table.length_lines_le (c.tableBody t) p hp
    have hcontent := Table.length_content_le p
    have hsize := Cursor.size_ofCell env.marker c.attributes p
    exact blocks_reads env false (-1) none (Cursor.ofCell env.marker c.attributes p)
  have hread : ((Table.cells (c.tableBody t)).attach.map fun p =>
      env.cell c.attributes p.1) = (Table.cells (c.tableBody t)).map fun p =>
        env.cellOf c.attributes p
          (env.blocks false (-1) none (Cursor.ofCell env.marker c.attributes p)).value
          (env.blocks false (-1) none (Cursor.ofCell env.marker c.attributes p)).cursor := by
    rw [List.attach_map_val]
    exact List.map_congr_left fun p _ => env.cell_eq c.attributes p
  have htable : env.Reads Anywhere (.block inList inDelimited t) c _ _ := .table ht trivial hcells
  rw [← hread] at htable
  rw [table.eq_def]
  exact htable
termination_by 8 * c.size + 5
decreasing_by omega

end

end Reading

end Asciidoc
