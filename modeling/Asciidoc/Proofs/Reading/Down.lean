import Asciidoc.Element.Document
import Asciidoc.Proofs.Element.Down
import Asciidoc.Proofs.Reading.Equations
import Asciidoc.Proofs.Reading.Spelled
import Asciidoc.Proofs.Table.Pieces

/-!
# Reading lines further down

What is read from lines does not hang on their numbers: lines that stand `k` lines further down are
read as the same elements further down, with the same remarks further down
(`Cursor.readDocument_down`). Numbers of lines go into hints and remarks, and they are compared only
with one another: to tell the cells of the first line of a table, and to tell its header.

Every function that reads has its law here, in the order in which they are defined, and the laws of
those that call one another follow their recursion.
-/

namespace Asciidoc

open Text

variable {k : Int}

/-! ## Single lines -/

namespace Token

@[simp] theorem kind_down (t : Token) : (t.down k).kind = t.kind := rfl

@[simp] theorem content_down (t : Token) : (t.down k).content = t.content := rfl

@[simp] theorem text_down (t : Token) : (t.down k).text = t.text := rfl

@[simp] theorem line_down (t : Token) : (t.down k).line = t.line + k := rfl

@[simp] theorem isDelimiter_down (t : Token) : (t.down k).isDelimiter = t.isDelimiter := rfl

@[simp] theorem isMetadata_down (t : Token) : (t.down k).isMetadata = t.isMetadata := rfl

@[simp] theorem marker?_down (t : Token) : (t.down k).marker? = t.marker? := rfl

@[simp] theorem description?_down (delimiter : Text) (t : Token) :
    (t.down k).description? delimiter = t.description? delimiter := rfl

@[simp] theorem endsSection_down (level : Int) (t : Token) :
    (t.down k).endsSection level = t.endsSection level := rfl

end Token

/-- What is asked of lines without their numbers is asked of lines further down. -/
theorem dropWhile_down {p : Token → Bool} (hp : ∀ t, p (t.down k) = p t) (ts : List Token) :
    (ts.map (Token.down k)).dropWhile p = (ts.dropWhile p).map (Token.down k) := by
  rw [List.dropWhile_map]
  congr 2
  exact funext hp

theorem takeWhile_down {p : Token → Bool} (hp : ∀ t, p (t.down k) = p t) (ts : List Token) :
    (ts.map (Token.down k)).takeWhile p = (ts.takeWhile p).map (Token.down k) := by
  rw [List.takeWhile_map]
  congr 2
  exact funext hp

theorem filter_down {p : Token → Bool} (hp : ∀ t, p (t.down k) = p t) (ts : List Token) :
    (ts.map (Token.down k)).filter p = (ts.filter p).map (Token.down k) := by
  rw [List.filter_map]
  congr 2
  exact funext hp

/-! ## Places -/

namespace Cursor

@[simp] theorem unread_down (c : Cursor) : (c.down k).unread = c.unread.map (Token.down k) := rfl

@[simp] theorem pending_down (c : Cursor) : (c.down k).pending = c.pending := rfl

theorem moveTo_down (c : Cursor) (unread : List Token) :
    (c.down k).moveTo (unread.map (Token.down k)) = (c.moveTo unread).down k := rfl

theorem clearPending_down (c : Cursor) : (c.down k).clearPending = c.clearPending.down k := rfl

theorem skipBlank_down (c : Cursor) : (c.down k).skipBlank = c.skipBlank.down k := by
  rw [skipBlank, unread_down, dropWhile_down (fun _ => rfl)]
  rfl

theorem notice_down (c : Cursor) (n : Notice) :
    (c.down k).notice (n.down k) = (c.notice n).down k := by
  simp [notice, Cursor.down, Remark.down, Place.down]

theorem remark_down (c : Cursor) (remarks : List Remark) :
    (c.down k).remark (remarks.map (Remark.down k)) = (c.remark remarks).down k := by
  have hmoved (r : Remark) : (r.down k).movedTo (c.down k).toPlace
      = (r.movedTo c.toPlace).down k := by
    cases r <;> rfl
  simp only [remark, Cursor.down, List.map_append, List.map_map]
  congr 2
  exact List.map_congr_left fun r _ => hmoved r

theorem record_down (c : Cursor) (name value : Text) (unset : Bool) :
    (c.down k).record name value unset = (c.record name value unset).down k := rfl

theorem addPending_down (c : Cursor) (t : Token) :
    (c.down k).addPending (t.down k) = (c.addPending t).down k := by
  simp only [addPending, Cursor.down, List.map_append, Place.down, Token.content_down]
  by_cases h : (c.pending.add t.content).conflict = true
  · simp [h, Remark.down, Place.down]
  · simp [h]

end Cursor

/-! ## Lines -/

theorem verbatimSpan_down (closing : Text) (ts : List Token) :
    verbatimSpan closing (ts.map (Token.down k)) = ((verbatimSpan closing ts).1,
      (verbatimSpan closing ts).2.1.map (Token.down k), (verbatimSpan closing ts).2.2) := by
  induction ts with
  | nil => rfl
  | cons t rest ih =>
    rw [List.map_cons, verbatimSpan, verbatimSpan, Token.text_down]
    by_cases h : trim t.text = closing
    · rw [if_pos h, if_pos h]
    · rw [if_neg h, if_neg h, ih]

theorem itemSpan_down (ts : List Token) :
    itemSpan (ts.map (Token.down k))
      = ((itemSpan ts).1.map (Token.down k), (itemSpan ts).2.map (Token.down k)) := by
  induction ts with
  | nil => rfl
  | cons t rest ih =>
    rw [List.map_cons, itemSpan, itemSpan, Token.kind_down]
    by_cases htext : t.kind = .text
    · rw [if_pos htext, if_pos htext, ih]
      rfl
    · rw [if_neg htext, if_neg htext]
      by_cases hcomment : t.kind = .comment
      · rw [if_pos hcomment, if_pos hcomment, ih]
      · rw [if_neg hcomment, if_neg hcomment]
        rfl

theorem termSpan_down (delimiter : Text) (first : Token) (description : Text) (ts : List Token) :
    termSpan delimiter (first.down k) description (ts.map (Token.down k))
      = ((termSpan delimiter first description ts).1.map (Token.down k),
        (termSpan delimiter first description ts).2.1,
        (termSpan delimiter first description ts).2.2.map (Token.down k)) := by
  induction ts generalizing first description with
  | nil => rfl
  | cons t rest ih =>
    rw [List.map_cons, termSpan, termSpan, Token.kind_down]
    by_cases hempty : description.isEmpty = true
    · rw [if_pos hempty, if_pos hempty]
      cases hkind : t.kind with
      | term d next =>
        dsimp only
        by_cases hd : d = delimiter
        · rw [if_pos hd, if_pos hd, ih]
          rfl
        · rw [if_neg hd, if_neg hd]
          rfl
      | _ => rfl
    · rw [if_neg hempty, if_neg hempty]
      rfl

theorem tableSpan_down (delimiter : Text) (ts : List Token) :
    tableSpan delimiter (ts.map (Token.down k))
      = ((tableSpan delimiter ts).1.map (Token.down k),
        (tableSpan delimiter ts).2.1.map (Token.down k), (tableSpan delimiter ts).2.2) := by
  induction ts with
  | nil => rfl
  | cons t rest ih =>
    rw [List.map_cons, tableSpan, tableSpan, Token.kind_down, Token.content_down]
    by_cases h : t.kind = .tableDelimiter ∧ t.content = delimiter
    · rw [if_pos h, if_pos h]
      rfl
    · rw [if_neg h, if_neg h, ih]
      rfl

/-! ## Blocks made of lines -/

/-- What was read further down is what was read, further down: what it says is changed by a
function, and the place after it stands further down. -/
structure Reached.IsDown {n m : Nat} {α β : Type} (k : Int) (f : α → β) (r : Reached n α)
    (r' : Reached m β) : Prop where
  value : r'.value = f r.value
  cursor : r'.cursor = r.cursor.down k

namespace Reached

variable {n n' m m' : Nat} {α α' β β' : Type} {f : α → β} {r : Reached n α} {r' : Reached m β}

theorem IsDown.map {g : α → α'} {g' : β → β'} {f' : α' → β'} (h : r.IsDown k f r')
    (hg : ∀ v, g' (f v) = f' (g v)) : (r.map g).IsDown k f' (r'.map g') :=
  ⟨(congrArg g' h.value).trans (hg r.value), h.cursor⟩

theorem IsDown.widen (h : r.IsDown k f r') (hn : n ≤ n') (hm : m ≤ m') :
    (r.widen hn).IsDown k f (r'.widen hm) :=
  ⟨h.value, h.cursor⟩

end Reached

theorem paragraphOf_down (rules : Rules.Reading) (attributes : BlockAttributes)
    (document : List (Text × Text)) (indented : Bool) (first : Token) (rest : List Token) :
    paragraphOf rules attributes document indented (first.down k) (rest.map (Token.down k))
      = (paragraphOf rules attributes document indented first rest).map (Element.down k) := by
  have htexts : (rest.map (Token.down k)).map (·.text) = rest.map (·.text) := by
    rw [List.map_map]
    rfl
  have htrimmed : (rest.map (Token.down k)).map (fun t => trim t.text)
      = rest.map fun t => trim t.text := by
    rw [List.map_map]
    rfl
  unfold paragraphOf
  rw [htexts, htrimmed]
  simp only [Token.text_down, Token.line_down]
  -- Both sides ask the same questions; what is left is a leaf or two.
  split
  · rfl
  split
  · rfl
  split
  · rfl
  split
  · rfl
  split
  · simp [Element.down]
  split
  · simp [Element.down]
  split
  · split
    · simp [Element.down]
    · simp [Element.down]
  · simp [Element.down]

theorem Cursor.paragraph_down (c : Cursor) (rules : Rules.Reading) (inList : Bool)
    (first : Token) : (c.paragraph rules inList first).IsDown k (Option.map (Element.down k))
      ((c.down k).paragraph rules inList (first.down k)) := by
  have hspan : paragraphSpan inList (c.down k).unread
      = ((paragraphSpan inList c.unread).1.map (Token.down k),
        (paragraphSpan inList c.unread).2.map (Token.down k)) :=
    Prod.ext (takeWhile_down (fun _ => rfl) _) (dropWhile_down (fun _ => rfl) _)
  rw [Cursor.paragraph, Cursor.paragraph]
  dsimp only
  by_cases hends : first.endsParagraph inList = true
  · rw [if_pos hends, if_pos (show (first.down k).endsParagraph inList = true from hends)]
    exact ⟨paragraphOf_down rules c.pending c.attributes _ first [], clearPending_down c⟩
  · rw [if_neg hends, if_neg (show ¬(first.down k).endsParagraph inList = true from hends)]
    constructor
    · dsimp only
      rw [hspan, ← List.map_cons, filter_down (fun _ => rfl)]
      cases (first :: (paragraphSpan inList c.unread).1).filter (·.kind ≠ .comment) with
      | nil => rfl
      | cons start others => exact paragraphOf_down rules c.pending c.attributes _ start others
    · dsimp only
      rw [hspan]
      rfl

theorem Cursor.verbatim_down (c : Cursor) (closing : Text) :
    (c.verbatim closing).IsDown k id ((c.down k).verbatim closing) := by
  have hspan := verbatimSpan_down (k := k) closing c.unread
  constructor
  · rw [Cursor.verbatim, Cursor.verbatim]
    dsimp only
    rw [unread_down, hspan]
    rfl
  · rw [Cursor.verbatim, Cursor.verbatim]
    dsimp only
    rw [unread_down, hspan, moveTo_down]
    split
    · rfl
    · exact notice_down (c.moveTo (verbatimSpan closing c.unread).2.1) (.unclosedLines closing)

theorem Cursor.fenced_down (c : Cursor) (line : Int) (language : Option Text) :
    (c.fenced line language).IsDown k (Element.down k) ((c.down k).fenced (line + k) language) := by
  have hlines := c.clearPending.verbatim_down (k := k) ['\x60', '\x60', '\x60']
  constructor
  · exact congrArg (fun lines => Element.listing (some (line + k)) lines
      (language.orElse fun _ => languageOf c.pending c.attributes)) hlines.value
  · exact hlines.cursor

theorem blockOfLines?_down (frame : Option Frame) (attributes : BlockAttributes)
    (document : List (Text × Text)) (line : Hint) :
    blockOfLines? frame attributes document (Hint.down k line)
      = (blockOfLines? frame attributes document line).map
        fun make lines => (make lines).map (Element.down k) := by
  unfold blockOfLines?
  dsimp only
  split
  · rfl
  split
  · rfl
  split
  · rfl
  split
  · rfl
  · rfl

/-- A delimiter opens a block of lines further down if it does so here. -/
theorem Cursor.framedLines?_down (c : Cursor) (frame : Option Frame) (opening : Token) :
    (c.framedLines? frame opening = none ∧
      (c.down k).framedLines? frame (opening.down k) = none) ∨
    ∃ r r', c.framedLines? frame opening = some r ∧
      (c.down k).framedLines? frame (opening.down k) = some r' ∧
        r.IsDown k (Option.map (Element.down k)) r' := by
  have hlines := c.clearPending.verbatim_down (k := k) opening.content
  have hmake := blockOfLines?_down (k := k) frame c.pending c.attributes (some opening.line)
  rw [framedLines?_eq, framedLines?_eq]
  cases hblock : blockOfLines? frame c.pending c.attributes (some opening.line) with
  | none =>
    rw [hblock] at hmake
    refine .inl ⟨rfl, ?_⟩
    exact congrArg (Option.map _) hmake
  | some make =>
    rw [hblock] at hmake
    refine .inr ⟨_, _, rfl, congrArg (Option.map _) hmake, ?_⟩
    exact hlines.map fun _ => rfl

theorem framedBlocks_down (rules : Rules.Reading) (attributes : BlockAttributes)
    (frame : Option Frame) (opening : Token) (blocks : List Element) :
    framedBlocks rules attributes frame (opening.down k) (blocks.map (Element.down k))
      = (framedBlocks rules attributes frame opening blocks).down k := by
  unfold framedBlocks
  simp only [Token.line_down]
  repeat' split
  all_goals simp [Element.down]

/-! ## Lists -/

theorem listOf_down (first : Token) (items : List Element) :
    listOf (first.down k) (items.map (Element.down k)) = (listOf first items).down k := by
  unfold listOf
  rw [Token.kind_down]
  split
  all_goals simp [Element.down]

theorem itemOf_down (first : Token) (more : List Token) (blocks : List Element) :
    itemOf (first.down k) (more.map (Token.down k)) (blocks.map (Element.down k))
      = (itemOf first more blocks).down k := by
  unfold itemOf
  simp [Element.down, Function.comp_def]

theorem termOf_down (t : Token) : termOf (t.down k) = (termOf t).down k := by
  simp [termOf, Element.down]

/-- A description goes down with its lines and its blocks, none of which is a document. -/
theorem descriptionOf_down (lines : List (Int × Text)) (blocks : List Element)
    (hblocks : ∀ e ∈ blocks, e.isDocument = false) :
    descriptionOf (lines.map fun entry => (entry.1 + k, entry.2)) (blocks.map (Element.down k))
      = (descriptionOf lines blocks).map (Element.down k) := by
  cases lines with
  | nil =>
    cases blocks with
    | nil => rfl
    | cons first rest =>
      simp [descriptionOf, Element.down, Element.line_down (hblocks first List.mem_cons_self)]
  | cons entry others => simp [descriptionOf, Element.down, Function.comp_def]

namespace Cursor

theorem pastText_down (c : Cursor) : (c.down k).pastText = c.pastText.down k := by
  rw [pastText, unread_down, itemSpan_down]
  rfl

theorem pastTerms_down (c : Cursor) (delimiter : Text) (first : Token) (description : Text) :
    (c.down k).pastTerms delimiter (first.down k) description
      = (c.pastTerms delimiter first description).down k := by
  rw [pastTerms, pastTerms, unread_down, termSpan_down]
  dsimp only
  rw [moveTo_down, skipBlank_down]
  split <;> rfl

theorem entryOf_down (c : Cursor) (delimiter : Text) (first : Token) (description : Text)
    (blocks : List Element) (hblocks : ∀ e ∈ blocks, e.isDocument = false) :
    (c.down k).entryOf delimiter (first.down k) description (blocks.map (Element.down k))
      = (c.entryOf delimiter first description blocks).down k := by
  have hspan := termSpan_down (k := k) delimiter first description c.unread
  have hlast (terms : List Token) :
      ((terms.map (Token.down k)).getLastD (first.down k)).line = (terms.getLastD first).line + k := by
    rw [List.getLastD_map]
    rfl
  rw [entryOf, entryOf, pastTerms_down, unread_down, unread_down, hspan, itemSpan_down]
  have hterms (terms : List Token) :
      (terms.map (Token.down k)).map termOf = (terms.map termOf).map (Element.down k) := by
    rw [List.map_map, List.map_map]
    exact List.map_congr_left fun t _ => termOf_down t
  have hmore (lines : List Token) : (lines.map (Token.down k)).map (fun t => (t.line, t.content))
      = (lines.map fun t => (t.line, t.content)).map fun entry => (entry.1 + k, entry.2) := by
    rw [List.map_map, List.map_map]
    rfl
  dsimp only
  rw [hlast, hterms, hmore, Entry.down, ← descriptionOf_down _ _ hblocks, List.map_append]
  by_cases hempty : (termSpan delimiter first description c.unread).2.1.isEmpty = true
  · rw [if_pos hempty, if_pos hempty]
    rfl
  · rw [if_neg hempty, if_neg hempty]
    rfl

end Cursor

/-! ## Tables -/

namespace Table

/-- A cell further down. -/
def PendingCell.down (k : Int) (p : PendingCell) : PendingCell :=
  ⟨p.line + k, p.spec, p.lines.map fun entry => (entry.1 + k, entry.2)⟩

variable (p : PendingCell)

theorem PendingCell.content_down :
    (p.down k).content = p.content.map fun entry => (entry.1 + k, entry.2) := by
  have hdrop (entries : List (Int × Text)) :
      (entries.map fun entry => (entry.1 + k, entry.2)).dropWhile (·.2.isEmpty)
        = (entries.dropWhile (·.2.isEmpty)).map fun entry => (entry.1 + k, entry.2) := by
    rw [List.dropWhile_map]
    rfl
  unfold content
  rw [down, hdrop, ← List.map_reverse, hdrop, List.map_reverse]

@[simp] theorem PendingCell.text_down : (p.down k).text = p.text := by
  rw [text, text, content_down, List.map_map]
  rfl

theorem addToLast_down (entry : Int × Text) (cells : List PendingCell) :
    addToLast (entry.1 + k, entry.2) (cells.map (PendingCell.down k))
      = (addToLast entry cells).map (PendingCell.down k) := by
  induction cells with
  | nil => rfl
  | cons cell rest ih =>
    cases rest with
    | nil => simp [addToLast, PendingCell.down]
    | cons other others =>
      have hstep (e : Int × Text) (x y : PendingCell) (more : List PendingCell) :
          addToLast e (x :: y :: more) = x :: addToLast e (y :: more) := rfl
      rw [List.map_cons, List.map_cons, hstep, ← List.map_cons, ih, hstep, List.map_cons]

theorem startCells_down (number : Int) (specs texts : List Text) :
    startCells (number + k) specs texts
      = (startCells number specs texts).map (PendingCell.down k) := by
  rw [startCells, startCells, List.map_map]
  rfl

theorem addLine_down (cells : List PendingCell) (t : Token) :
    addLine (cells.map (PendingCell.down k)) (t.down k)
      = (addLine cells t).map (PendingCell.down k) := by
  have hlast : (cells.map (PendingCell.down k)).getLast?.elim false (·.isAsciidoc)
      = cells.getLast?.elim false (·.isAsciidoc) := by
    rw [List.getLast?_map]
    cases cells.getLast? <;> rfl
  unfold addLine
  rw [hlast, Token.kind_down, Token.text_down, Token.line_down]
  cases t.kind with
  | comment => rfl
  | blank =>
    dsimp only
    split
    · exact addToLast_down (t.line, []) cells
    · rfl
  | _ =>
    dsimp only
    rw [List.map_append, ← startCells_down]
    congr 1
    split
    · rfl
    · exact addToLast_down (t.line, _) cells

/-- The cells of lines further down. -/
theorem cells_down (body : List Token) :
    cells (body.map (Token.down k)) = (cells body).map (PendingCell.down k) := by
  rw [cells, cells, List.foldl_map]
  show List.foldl _ (List.map (PendingCell.down k) []) body = _
  apply List.foldl_hom
  intro cells t
  exact addLine_down cells t

/-- The cells on the line of the first. -/
theorem filter_line_down (first : PendingCell) (cells : List PendingCell) :
    (cells.map (PendingCell.down k)).filter (·.line = (first.down k).line)
      = (cells.filter (·.line = first.line)).map (PendingCell.down k) := by
  rw [List.filter_map]
  congr 2
  funext p
  simp [PendingCell.down]

theorem columnCount_down (cols : Text) (cells : List PendingCell) :
    columnCount cols (cells.map (PendingCell.down k)) = columnCount cols cells := by
  cases cells with
  | nil => rfl
  | cons first rest =>
    unfold columnCount
    split
    · have hfirst := filter_line_down (k := k) first (first :: rest)
      show totalColumns (List.map _ (List.filter _ _)) = _
      rw [hfirst, List.map_map]
      rfl
    · rfl

theorem columnNumerals_down (cols : Text) (cells : List PendingCell) :
    columnNumerals cols (cells.map (PendingCell.down k)) = columnNumerals cols cells := by
  cases cells with
  | nil => rfl
  | cons first rest =>
    unfold columnNumerals
    split
    · have hfirst := filter_line_down (k := k) first (first :: rest)
      show List.map _ (List.filter _ _) = _
      rw [hfirst, List.map_map]
      rfl
    · rfl

theorem rowsFrom_map {α β : Type} (f : α → β) (columns : Nat) (row : List α) (width : Nat)
    (cells : List (Nat × α)) :
    rowsFrom columns (row.map f) width (cells.map fun cell => (cell.1, f cell.2))
      = ((rowsFrom columns row width cells).1.map (List.map f),
        (rowsFrom columns row width cells).2.map f) := by
  induction cells generalizing row width with
  | nil => rfl
  | cons cell rest ih =>
    rw [List.map_cons, rowsFrom, rowsFrom]
    split
    · have hnext := ih [] 0
      rw [List.map_nil] at hnext
      rw [hnext]
      simp
    · have hnext := ih (row ++ [cell.2]) (width + cell.1)
      rw [List.map_append] at hnext
      exact hnext

end Table

/-- Whether the first row of a table is its header hangs on which of its lines its cells are. -/
theorem hasHeader_down (rules : Rules.Reading) (attributes : BlockAttributes) (body : List Token)
    (firstRow : List Element) (hrow : ∀ e ∈ firstRow, e.isDocument = false) :
    hasHeader rules attributes (body.map (Token.down k)) (firstRow.map (Element.down k))
      = hasHeader rules attributes body firstRow := by
  have hline (t : Token) : (firstRow.map (Element.down k)).all (·.line = some (t.down k).line)
      = firstRow.all (·.line = some t.line) := by
    rw [List.all_map, Bool.eq_iff_iff, List.all_eq_true, List.all_eq_true]
    refine forall₂_congr fun e he => ?_
    simp [Element.line_down (hrow e he), Hint.down_eq_some_iff]
  unfold hasHeader
  rw [filter_down (fun _ => rfl)]
  split
  · rfl
  · cases body.filter (·.kind ≠ .comment) with
    | nil => rfl
    | cons first others =>
      cases others with
      | nil => rfl
      | cons second others =>
        simp only [List.map_cons, Token.kind_down, hline]
        rfl

theorem tableOf_down (rules : Rules.Reading) (attributes : BlockAttributes) (opening : Token)
    (body : List Token) (rows : List (List Element))
    (hrows : ∀ row ∈ rows, ∀ e ∈ row, e.isDocument = false) :
    tableOf rules attributes (opening.down k) (body.map (Token.down k))
        (rows.map (List.map (Element.down k)))
      = (tableOf rules attributes opening body rows).down k := by
  cases rows with
  | nil => simp [tableOf, Element.down]
  | cons first rest =>
    rw [List.map_cons, tableOf, tableOf,
      hasHeader_down rules attributes body first (hrows first List.mem_cons_self)]
    split
    · simp [Element.down]
    · simp [Element.down]

theorem numeralRemarks_down (place : Place) (numerals : List Text) :
    numeralRemarks (place.down k) numerals = (numeralRemarks place numerals).map (Remark.down k) := by
  unfold numeralRemarks
  split <;> rfl

/-- A cell further down, with what was met inside it. -/
def CellRead.down (k : Int) (cell : CellRead) : CellRead :=
  ⟨(cell.cell.1, cell.cell.2.down k), cell.remarks.map (Remark.down k)⟩

theorem Cursor.pastTable_down (c : Cursor) (opening : Token) :
    (c.down k).pastTable (opening.down k) = (c.pastTable opening).down k := by
  rw [pastTable, pastTable, unread_down, Token.content_down, tableSpan_down]
  dsimp only
  rw [moveTo_down]
  split
  · rfl
  · exact notice_down (c.moveTo (tableSpan opening.content c.unread).2.1)
      (.unclosedTable opening.line)

theorem Cursor.closeTable_down (c : Cursor) (rules : Rules.Reading) (attributes : BlockAttributes)
    (opening : Token) (body : List Token) (columns : Nat) (cells : List CellRead)
    (hcells : ∀ cell ∈ cells, cell.cell.2.isDocument = false) :
    (c.closeTable rules attributes opening body columns cells).IsDown k (Element.down k)
      ((c.down k).closeTable rules attributes (opening.down k) (body.map (Token.down k)) columns
        (cells.map (CellRead.down k))) := by
  have hrows : Table.rows columns ((cells.map (CellRead.down k)).map (·.cell))
      = ((Table.rows columns (cells.map (·.cell))).1.map (List.map (Element.down k)),
        (Table.rows columns (cells.map (·.cell))).2.map (Element.down k)) := by
    have hfrom := Table.rowsFrom_map (Element.down k) columns [] 0 (cells.map (·.cell))
    rw [List.map_map] at hfrom
    rw [Table.rows, List.map_map]
    exact hfrom
  have hblocks : ∀ row ∈ (Table.rows columns (cells.map (·.cell))).1, ∀ e ∈ row,
      e.isDocument = false := by
    intro row hrow e he
    have hflatten : (Table.rows columns (cells.map (·.cell))).1.flatten ++ _
        = (cells.map (·.cell)).map Prod.snd := Table.flatten_rowsFrom columns [] 0 _
    have hmem : e ∈ (cells.map (·.cell)).map Prod.snd :=
      hflatten ▸ List.mem_append_left _ (List.mem_flatten.mpr ⟨row, hrow, he⟩)
    rw [List.map_map] at hmem
    obtain ⟨cell, hcell, rfl⟩ := List.mem_map.mp hmem
    exact hcells cell hcell
  have hremarks : (cells.map (CellRead.down k)).flatMap (·.remarks)
      = (cells.flatMap (·.remarks)).map (Remark.down k) := by
    rw [List.flatMap_map, List.map_flatMap]
    rfl
  constructor
  · rw [closeTable, closeTable]
    dsimp only
    rw [hrows]
    exact tableOf_down rules attributes opening body _ hblocks
  · rw [closeTable, closeTable]
    dsimp only
    rw [hrows, hremarks, remark_down, List.isEmpty_map, List.length_map]
    split
    · rfl
    · exact notice_down (c.remark (cells.flatMap (·.remarks)))
        (.incompleteRow (Table.rows columns (cells.map (·.cell))).2.length opening.line)

theorem Cursor.ofCell_down (marker : Text) (attributes : List (Text × Text))
    (p : Table.PendingCell) :
    Cursor.ofCell marker attributes (p.down k) = (Cursor.ofCell marker attributes p).down k := by
  rw [ofCell, ofCell, Cursor.down, Place.down]
  dsimp only
  rw [Tokens.ofLines, Tokens.ofLines, p.content_down, List.map_map, List.map_map]
  rfl

namespace Cursor

theorem tableBody_down (c : Cursor) (opening : Token) :
    (c.down k).tableBody (opening.down k) = (c.tableBody opening).map (Token.down k) :=
  congrArg Prod.fst (tableSpan_down opening.content c.unread)

theorem tableAt_down (c : Cursor) (env : Reading) (opening : Token) (cells : List CellRead)
    (hcells : ∀ cell ∈ cells, cell.cell.2.isDocument = false) :
    (c.down k).tableAt env (opening.down k) (cells.map (CellRead.down k))
      = ((c.tableAt env opening cells).1.down k, (c.tableAt env opening cells).2.down k) := by
  have hpast : (c.down k).clearPending.pastTable (opening.down k)
      = (c.clearPending.pastTable opening).down k := c.clearPending.pastTable_down opening
  rw [tableAt, tableAt]
  dsimp only
  rw [tableBody_down, Table.cells_down, Table.columnNumerals_down, Table.columnCount_down, hpast,
    show ((c.clearPending.pastTable opening).down k).toPlace
      = (c.clearPending.pastTable opening).toPlace.down k from rfl, numeralRemarks_down, remark_down, pending_down]
  have hclosed := closeTable_down (k := k) ((c.clearPending.pastTable opening).remark
    (numeralRemarks (c.clearPending.pastTable opening).toPlace
      (Table.columnNumerals ((c.pending.value? "cols".toList).getD [])
        (Table.cells (c.tableBody opening))))) env.rules c.pending opening (c.tableBody opening)
    (Table.columnCount ((c.pending.value? "cols".toList).getD [])
      (Table.cells (c.tableBody opening))) cells hcells
  exact Prod.ext hclosed.value hclosed.cursor

end Cursor

/-- A cell further down that holds the blocks of its document further down. -/
theorem Reading.cellOf_down (env : Reading) (attributes : List (Text × Text))
    (p : Table.PendingCell) (blocks : List Element) (after : Cursor) :
    env.cellOf attributes (p.down k) (blocks.map (Element.down k)) (after.down k)
      = (env.cellOf attributes p blocks after).down k := by
  have hholds : (p.down k).holdsDocument = p.holdsDocument := by
    rw [Table.PendingCell.holdsDocument, Table.PendingCell.holdsDocument, p.content_down,
      List.isEmpty_map]
    rfl
  have hplace : ((Cursor.ofCell env.marker attributes p).down k).toPlace
      = (Cursor.ofCell env.marker attributes p).toPlace.down k := rfl
  rw [cellOf, cellOf, Cursor.ofCell_down, hplace, numeralRemarks_down, hholds, p.text_down]
  split
  · simp only [CellRead.down, Element.down, Element.downAll_eq_map, Element.downOption_eq_map,
      Option.map_some, Option.map_none, List.map_append, Hint.down_some]
    rfl
  · simp only [CellRead.down, Element.down, Element.downOption_eq_map, Option.map_none,
      Hint.down_some]
    rfl

/-! ## Blocks -/

namespace Reading

/-- Nothing that is read among blocks is a document. -/
theorem Reads.isBlock {env : Reading} {admits : Token → Cursor → Prop} {part : Part}
    {c last : Cursor} {value : part.Value} (h : env.Reads admits part c value last) :
    part.Holds (fun e => e.isDocument = false) value :=
  (h.spelled (P := fun _ => True) (B := fun _ => True) trivial (fun _ _ => .trivial)
    fun _ _ => trivial).mono fun _ he => he.block

/-- What is left after blank lines further down. -/
theorem unread_skipBlank_down (c : Cursor) :
    (c.down k).skipBlank.unread = c.skipBlank.unread.map (Token.down k) := by
  rw [Cursor.skipBlank_down]
  rfl

theorem moveTo_skipBlank_down (c : Cursor) (rest : List Token) :
    (c.down k).skipBlank.moveTo (rest.map (Token.down k)) = (c.skipBlank.moveTo rest).down k := by
  rw [Cursor.skipBlank_down]
  rfl

/-- What was read first and what was read next. -/
theorem toList_append_down (first : Option Element) (more : List Element) :
    (first.map (Element.down k)).toList ++ more.map (Element.down k)
      = (first.toList ++ more).map (Element.down k) := by
  cases first <;> rfl

/-- The element of a cell is a cell, whatever it holds. -/
theorem cell_isBlock (env : Reading) (attributes : List (Text × Text)) (p : Table.PendingCell) :
    (env.cell attributes p).cell.2.isDocument = false := by
  rw [cell_eq, cellOf]
  split <;> rfl

theorem isDown_of_out {n m : Nat} {α β : Type} {f : α → β} {r : Reached n α} {r' : Reached m β}
    (h : r'.out = (f r.out.1, r.out.2.down k)) : r.IsDown k f r' :=
  ⟨congrArg Prod.fst h, congrArg Prod.snd h⟩

mutual

/-- A run of blocks is read further down as it is here. -/
theorem blocks_down (env : Reading) (inList : Bool) (level : Int) (closing : Option Text)
    (c : Cursor) : (env.blocks inList level closing c).IsDown k (List.map (Element.down k))
      (env.blocks inList level closing (c.down k)) := by
  apply isDown_of_out
  rw [blocks_out, blocks_out, unread_skipBlank_down]
  cases h : c.skipBlank.unread with
  | nil =>
    cases closing with
    | none => exact Prod.ext rfl c.skipBlank_down
    | some delimiter =>
      refine Prod.ext rfl ?_
      show (c.down k).skipBlank.notice _ = _
      rw [Cursor.skipBlank_down]
      exact c.skipBlank.notice_down (.unclosedBlock delimiter)
  | cons t rest =>
    have hrest := Cursor.length_lt_of_skipBlank h
    rw [List.map_cons]
    dsimp only
    rw [moveTo_skipBlank_down, Token.content_down, Token.isDelimiter_down, Token.endsSection_down]
    by_cases hclosed : closing = some t.content ∧ t.isDelimiter = true
    · rw [if_pos hclosed, if_pos hclosed]
      rfl
    rw [if_neg hclosed, if_neg hclosed]
    by_cases hheading : closing = none ∧ t.endsSection level = true
    · rw [if_pos hheading, if_pos hheading]
      exact Prod.ext rfl c.skipBlank_down
    rw [if_neg hheading, if_neg hheading]
    have hfirst := block_down env inList closing.isSome t (c.skipBlank.moveTo rest)
    have hnext := (env.block inList closing.isSome t (c.skipBlank.moveTo rest)).within
    have hmore := blocks_down env inList level closing
      (env.block inList closing.isSome t (c.skipBlank.moveTo rest)).cursor
    dsimp only
    rw [hfirst.value, hfirst.cursor, hmore.value, hmore.cursor, toList_append_down]
termination_by 8 * c.size + 1
decreasing_by all_goals (simp only [Cursor.size_moveTo] at *; omega)

/-- So is the block that a line starts. -/
theorem block_down (env : Reading) (inList inDelimited : Bool) (t : Token) (c : Cursor) :
    (env.block inList inDelimited t c).IsDown k (Option.map (Element.down k))
      (env.block inList inDelimited (t.down k) (c.down k)) := by
  rw [block.eq_def env inList inDelimited t c,
    block.eq_def env inList inDelimited (t.down k) (c.down k), Token.kind_down]
  cases hkind : t.kind with
  | «attribute» value unset => exact ⟨rfl, c.record_down t.content value unset⟩
  | blockAttribute => exact ⟨rfl, c.addPending_down t⟩
  | anchor => exact ⟨rfl, rfl⟩
  | blockTitle => exact ⟨rfl, rfl⟩
  | heading level => exact (sectionAt_down env inList inDelimited level t c).map fun _ => rfl
  | unorderedItem marker checked => exact (list_down env [] marker t c).map fun _ => rfl
  | orderedItem marker => exact (list_down env [] marker t c).map fun _ => rfl
  | term delimiter description =>
    exact (descriptionList_down env [] delimiter description t c).map fun _ => rfl
  | blockDelimiter frame => exact framed_down env (some frame) t c
  | openDelimiter => exact framed_down env none t c
  | fence language => exact (c.fenced_down t.line language).map fun _ => rfl
  | tableDelimiter => exact (table_down env t c).map fun _ => rfl
  | thematicBreak => exact ⟨rfl, rfl⟩
  | pageBreak => exact ⟨rfl, rfl⟩
  | blockImage => exact ⟨rfl, rfl⟩
  | continuation => exact c.paragraph_down env.rules inList t
  | comment => exact c.paragraph_down env.rules inList t
  | blank => exact c.paragraph_down env.rules inList t
  | text => exact c.paragraph_down env.rules inList t
termination_by 8 * c.size + 6
decreasing_by all_goals omega

/-- A heading with the blocks of its section. -/
theorem sectionAt_down (env : Reading) (inList inDelimited : Bool) (level : Nat) (t : Token)
    (c : Cursor) : (env.sectionAt inList inDelimited level t c).IsDown k (Element.down k)
      (env.sectionAt inList inDelimited level (t.down k) (c.down k)) := by
  rw [sectionAt.eq_def env inList inDelimited level t c,
    sectionAt.eq_def env inList inDelimited level (t.down k) (c.down k)]
  dsimp only
  rw [Cursor.pending_down]
  split
  · constructor
    · simp [Element.down]
    · rfl
  · refine (blocks_down env inList level none c.clearPending).map fun bs => ?_
    simp [Element.down]
termination_by 8 * c.size + 5
decreasing_by simp only [Cursor.size_clearPending]; omega

/-- The block that a delimiter opens. -/
theorem framed_down (env : Reading) (frame : Option Frame) (opening : Token) (c : Cursor) :
    (env.framed frame opening c).IsDown k (Option.map (Element.down k))
      (env.framed frame (opening.down k) (c.down k)) := by
  rw [framed.eq_def env frame opening c, framed.eq_def env frame (opening.down k) (c.down k)]
  rcases c.framedLines?_down (k := k) frame opening with ⟨hnone, hnone'⟩ | ⟨r, r', hr, hr', hlines⟩
  · rw [hnone, hnone']
    refine (blocks_down env false (-1) (some opening.content) c.clearPending).map fun bs => ?_
    exact congrArg some (framedBlocks_down env.rules c.pending frame opening bs)
  · rw [hr, hr']
    exact hlines
termination_by 8 * c.size + 5
decreasing_by simp only [Cursor.size_clearPending]; omega

/-- A list. -/
theorem list_down (env : Reading) (enclosing : List Text) (marker : Text) (first : Token)
    (c : Cursor) : (env.list enclosing marker first c).IsDown k (Element.down k)
      (env.list enclosing marker (first.down k) (c.down k)) := by
  rw [list.eq_def env enclosing marker first c,
    list.eq_def env enclosing marker (first.down k) (c.down k)]
  exact (items_down env (enclosing ++ [marker]) marker first c.clearPending).map
    fun items => listOf_down first items
termination_by 8 * c.size + 5
decreasing_by simp only [Cursor.size_clearPending]; omega

/-- An item and the items after it. -/
theorem items_down (env : Reading) (scope : List Text) (marker : Text) (first : Token)
    (c : Cursor) : (env.items scope marker first c).IsDown k (List.map (Element.down k))
      (env.items scope marker (first.down k) (c.down k)) := by
  have hitem := item_down env scope first c
  have hwithin := (env.item scope first c).within
  apply isDown_of_out
  rw [items_out, items_out]
  dsimp only
  rw [hitem.value, hitem.cursor, unread_skipBlank_down]
  cases h : (env.item scope first c).cursor.skipBlank.unread with
  | nil => exact Prod.ext rfl (Cursor.skipBlank_down _)
  | cons t rest =>
    have hrest := Nat.lt_of_lt_of_le (Cursor.length_lt_of_skipBlank h) hwithin
    rw [List.map_cons]
    dsimp only
    rw [moveTo_skipBlank_down, Token.marker?_down]
    by_cases ht : t.marker? = some marker
    · rw [if_pos ht, if_pos ht]
      have hmore := items_down env scope marker t
        ((env.item scope first c).cursor.skipBlank.moveTo rest)
      dsimp only
      rw [hmore.value, hmore.cursor, List.map_cons]
    · rw [if_neg ht, if_neg ht]
      exact Prod.ext rfl (Cursor.skipBlank_down _)
termination_by 8 * c.size + 4
decreasing_by all_goals (simp only [Cursor.size_moveTo] at *; omega)

/-- An item. -/
theorem item_down (env : Reading) (scope : List Text) (first : Token) (c : Cursor) :
    (env.item scope first c).IsDown k (Element.down k)
      (env.item scope (first.down k) (c.down k)) := by
  have hpast := c.size_pastText_le
  have hattached := attached_down env scope c.pastText
  rw [← Cursor.pastText_down] at hattached
  rw [item.eq_def env scope first c, item.eq_def env scope (first.down k) (c.down k)]
  refine (hattached.map fun bs => ?_).widen _ _
  rw [Cursor.unread_down, itemSpan_down]
  exact itemOf_down first (itemSpan c.unread).1 bs
termination_by 8 * c.size + 3
decreasing_by omega

/-- What belongs to an item. -/
theorem attached_down (env : Reading) (scope : List Text) (c : Cursor) :
    (env.attached scope c).IsDown k (List.map (Element.down k)) (env.attached scope (c.down k)) := by
  apply isDown_of_out
  rw [attached_out, attached_out, unread_skipBlank_down, Cursor.unread_down]
  cases h : c.unread with
  | nil => rfl
  | cons t rest =>
    have hrest := Cursor.length_lt_size h
    rw [List.map_cons]
    dsimp only
    rw [Cursor.moveTo_down, Token.kind_down]
    by_cases hplus : t.kind = .continuation
    · rw [if_pos hplus, if_pos hplus]
      have hfirst := attachedBlock_down env (c.moveTo rest)
      have hnext := (env.attachedBlock (c.moveTo rest)).within
      have hmore := attached_down env scope (env.attachedBlock (c.moveTo rest)).cursor
      dsimp only
      rw [hfirst.value, hfirst.cursor, hmore.value, hmore.cursor, toList_append_down]
    rw [if_neg hplus, if_neg hplus]
    cases hc : c.skipBlank.unread with
    | nil => rfl
    | cons candidate after =>
      have hafter := Cursor.length_lt_of_skipBlank hc
      rw [List.map_cons]
      dsimp only
      rw [Cursor.moveTo_down, Token.marker?_down, Token.kind_down]
      cases hmarker : candidate.marker? with
      | some marker =>
        dsimp only
        by_cases hin : scope.contains marker = true
        · rw [if_pos hin, if_pos hin]
          rfl
        rw [if_neg hin, if_neg hin]
        have hfirst := list_down env scope marker candidate (c.moveTo after)
        have hnext := (env.list scope marker candidate (c.moveTo after)).within
        have hmore := attached_down env scope
          (env.list scope marker candidate (c.moveTo after)).cursor
        rw [hfirst.value, hfirst.cursor, hmore.value, hmore.cursor, List.map_cons]
      | none =>
        cases hkind : candidate.kind with
        | term delimiter description =>
          dsimp only
          by_cases hin : scope.contains delimiter = true
          · rw [if_pos hin, if_pos hin]
            rfl
          rw [if_neg hin, if_neg hin]
          have hfirst := descriptionList_down env scope delimiter description candidate
            (c.moveTo after)
          have hnext :=
            (env.descriptionList scope delimiter description candidate (c.moveTo after)).within
          have hmore := attached_down env scope
            (env.descriptionList scope delimiter description candidate (c.moveTo after)).cursor
          rw [hfirst.value, hfirst.cursor, hmore.value, hmore.cursor, List.map_cons]
        | _ => rfl
termination_by 8 * c.size + 2
decreasing_by all_goals (simp only [Cursor.size_moveTo] at *; omega)

/-- The block after a plus sign. -/
theorem attachedBlock_down (env : Reading) (c : Cursor) :
    (env.attachedBlock c).IsDown k (Option.map (Element.down k))
      (env.attachedBlock (c.down k)) := by
  apply isDown_of_out
  rw [attachedBlock_out, attachedBlock_out, Cursor.unread_down]
  cases h : c.unread with
  | nil => rfl
  | cons t rest =>
    have hrest := Cursor.length_lt_size h
    rw [List.map_cons]
    dsimp only
    rw [Cursor.moveTo_down, Token.kind_down, Token.isMetadata_down]
    by_cases hblank : t.kind = .blank
    · rw [if_pos hblank, if_pos hblank]
      rfl
    rw [if_neg hblank, if_neg hblank]
    have hblock := block_down env true false t (c.moveTo rest)
    have hnext := (env.block true false t (c.moveTo rest)).within
    rw [hblock.value, hblock.cursor, Option.isNone_map]
    by_cases hnone : (env.block true false t (c.moveTo rest)).value.isNone = true ∧
        t.isMetadata = true
    · rw [if_pos hnone, if_pos hnone]
      have hmore := attachedBlock_down env (env.block true false t (c.moveTo rest)).cursor
      exact Prod.ext hmore.value hmore.cursor
    · rw [if_neg hnone, if_neg hnone]
termination_by 8 * c.size + 2
decreasing_by all_goals (simp only [Cursor.size_moveTo] at *; omega)

/-- A description list. -/
theorem descriptionList_down (env : Reading) (enclosing : List Text)
    (delimiter description : Text) (first : Token) (c : Cursor) :
    (env.descriptionList enclosing delimiter description first c).IsDown k (Element.down k)
      (env.descriptionList enclosing delimiter description (first.down k) (c.down k)) := by
  rw [descriptionList.eq_def env enclosing delimiter description first c,
    descriptionList.eq_def env enclosing delimiter description (first.down k) (c.down k)]
  refine (entries_down env (enclosing ++ [delimiter]) delimiter description first
    c.clearPending).map fun es => ?_
  simp [Element.down]
termination_by 8 * c.size + 5
decreasing_by simp only [Cursor.size_clearPending]; omega

/-- An entry and the entries after it. -/
theorem entries_down (env : Reading) (scope : List Text) (delimiter description : Text)
    (first : Token) (c : Cursor) :
    (env.entries scope delimiter description first c).IsDown k (List.map (Entry.down k))
      (env.entries scope delimiter description (first.down k) (c.down k)) := by
  have hentry := entry_down env scope delimiter description first c
  have hwithin := (env.entry scope delimiter description first c).within
  apply isDown_of_out
  rw [entries_out, entries_out]
  dsimp only
  rw [hentry.value, hentry.cursor, unread_skipBlank_down]
  cases h : (env.entry scope delimiter description first c).cursor.skipBlank.unread with
  | nil => exact Prod.ext rfl (Cursor.skipBlank_down _)
  | cons t rest =>
    have hrest := Nat.lt_of_lt_of_le (Cursor.length_lt_of_skipBlank h) hwithin
    rw [List.map_cons]
    dsimp only
    rw [moveTo_skipBlank_down, Token.description?_down]
    cases ht : t.description? delimiter with
    | some other =>
      have hmore := entries_down env scope delimiter other t
        ((env.entry scope delimiter description first c).cursor.skipBlank.moveTo rest)
      dsimp only
      rw [hmore.value, hmore.cursor, List.map_cons]
    | none => exact Prod.ext rfl (Cursor.skipBlank_down _)
termination_by 8 * c.size + 4
decreasing_by all_goals (simp only [Cursor.size_moveTo] at *; omega)

/-- An entry. -/
theorem entry_down (env : Reading) (scope : List Text) (delimiter description : Text)
    (first : Token) (c : Cursor) :
    (env.entry scope delimiter description first c).IsDown k (Entry.down k)
      (env.entry scope delimiter description (first.down k) (c.down k)) := by
  have hpast := Nat.le_trans (Cursor.size_pastText_le _)
    (c.size_pastTerms_le delimiter first description)
  have hattached := attached_down env scope (c.pastTerms delimiter first description).pastText
  have hblocks := (attached_reads env scope
    (c.pastTerms delimiter first description).pastText).isBlock
  rw [← Cursor.pastText_down, ← Cursor.pastTerms_down] at hattached
  rw [entry.eq_def env scope delimiter description first c,
    entry.eq_def env scope delimiter description (first.down k) (c.down k)]
  constructor
  · dsimp only [Reached.widen, Reached.map]
    rw [hattached.value]
    exact c.entryOf_down delimiter first description _ hblocks
  · exact hattached.cursor
termination_by 8 * c.size + 3
decreasing_by omega

/-- A table. -/
theorem table_down (env : Reading) (opening : Token) (c : Cursor) :
    (env.table opening c).IsDown k (Element.down k)
      (env.table (opening.down k) (c.down k)) := by
  have hbody : (c.tableBody opening).length ≤ c.size :=
    (length_tableSpan_le opening.content c.unread).1
  have hcells : ((Table.cells (c.tableBody opening)).map (Table.PendingCell.down k)).map
      (env.cell c.attributes)
        = ((Table.cells (c.tableBody opening)).map (env.cell c.attributes)).map
          (CellRead.down k) := by
    rw [List.map_map, List.map_map]
    refine List.map_congr_left fun p hp => ?_
    have hlines := Table.length_lines_le (c.tableBody opening) p hp
    exact cell_down env c.attributes p
  have hblocks : ∀ cell ∈ (Table.cells (c.tableBody opening)).map (env.cell c.attributes),
      cell.cell.2.isDocument = false := by
    intro cell hcell
    obtain ⟨p, -, rfl⟩ := List.mem_map.mp hcell
    exact cell_isBlock env c.attributes p
  apply isDown_of_out
  rw [table_out, c.tableBody_down, Table.cells_down]
  show (c.down k).tableAt env (opening.down k) (List.map (env.cell c.attributes) _) = _
  rw [hcells, c.tableAt_down env opening _ hblocks, ← table_out]
termination_by 8 * c.size + 5
decreasing_by omega

/-- A cell. -/
theorem cell_down (env : Reading) (attributes : List (Text × Text)) (p : Table.PendingCell) :
    env.cell attributes (p.down k) = (env.cell attributes p).down k := by
  have hcontent := Table.length_content_le p
  have hsize := Cursor.size_ofCell env.marker attributes p
  have hinner := blocks_down env false (-1) none (Cursor.ofCell env.marker attributes p)
  rw [cell_eq, cell_eq, Cursor.ofCell_down, hinner.value, hinner.cursor]
  exact env.cellOf_down attributes p _ _
termination_by 8 * p.lines.length + 2
decreasing_by omega

end

end Reading

/-! ## Documents -/

theorem dropTextLine_down (ts : List Token) :
    dropTextLine (ts.map (Token.down k)) = (dropTextLine ts).map (Token.down k) := by
  cases ts with
  | nil => rfl
  | cons t rest =>
    rw [List.map_cons, dropTextLine, dropTextLine, Token.kind_down]
    by_cases h : t.kind = .text
    · rw [if_pos h, if_pos h]
    · rw [if_neg h, if_neg h, List.map_cons]

namespace Cursor

theorem recordAll_down (c : Cursor) (lines : List Token) :
    (c.down k).recordAll (lines.map (Token.down k)) = (c.recordAll lines).down k := by
  rw [recordAll, recordAll, List.foldl_map]
  apply List.foldl_hom
  intro c t
  rw [Token.kind_down]
  split <;> rfl

theorem pastPreamble_down (c : Cursor) : (c.down k).pastPreamble = c.pastPreamble.down k := by
  rw [pastPreamble, pastPreamble]
  rw [unread_down, takeWhile_down (fun _ => rfl), dropWhile_down (fun _ => rfl), recordAll_down]
  exact moveTo_down _ _

theorem pastTitle_down (c : Cursor) : (c.down k).pastTitle = c.pastTitle.down k := by
  rw [pastTitle, pastTitle]
  rw [unread_down, dropTextLine_down, dropTextLine_down, takeWhile_down (fun _ => rfl),
    dropWhile_down (fun _ => rfl), recordAll_down]
  exact moveTo_down _ _

theorem header_down (c : Cursor) :
    (c.down k).header = (c.header.1.map (Title.down k), c.header.2.down k) := by
  rw [header, header]
  rw [pastPreamble_down, unread_down]
  cases c.pastPreamble.unread with
  | nil => rfl
  | cons t rest =>
    rw [List.map_cons]
    dsimp only
    rw [Token.kind_down]
    by_cases h : t.kind = .heading 0
    · rw [if_pos h, if_pos h, moveTo_down, pastTitle_down]
      rfl
    · rw [if_neg h, if_neg h]
      rfl

/-- A document is read further down as it is here. -/
theorem readDocument_down (c : Cursor) (env : Reading) (allowHeader : Bool) (source : Text) :
    (c.down k).readDocument env allowHeader source
      = ((c.readDocument env allowHeader source).1.down k,
        (c.readDocument env allowHeader source).2.down k) := by
  have hstart : (if allowHeader = true then (c.down k).header else (none, c.down k))
      = ((if allowHeader = true then c.header else (none, c)).1.map (Title.down k),
        (if allowHeader = true then c.header else (none, c)).2.down k) := by
    cases allowHeader with
    | false => rfl
    | true => exact c.header_down
  rw [readDocument, readDocument, hstart]
  dsimp only
  generalize (if allowHeader = true then c.header else (none, c)) = start
  have hblocks := env.blocks_down (k := k) false (-1) none start.2
  rw [hblocks.value, hblocks.cursor, Element.down, Element.downAll_eq_map]
  rfl

/-- Faults and notices are met further down as they are here. -/
theorem fault?_down (c : Cursor) :
    (c.down k).fault? = c.fault?.map fun met => (met.1, met.2.down k) := by
  have hfault (r : Remark) :
      (r.down k).fault? = r.fault?.map fun met => (met.1, met.2.down k) := by
    cases r <;> rfl
  show (c.remarks.map (Remark.down k)).findSome? Remark.fault? = _
  rw [fault?, List.findSome?_map]
  induction c.remarks with
  | nil => rfl
  | cons r rest ih =>
    rw [List.findSome?_cons, List.findSome?_cons, Function.comp_apply, hfault]
    cases r.fault? with
    | none => exact ih
    | some met => rfl

theorem notices_down (c : Cursor) : (c.down k).notices = c.notices.map (Notice.down k) := by
  have hnotice (r : Remark) : (r.down k).notice? = r.notice?.map (Notice.down k) := by
    cases r <;> rfl
  have hfault (r : Remark) : (r.down k).fault?.isNone = r.fault?.isNone := by
    cases r <;> rfl
  show ((c.remarks.map (Remark.down k)).takeWhile (·.fault?.isNone)).filterMap Remark.notice? = _
  rw [notices, List.takeWhile_map, List.filterMap_map, List.map_filterMap]
  simp only [Function.comp_def, hnotice, hfault]

end Cursor

end Asciidoc
