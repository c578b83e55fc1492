import Asciidoc.Proofs.Reading.FromText
import Mathlib.Logic.Relation

/-!
# Reading goes forward and to the end

The reader's place is given by the lines still to be read. Whatever a function of the reader does
to its place, it leaves an end of these lines (`Steps.suffix`): it never goes back, never past the
last line, and the block that a line starts takes at least that line. A run of blocks stops where
nothing is left, behind its closing delimiter or before a heading, and a document knows of neither,
so it is read to the end (`readDocument_reads`).

A table cell that holds a document is read by a reader of its own. The lines of a cell are no more
than those of its table, and the line that opens the table is not among them, so that readers
inside readers come to an end too.
-/

namespace Asciidoc

open Text

/-! ## Single lines -/

namespace Cursor

theorem skipBlank_suffix (c : Cursor) : c.skipBlank.unread <:+ c.unread :=
  List.dropWhile_suffix _

theorem suffix_of_skipBlank {c : Cursor} {t : Token} {rest : List Token}
    (h : c.skipBlank.unread = t :: rest) : rest <:+ c.unread := by
  have hnext := c.skipBlank_suffix
  rw [h] at hnext
  exact (List.suffix_cons t rest).trans hnext

theorem verbatim_suffix (c : Cursor) (closing : Text) :
    (c.verbatim closing).cursor.unread <:+ c.unread := by
  obtain ⟨taken, after, hunread, -, hafter⟩ := verbatimSpan_eq closing c.unread
  have hspan : (verbatimSpan closing c.unread).2.1 <:+ c.unread :=
    hafter.trans (hunread ▸ List.suffix_append taken after)
  unfold verbatim
  dsimp only
  split
  · exact hspan
  · exact hspan

theorem fenced_suffix (c : Cursor) (line : Int) (language : Option Text) :
    (c.fenced line language).cursor.unread <:+ c.unread :=
  c.clearPending.verbatim_suffix _

theorem framedLines?_suffix {c : Cursor} {frame : Option Frame} {opening : Token}
    {r : Reached c.size (Option Element)} (h : c.framedLines? frame opening = some r) :
    r.cursor.unread <:+ c.unread := by
  have hlines := c.clearPending.verbatim_suffix opening.content
  unfold framedLines? at h
  dsimp only at h
  repeat' split at h
  all_goals cases h
  all_goals exact hlines

theorem paragraph_suffix (c : Cursor) (rules : Rules.Reading) (inList : Bool) (t : Token) :
    (c.paragraph rules inList t).cursor.unread <:+ c.unread := by
  unfold paragraph
  dsimp only
  split
  · exact List.suffix_refl _
  · exact List.dropWhile_suffix _

theorem pastText_suffix (c : Cursor) : c.pastText.unread <:+ c.unread :=
  itemSpan_suffix c.unread

theorem entry_suffix (c : Cursor) (delimiter : Text) (first : Token) (description : Text) :
    (c.pastTerms delimiter first description).pastText.unread <:+ c.unread :=
  (pastText_suffix _).trans ((c.pastTerms_suffix delimiter first description).trans
    (termSpan_suffix delimiter first description c.unread))

end Cursor

/-- The place before a line that was just read. -/
def Cursor.before (c : Cursor) (t : Token) : Cursor := c.moveTo (t :: c.unread)

/-! ## Parts of a document -/

namespace Reading

variable {env : Reading} {admits : Token → Cursor → Prop}

/-- What a part leaves to be read is an end of what was there. -/
theorem Reads.suffix {part : Part} {c last : Cursor} {value : part.Value}
    (h : env.Reads admits part c value last) : last.unread <:+ c.unread := by
  induction h with
  | @blocksEnd _ _ closing c h =>
    cases closing with
    | none => exact c.skipBlank_suffix
    | some delimiter => exact c.skipBlank_suffix
  | blocksClosed h => exact Cursor.suffix_of_skipBlank h
  | @blocksHeading _ _ c => exact c.skipBlank_suffix
  | blocksCons h _ _ _ _ ihfirst ihmore =>
    exact ihmore.trans (ihfirst.trans (Cursor.suffix_of_skipBlank h))
  | @metadata _ _ t c => exact (unread_described c t) ▸ List.suffix_refl _
  | lineBreak | headingAlone | attachedEnd | nothingAttached => exact List.suffix_refl _
  | heading _ _ ih | listBlock _ _ ih | descriptionBlock _ _ ih | framedBlocks _ _ _ ih
  | list _ ih | descriptionList _ ih => exact ih
  | framedLines _ hlines => exact Cursor.framedLines?_suffix hlines
  | @fence _ _ t c language => exact c.fenced_suffix t.line language
  | table => exact tableAt_suffix _ _ _ _
  | @paragraph inList _ t c => exact c.paragraph_suffix env.rules inList t
  | itemsLast _ _ ih | entriesLast _ _ ih => exact (Cursor.skipBlank_suffix _).trans ih
  | itemsCons _ h _ _ ihfirst ihmore | entriesCons _ h _ _ ihfirst ihmore =>
    exact ihmore.trans ((Cursor.suffix_of_skipBlank h).trans ihfirst)
  | @item _ _ c _ _ _ ih => exact ih.trans c.pastText_suffix
  | attachedCons h _ _ _ ihfirst ihmore =>
    exact ihmore.trans (ihfirst.trans (h ▸ List.suffix_cons _ _))
  | attachedList h _ _ _ _ ihlist ihmore | attachedDescriptions h _ _ _ _ ihlist ihmore =>
    exact ihmore.trans (ihlist.trans (Cursor.suffix_of_skipBlank h))
  | metadataAttached h _ _ _ _ ihblock ihmore =>
    exact ihmore.trans (ihblock.trans (h ▸ List.suffix_cons _ _))
  | blockAttached h _ _ _ ih => exact ih.trans (h ▸ List.suffix_cons _ _)
  | @entry _ delimiter description first c _ _ _ ih =>
    exact ih.trans (c.entry_suffix delimiter first description)

/-- Where a run of blocks stops that nothing closes. -/
def Part.Stops : Part → Cursor → Prop
  | .blocks _ level none, last => ∀ t, last.unread.head? = some t → t.endsSection level = true
  | _, _ => True

/-- A run of blocks that nothing closes stops at the end or before a heading. -/
theorem Reads.stops {part : Part} {c last : Cursor} {value : part.Value}
    (h : env.Reads admits part c value last) : part.Stops last := by
  induction h with
  | @blocksEnd _ _ closing c h =>
    cases closing with
    | none =>
      intro t ht
      rw [show (none.elim c.skipBlank _ : Cursor).unread = [] from h] at ht
      cases ht
    | some delimiter => trivial
  | blocksClosed _ hclosing =>
    subst hclosing
    trivial
  | blocksHeading h ht =>
    intro t hhead
    rw [h] at hhead
    obtain rfl := Option.some.inj hhead
    exact ht
  | blocksCons _ _ _ _ _ _ ihmore => exact ihmore
  | _ => trivial

/-- No line is a heading above all levels, so blocks outside of all sections are read to the
end. -/
theorem unread_blocks (env : Reading) (inList : Bool) (c : Cursor) :
    (env.blocks inList (-1) none c).cursor.unread = [] := by
  have hstops := (env.blocks_reads inList (-1) none c).stops
  cases hunread : (env.blocks inList (-1) none c).cursor.unread with
  | nil => rfl
  | cons t rest =>
    have ht := hstops t (by rw [hunread]; rfl)
    unfold Token.endsSection at ht
    split at ht
    · have := of_decide_eq_true ht
      omega
    · cases ht

/-! ## The functions of the reader -/

/-- What the functions of the reader do to its place, one constructor for each. A function that is
given the line a block starts with is called at that line, and the place before the call is the one
before the line. -/
inductive Steps (env : Reading) : Cursor → Cursor → Prop where
  | skipBlank (c : Cursor) : Steps env c c.skipBlank
  | preamble (c : Cursor) : Steps env c c.pastPreamble
  | title (c : Cursor) : Steps env c c.pastTitle
  | header (c : Cursor) : Steps env c c.header.2
  | document (c : Cursor) (allowHeader : Bool) (source : Text) :
    Steps env c (c.readDocument env allowHeader source).2
  | verbatim (c : Cursor) (closing : Text) : Steps env c (c.verbatim closing).cursor
  | itemText (c : Cursor) : Steps env c c.pastText
  | terms (c : Cursor) (delimiter : Text) (t : Token) (description : Text) :
    Steps env (c.before t) (c.pastTerms delimiter t description)
  | tableLines (c : Cursor) (t : Token) : Steps env (c.before t) (c.pastTable t)
  | paragraph (c : Cursor) (inList : Bool) (t : Token) :
    Steps env (c.before t) (c.paragraph env.rules inList t).cursor
  | fenced (c : Cursor) (t : Token) (language : Option Text) :
    Steps env (c.before t) (c.fenced t.line language).cursor
  | framedLines {c : Cursor} {frame : Option Frame} {t : Token}
      {r : Reached c.size (Option Element)} (h : c.framedLines? frame t = some r) :
    Steps env (c.before t) r.cursor
  | blocks (c : Cursor) (inList : Bool) (level : Int) (closing : Option Text) :
    Steps env c (env.blocks inList level closing c).cursor
  | block (c : Cursor) (inList inDelimited : Bool) (t : Token) :
    Steps env (c.before t) (env.block inList inDelimited t c).cursor
  | sectionAt (c : Cursor) (inList inDelimited : Bool) (level : Nat) (t : Token) :
    Steps env (c.before t) (env.sectionAt inList inDelimited level t c).cursor
  | framed (c : Cursor) (frame : Option Frame) (t : Token) :
    Steps env (c.before t) (env.framed frame t c).cursor
  | list (c : Cursor) (enclosing : List Text) (marker : Text) (t : Token) :
    Steps env (c.before t) (env.list enclosing marker t c).cursor
  | items (c : Cursor) (scope : List Text) (marker : Text) (t : Token) :
    Steps env (c.before t) (env.items scope marker t c).cursor
  | item (c : Cursor) (scope : List Text) (t : Token) :
    Steps env (c.before t) (env.item scope t c).cursor
  | attached (c : Cursor) (scope : List Text) : Steps env c (env.attached scope c).cursor
  | attachedBlock (c : Cursor) : Steps env c (env.attachedBlock c).cursor
  | descriptionList (c : Cursor) (enclosing : List Text) (delimiter description : Text)
      (t : Token) :
    Steps env (c.before t) (env.descriptionList enclosing delimiter description t c).cursor
  | entries (c : Cursor) (scope : List Text) (delimiter description : Text) (t : Token) :
    Steps env (c.before t) (env.entries scope delimiter description t c).cursor
  | entry (c : Cursor) (scope : List Text) (delimiter description : Text) (t : Token) :
    Steps env (c.before t) (env.entry scope delimiter description t c).cursor
  | table (c : Cursor) (t : Token) : Steps env (c.before t) (env.table t c).cursor

/-- A reader of some lines starts another one for a cell of a table that opens on one of them. -/
inductive Starts (env : Reading) (lines : List Token) : List Token → Prop where
  | cell {t : Token} {c : Cursor} {p : Table.PendingCell} (hplace : t :: c.unread <:+ lines)
      (ht : t.kind = .tableDelimiter) (hp : p ∈ Table.cells (c.tableBody t))
      (hholds : p.holdsDocument = true) :
    Starts env lines (Cursor.ofCell env.marker c.attributes p).unread

/-- The lines that a part is read from: the one it starts with, if that was taken before, and those
still to be read. -/
def Part.lines (part : Part) (c : Cursor) : List Token := part.first?.toList ++ c.unread

theorem Reads.suffix_lines {part : Part} {c last : Cursor} {value : part.Value}
    (h : env.Reads admits part c value last) : last.unread <:+ part.lines c :=
  h.suffix.trans (List.suffix_append _ _)

/-- What holds of the lines of a reader at its start holds at every line of metadata and of every
table on the way, if it holds of all ends of lines of which it holds and of the lines of the readers
started from them. -/
theorem Reads.narrow {Q : List Token → Prop}
    (hend : ∀ lines behind, behind <:+ lines → Q lines → Q behind)
    (hstarts : ∀ lines inner, env.Starts lines inner → Q lines → Q inner)
    {part : Part} {c last : Cursor} {value : part.Value} (h : env.Reads admits part c value last)
    (hlines : Q (part.lines c)) :
    env.Reads (fun t c => Q (t :: c.unread)) part c value last := by
  have hskip {c : Cursor} {t : Token} {rest : List Token} (h : c.skipBlank.unread = t :: rest)
      (hc : Q c.unread) : Q (t :: rest) :=
    hend _ _ (h ▸ c.skipBlank_suffix) hc
  have hnext {c : Cursor} {t : Token} {rest : List Token} (h : c.unread = t :: rest)
      (hc : Q c.unread) : Q (t :: rest) :=
    h ▸ hc
  induction h with
  | blocksEnd h => exact .blocksEnd h
  | blocksClosed h hclosing ht => exact .blocksClosed h hclosing ht
  | blocksHeading h ht => exact .blocksHeading h ht
  | blocksCons h hclosed hheading hfirst _ ihfirst ihmore =>
    have ht := hskip h hlines
    exact .blocksCons h hclosed hheading (ihfirst ht)
      (ihmore (hend _ _ hfirst.suffix_lines ht))
  | metadata ht => exact .metadata ht hlines
  | lineBreak ht => exact .lineBreak ht
  | headingAlone ht halone => exact .headingAlone ht halone
  | heading ht _ ih => exact .heading ht (ih (hend _ _ (List.suffix_cons _ _) hlines))
  | listBlock ht _ ih => exact .listBlock ht (ih hlines)
  | descriptionBlock ht _ ih => exact .descriptionBlock ht (ih hlines)
  | framedLines ht h => exact .framedLines ht h
  | framedBlocks ht h _ ih =>
    exact .framedBlocks ht h (ih (hend _ _ (List.suffix_cons _ _) hlines))
  | fence ht => exact .fence ht
  | table ht _ _ ih =>
    refine .table ht hlines fun p hp hholds => ih p hp hholds ?_
    exact hstarts _ _ (.cell (List.suffix_refl _) ht hp hholds) hlines
  | paragraph ht => exact .paragraph ht
  | list _ ih => exact .list (ih hlines)
  | itemsLast _ hnext ih => exact .itemsLast (ih hlines) hnext
  | itemsCons hitem h ht _ ihitem ihitems =>
    have hnext := hend _ _ hitem.suffix_lines hlines
    exact .itemsCons (ihitem hlines) h ht (ihitems (hskip h hnext))
  | item _ ih =>
    exact .item (ih (hend _ _ ((Cursor.pastText_suffix _).trans (List.suffix_cons _ _)) hlines))
  | attachedEnd hplus hnext => exact .attachedEnd hplus hnext
  | attachedCons h ht hfirst _ ihfirst ihmore =>
    have hrest := hend _ _ (h ▸ List.suffix_cons _ _) hlines
    exact .attachedCons h ht (ihfirst hrest) (ihmore (hend _ _ hfirst.suffix hrest))
  | attachedList h ht hscope hlist _ ihlist ihmore =>
    have hfirst := hskip h hlines
    exact .attachedList h ht hscope (ihlist hfirst)
      (ihmore (hend _ _ hlist.suffix_lines hfirst))
  | attachedDescriptions h ht hscope hlist _ ihlist ihmore =>
    have hfirst := hskip h hlines
    exact .attachedDescriptions h ht hscope (ihlist hfirst)
      (ihmore (hend _ _ hlist.suffix_lines hfirst))
  | nothingAttached h => exact .nothingAttached h
  | metadataAttached h hblank hblock ht _ ihblock ihmore =>
    have hfirst := hnext h hlines
    exact .metadataAttached h hblank (ihblock hfirst) ht
      (ihmore (hend _ _ hblock.suffix_lines hfirst))
  | blockAttached h hblank _ ht ih =>
    exact .blockAttached h hblank (ih (hnext h hlines)) ht
  | descriptionList _ ih => exact .descriptionList (ih hlines)
  | entriesLast _ hnext ih => exact .entriesLast (ih hlines) hnext
  | entriesCons hentry h ht _ ihentry ihentries =>
    have hnext := hend _ _ hentry.suffix_lines hlines
    exact .entriesCons (ihentry hlines) h ht (ihentries (hskip h hnext))
  | entry _ ih =>
    exact .entry (ih (hend _ _ ((Cursor.entry_suffix _ _ _ _).trans (List.suffix_cons _ _)) hlines))

theorem sectionAt_suffix (env : Reading) (inList inDelimited : Bool) (level : Nat) (t : Token)
    (c : Cursor) : (env.sectionAt inList inDelimited level t c).cursor.unread <:+ c.unread := by
  rw [sectionAt.eq_def]
  dsimp only
  split
  · exact List.suffix_refl _
  · exact (env.blocks_reads inList level none c.clearPending).suffix

theorem framed_suffix (env : Reading) (frame : Option Frame) (t : Token) (c : Cursor) :
    (env.framed frame t c).cursor.unread <:+ c.unread := by
  rw [framed.eq_def]
  split
  next r hlines => exact Cursor.framedLines?_suffix hlines
  next => exact (env.blocks_reads false (-1) (some t.content) c.clearPending).suffix

theorem table_suffix (env : Reading) (t : Token) (c : Cursor) :
    (env.table t c).cursor.unread <:+ c.unread := by
  rw [table.eq_def]
  exact tableAt_suffix env c t _

/-- Every function of the reader leaves an end of the lines that were to be read. -/
theorem Steps.suffix {before after : Cursor} (h : env.Steps before after) :
    after.unread <:+ before.unread := by
  have hbehind {c after : Cursor} {t : Token} (h : after.unread <:+ c.unread) :
      after.unread <:+ (c.before t).unread :=
    h.trans (List.suffix_cons t c.unread)
  cases h with
  | skipBlank c => exact before.skipBlank_suffix
  | preamble => exact List.dropWhile_suffix _
  | title => exact before.pastTitle_suffix
  | header => exact before.header_keeps.1
  | document _ allowHeader source =>
    cases allowHeader with
    | false => exact (env.blocks_reads false (-1) none before).suffix
    | true =>
      exact (env.blocks_reads false (-1) none before.header.2).suffix.trans before.header_keeps.1
  | verbatim _ closing => exact before.verbatim_suffix closing
  | itemText => exact before.pastText_suffix
  | terms c delimiter t description =>
    exact hbehind ((c.pastTerms_suffix delimiter t description).trans (termSpan_suffix _ _ _ _))
  | tableLines c t => exact hbehind (unread_pastTable c t ▸ tableSpan_suffix t.content c.unread)
  | paragraph c inList t => exact hbehind (c.paragraph_suffix env.rules inList t)
  | fenced c t language => exact hbehind (c.fenced_suffix t.line language)
  | framedLines h => exact hbehind (Cursor.framedLines?_suffix h)
  | blocks _ inList level closing => exact (env.blocks_reads inList level closing before).suffix
  | block c inList inDelimited t => exact hbehind (env.block_reads inList inDelimited t c).suffix
  | sectionAt c inList inDelimited level t =>
    exact hbehind (env.sectionAt_suffix inList inDelimited level t c)
  | framed c frame t => exact hbehind (env.framed_suffix frame t c)
  | list c enclosing marker t => exact hbehind (env.list_reads enclosing marker t c).suffix
  | items c scope marker t => exact hbehind (env.items_reads scope marker t c).suffix
  | item c scope t => exact hbehind (env.item_reads scope t c).suffix
  | attached _ scope => exact (env.attached_reads scope before).suffix
  | attachedBlock => exact (env.attachedBlock_reads before).suffix
  | descriptionList c enclosing delimiter description t =>
    exact hbehind (env.descriptionList_reads enclosing delimiter description t c).suffix
  | entries c scope delimiter description t =>
    exact hbehind (env.entries_reads scope delimiter description t c).suffix
  | entry c scope delimiter description t =>
    exact hbehind (env.entry_reads scope delimiter description t c).suffix
  | table c t => exact hbehind (env.table_suffix t c)

/-- The lines of a cell are fewer than those of the reader of its table. -/
theorem Starts.length_lt {lines inner : List Token} (h : env.Starts lines inner) :
    inner.length < lines.length := by
  obtain @⟨t, c, p, hplace, -, hp, -⟩ := h
  have hbody : (c.tableBody t).length ≤ c.unread.length :=
    (length_tableSpan_le t.content c.unread).1
  have hlines := Table.length_lines_le (c.tableBody t) p hp
  have hcontent := Table.length_content_le p
  have hinner : (Cursor.ofCell env.marker c.attributes p).unread.length = p.content.length :=
    Cursor.size_ofCell env.marker c.attributes p
  have hreader := hplace.length_le
  rw [List.length_cons] at hreader
  omega

end Reading

/-- Lines are the end of the lines of a reader that was started, by way of others perhaps, from
some lines. -/
def Reading.Covers (env : Reading) (lines behind : List Token) : Prop :=
  ∃ reader, Relation.ReflTransGen env.Starts lines reader ∧ behind <:+ reader

/-- A document is read to the end, and every table in it opens on a line of a reader that was
started on the way. -/
theorem Cursor.readDocument_reads (c : Cursor) (env : Reading) (allowHeader : Bool)
    (source : Text) :
    ∃ blocks last,
      env.Reads (fun t at' => env.Covers c.unread (t :: at'.unread)) (.blocks false (-1) none)
        (if allowHeader then c.header.2 else c) blocks last ∧
      (c.readDocument env allowHeader source).2 = last ∧ last.unread = [] := by
  have hsuffix : (if allowHeader then c.header.2 else c).unread <:+ c.unread := by
    cases allowHeader with
    | true => exact c.header_keeps.1
    | false => exact List.suffix_refl _
  refine ⟨_, _, (env.blocks_reads false (-1) none _).narrow ?_ ?_
    ⟨c.unread, .refl, hsuffix⟩, ?_, env.unread_blocks false _⟩
  · rintro lines behind hbehind ⟨reader, hreader, hlines⟩
    exact ⟨reader, hreader, hbehind.trans hlines⟩
  · -- A table behind is as much a table of the reader, which is the one that starts the new one.
    rintro lines inner @⟨t, at', p, hplace, ht, hp, hholds⟩ ⟨reader, hreader, hlines⟩
    exact ⟨_, hreader.tail (.cell (hplace.trans hlines) ht hp hholds), List.suffix_refl _⟩
  · cases allowHeader <;> rfl

/-- From every place a document is read to the end in finitely many steps, and every table on the
way opens on a line of a reader that was started from there. No function of the reader goes back or
past the end, every block takes the line it starts with, and every reader that is started for a
cell has fewer lines than the one that starts it. -/
theorem Reading.reads_forward (env : Reading) (c : Cursor) (allowHeader : Bool) (source : Text) :
    (∃ blocks last,
      env.Reads (fun t at' => env.Covers c.unread (t :: at'.unread)) (.blocks false (-1) none)
        (if allowHeader then c.header.2 else c) blocks last ∧
      (c.readDocument env allowHeader source).2 = last ∧ last.unread = []) ∧
    (∀ before after, env.Steps before after → after.unread <:+ before.unread) ∧
    (∀ inList inDelimited t (c : Cursor),
      (env.block inList inDelimited t c).cursor.size < (c.before t).size) ∧
    ∀ lines inner, env.Starts lines inner → inner.length < lines.length := by
  refine ⟨c.readDocument_reads env allowHeader source, fun _ _ h => h.suffix, ?_,
    fun _ _ h => h.length_lt⟩
  intro inList inDelimited t c
  exact Nat.lt_succ_of_le (env.block inList inDelimited t c).within

end Asciidoc
