import Asciidoc.Element.Document
import Asciidoc.Proofs.Reading.Lines
import Asciidoc.Proofs.Reading.Reads

/-!
# What is read stands on the lines it is read from

Whatever part of a document is read from an end of the classified lines of a text, reading leaves
an end of these, and the elements stand on the lines between (`Reads.standsOn`). The induction
goes over what reading can come to; each kind of block is one case, and what a block is made of
has been read before it.

The document in a table cell is read from other lines. Nothing is said of it here.
-/

namespace Asciidoc

open Text

namespace Reading

/-- The elements of a part that is read from an end of the lines of a text stand on the lines
between that end and the one that is left. -/
def Part.StandsOn (s : Source) (marker : Text) : (part : Part) → Cursor → part.Value → Cursor → Prop
  | .blocks .., c, es, last | .attached .., c, es, last =>
    c.unread <:+ s.tokens marker → last.unread <:+ c.unread ∧
      s.SpansAll marker (s.lineAt c.unread) (s.lineAt last.unread) es
  | .block _ _ first, c, e, last =>
    first :: c.unread <:+ s.tokens marker → first.kind ≠ .blank → last.unread <:+ c.unread ∧
      s.SpansAll marker first.line (s.lineAt last.unread) e.toList
  | .list _ bullet first, c, e, last =>
    first :: c.unread <:+ s.tokens marker → first.marker? = some bullet →
      last.unread <:+ c.unread ∧ s.Spans marker first.line (s.lineAt last.unread) e
  | .items _ bullet first, c, es, last =>
    first :: c.unread <:+ s.tokens marker → first.marker? = some bullet →
      last.unread <:+ c.unread ∧ s.SpansAll marker first.line (s.lineAt last.unread) es
  | .item _ first, c, e, last =>
    first :: c.unread <:+ s.tokens marker → ∀ bullet, first.marker? = some bullet →
      last.unread <:+ c.unread ∧ s.Spans marker first.line (s.lineAt last.unread) e
  | .attachedBlock, c, e, last =>
    c.unread <:+ s.tokens marker → last.unread <:+ c.unread ∧
      s.SpansAll marker (s.lineAt c.unread) (s.lineAt last.unread) e.toList
  | .descriptionList _ delimiter description first, c, e, last =>
    first :: c.unread <:+ s.tokens marker → first.kind = .term delimiter description →
      last.unread <:+ c.unread ∧ s.Spans marker first.line (s.lineAt last.unread) e
  | .entries _ delimiter description first, c, es, last =>
    first :: c.unread <:+ s.tokens marker → first.kind = .term delimiter description →
      last.unread <:+ c.unread ∧ s.SpansEntries marker first.line (s.lineAt last.unread) es
  | .entry _ delimiter description first, c, e, last =>
    first :: c.unread <:+ s.tokens marker → first.kind = .term delimiter description →
      last.unread <:+ c.unread ∧ s.SpansEntries marker first.line (s.lineAt last.unread) [e]

variable {s : Source} {marker : Text} {env : Reading} {admits : Token → Cursor → Prop}

theorem unread_described (c : Cursor) (t : Token) : (c.described t).unread = c.unread := by
  rw [Cursor.described]
  split <;> rfl

/-- The lines of a table, perhaps its closing delimiter, and the lines after it are what was
there. -/
theorem tableSpan_eq (delimiter : Text) (unread : List Token) :
    ∃ closing, unread
      = (tableSpan delimiter unread).1 ++ (closing ++ (tableSpan delimiter unread).2.1) := by
  induction unread with
  | nil => exact ⟨[], rfl⟩
  | cons t rest ih =>
    rw [tableSpan]
    split
    · exact ⟨[t], rfl⟩
    · obtain ⟨closing, hrest⟩ := ih
      exact ⟨closing, congrArg (t :: ·) hrest⟩

theorem tableSpan_suffix (delimiter : Text) (unread : List Token) :
    (tableSpan delimiter unread).2.1 <:+ unread := by
  obtain ⟨closing, hunread⟩ := tableSpan_eq delimiter unread
  exact ⟨_, (List.append_assoc _ _ _).trans hunread.symm⟩

theorem unread_pastTable (c : Cursor) (opening : Token) :
    (c.pastTable opening).unread = (tableSpan opening.content c.unread).2.1 := by
  rw [Cursor.pastTable]
  split
  · rfl
  · rfl

theorem unread_tableAt (env : Reading) (c : Cursor) (opening : Token) (cells : List CellRead) :
    (c.tableAt env opening cells).2.unread = (tableSpan opening.content c.unread).2.1 := by
  have hpast := unread_pastTable c.clearPending opening
  rw [Cursor.tableAt]
  dsimp only [Cursor.closeTable]
  split
  · exact hpast
  · exact hpast

theorem tableAt_suffix (env : Reading) (c : Cursor) (opening : Token) (cells : List CellRead) :
    (c.tableAt env opening cells).2.unread <:+ c.unread :=
  unread_tableAt env c opening cells ▸ tableSpan_suffix opening.content c.unread

/-- The lines of a table are those from its opening line on, up to its closing delimiter. -/
theorem tableBody_of_suffix {c : Cursor} {opening : Token}
    (h : opening :: c.unread <:+ s.tokens marker) :
    s.tableBody marker opening.line = c.tableBody opening := by
  rw [Source.tableBody, Source.tokensFrom_of_suffix h]
  rfl

/-- A table stands on its opening line and the lines behind it. -/
theorem tableAt_spans {c : Cursor} {opening : Token} {cells : List CellRead}
    (h : opening :: c.unread <:+ s.tokens marker) :
    s.Spans marker opening.line (s.lineAt (c.tableAt env opening cells).2.unread)
      (c.tableAt env opening cells).1 := by
  obtain ⟨headerRows, bodyRows, left, htable, -⟩ := c.tableAt_eq env opening cells
  obtain ⟨closing, hunread⟩ := tableSpan_eq opening.content c.unread
  obtain ⟨-, hnext, -⟩ := Source.line_of_suffix h
  have hlength := congrArg List.length hunread
  rw [List.length_append, List.length_append, ← Cursor.tableBody] at hlength
  rw [htable, unread_tableAt]
  refine .table (Int.le_refl _) ?_
  rw [tableBody_of_suffix h]
  rw [Source.lineAt] at hnext ⊢
  omega

/-- A heading is taken from its line. -/
theorem takes_heading (hreturn : '\r' ∉ marker) {t : Token} {unread : List Token} {level : Nat}
    (h : t :: unread <:+ s.tokens marker) (ht : t.kind = .heading level) :
    s.Takes marker t.line [t.content] t.line := by
  have hcaptures := Token.captures_of_suffix h
  rw [ht] at hcaptures
  exact takes_single hreturn h (by constructor <;> simp [ht]) hcaptures.2

/-- A line that a literal delimiter is opens a literal block. -/
theorem opensLiteral_of_suffix {t : Token} {unread : List Token}
    (h : t :: unread <:+ s.tokens marker) (ht : t.kind = .blockDelimiter .literal) :
    s.opensLiteral marker t.line = true := by
  obtain ⟨-, -, line, -, hline, htoken⟩ := Source.line_of_suffix h
  rw [Source.opensLiteral, hline]
  rw [htoken] at ht
  simp [ht]

/-- A block that blocks stand in stands on their lines and its own. -/
theorem framedBlocks_spans {rules : Rules.Reading} {attributes : BlockAttributes}
    {frame : Option Frame} {opening : Token} {blocks : List Element} {low high : Int}
    (hlow : low ≤ opening.line) (hhigh : opening.line < high)
    (hblocks : s.SpansAll marker opening.line high blocks) :
    s.Spans marker low high (framedBlocks rules attributes frame opening blocks) := by
  rw [framedBlocks]
  repeat' split
  all_goals first
    | exact .compound hlow hhigh hblocks
    | exact .quoteBlock hlow hhigh hblocks

theorem listOf_spans {first : Token} {items : List Element} {low high : Int}
    (hlow : low ≤ first.line) (hhigh : first.line < high)
    (hitems : s.SpansAll marker first.line high items) :
    s.Spans marker low high (listOf first items) := by
  rw [listOf]
  split
  · exact .orderedList hlow hhigh hitems
  · exact .unorderedList hlow hhigh hitems
  · exact .unorderedList hlow hhigh hitems

/-- A line that blank lines and comments were skipped for is neither. -/
theorem kind_of_skipBlank {c : Cursor} {t : Token} {rest : List Token}
    (h : c.skipBlank.unread = t :: rest) : t.kind ≠ .blank ∧ t.kind ≠ .comment := by
  have hhead := List.head?_dropWhile_not Token.isSkipped c.unread
  rw [show c.unread.dropWhile Token.isSkipped = t :: rest from h] at hhead
  simpa [Token.isSkipped] using hhead

/-- A line with a description behind a delimiter is a term. -/
theorem kind_of_description? {t : Token} {delimiter description : Text}
    (h : t.description? delimiter = some description) :
    t.kind = .term delimiter description := by
  unfold Token.description? at h
  split at h
  · split at h
    · rename_i hkind hsame
      rw [hkind, hsame, Option.some.inj h]
    · cases h
  · cases h

/-- The line after one that is read comes behind it. -/
theorem line_lt_lineAt {t : Token} {unread last : List Token}
    (h : t :: unread <:+ s.tokens marker) (hlast : last <:+ unread) :
    t.line < s.lineAt last := by
  obtain ⟨-, hnext, -⟩ := Source.line_of_suffix h
  have := Source.lineAt_le_of_suffix (s := s) hlast
  omega

/-- A line that starts a paragraph opens no block. -/
theorem opensBlock_of_startsParagraph {t : Token} (h : t.startsParagraph = true) :
    t.opensBlock = false := by
  unfold Token.startsParagraph at h
  unfold Token.opensBlock
  cases hkind : t.kind <;> simp_all

/-- A delimiter of a frame opens a block, and so does that of an open block. -/
theorem opensBlock_of_opens? {t : Token} {frame : Option Frame} (h : t.opens? = some frame) :
    t.opensBlock = true := by
  unfold Token.opens? at h
  unfold Token.opensBlock
  cases hkind : t.kind <;> simp_all

/-- What is read stands on the lines it is read from. -/
theorem Reads.standsOn (hreturn : '\r' ∉ marker) {part : Part} {c last : Cursor}
    {value : part.Value} (h : env.Reads admits part c value last) :
    part.StandsOn s marker c value last := by
  have hskip (c : Cursor) : c.skipBlank.unread <:+ c.unread := List.dropWhile_suffix _
  have hbehind {c : Cursor} {t : Token} {rest : List Token}
      (h : c.skipBlank.unread = t :: rest) : t :: rest <:+ c.unread := h ▸ hskip c
  induction h with
  | @blocksEnd _ _ closing c h =>
    intro hc
    have hlast : (closing.elim c.skipBlank fun delimiter =>
        c.skipBlank.notice (.unclosedBlock delimiter)).unread = c.skipBlank.unread := by
      cases closing <;> rfl
    rw [hlast]
    exact ⟨hskip c, .nil (Source.lineAt_le_of_suffix (hskip c))⟩
  | @blocksClosed _ _ closing c t rest h hclosing ht =>
    intro hc
    have hrest := (List.suffix_cons t rest).trans (hbehind h)
    exact ⟨hrest, .nil (Source.lineAt_le_of_suffix hrest)⟩
  | @blocksHeading _ _ c t rest h ht =>
    intro hc
    exact ⟨hskip c, .nil (Source.lineAt_le_of_suffix (hskip c))⟩
  | @blocksCons _ _ closing c t rest first next more last h _ _ _ _ ihfirst ihmore =>
    intro hc
    have hsuffix := hbehind h
    obtain ⟨hnext, hspans⟩ := ihfirst (hsuffix.trans hc) (kind_of_skipBlank h).1
    have hnext := hnext.trans ((List.suffix_cons t rest).trans hsuffix)
    obtain ⟨hlast, hothers⟩ := ihmore (hnext.trans hc)
    obtain ⟨hline, -⟩ := Source.line_of_suffix (hsuffix.trans hc)
    have := Source.lineAt_le_of_suffix (s := s) hsuffix
    exact ⟨hlast.trans hnext, (hspans.append hothers).mono (by omega)⟩
  | @metadata _ _ t c ht _ =>
    intro hc _
    rw [unread_described]
    exact ⟨List.suffix_refl _, .nil (Int.le_of_lt (line_lt_lineAt hc (List.suffix_refl _)))⟩
  | @lineBreak _ _ t c name ht =>
    intro hc _
    exact ⟨List.suffix_refl _,
      .singleton (.unsupported (Int.le_refl _) (line_lt_lineAt hc (List.suffix_refl _)))⟩
  | @headingAlone _ _ t c level ht halone =>
    intro hc _
    obtain ⟨-, hnext, -⟩ := Source.line_of_suffix hc
    exact ⟨List.suffix_refl _, .singleton (.sectionBlock (Int.le_refl _)
      (line_lt_lineAt hc (List.suffix_refl _)) (takes_heading hreturn hc ht)
      (.nil (Int.le_of_eq hnext.symm)))⟩
  | @heading _ t c bs last level ht _ ih =>
    intro hc _
    obtain ⟨hlast, hblocks⟩ := ih ((List.suffix_cons _ _).trans hc)
    obtain ⟨-, hnext, -⟩ := Source.line_of_suffix hc
    exact ⟨hlast, .singleton (.sectionBlock (Int.le_refl _) (line_lt_lineAt hc hlast)
      (takes_heading hreturn hc ht) (hblocks.mono (Int.le_of_eq hnext.symm)))⟩
  | @listBlock _ _ t c bullet e last ht _ ih =>
    intro hc _
    obtain ⟨hlast, hlist⟩ := ih hc ht
    exact ⟨hlast, .singleton hlist⟩
  | @descriptionBlock _ _ t c delimiter description e last ht _ ih =>
    intro hc _
    obtain ⟨hlast, hlist⟩ := ih hc ht
    exact ⟨hlast, .singleton hlist⟩
  | @framedLines _ _ t c frame r ht hlines =>
    intro hc _
    have hopens : frame = some .literal → s.opensLiteral marker t.line = true := by
      rintro rfl
      refine opensLiteral_of_suffix hc ?_
      unfold Token.opens? at ht
      split at ht
      · simp_all
      · cases ht
      · cases ht
    obtain ⟨hlast, hspans⟩ :=
      Cursor.framedLines?_spans hc (opensBlock_of_opens? ht) hopens hlines
    refine ⟨hlast, ?_⟩
    cases hvalue : r.value with
    | none => exact .nil (Int.le_of_lt (line_lt_lineAt hc hlast))
    | some e => exact .singleton (hspans e hvalue)
  | @framedBlocks _ _ t c frame bs last ht _ _ ih =>
    intro hc _
    obtain ⟨hlast, hblocks⟩ := ih ((List.suffix_cons _ _).trans hc)
    obtain ⟨-, hnext, -⟩ := Source.line_of_suffix hc
    have hmore : s.SpansAll marker t.line (s.lineAt last.unread) bs :=
      hblocks.mono (by rw [show c.clearPending.unread = c.unread from rfl, hnext]; omega)
    exact ⟨hlast, .singleton
      (framedBlocks_spans (Int.le_refl _) (line_lt_lineAt hc hlast) hmore)⟩
  | @fence _ _ t c language ht =>
    intro hc _
    have hframed : t.opensBlock = true := by rw [Token.opensBlock, ht]
    obtain ⟨hlast, hspans⟩ := Cursor.fenced_spans language hc hframed
    exact ⟨hlast, .singleton hspans⟩
  | @table _ _ t c inner after ht _ _ _ =>
    intro hc _
    have hlast := tableAt_suffix env c t ((Table.cells (c.tableBody t)).map fun p =>
      env.cellOf c.attributes p (inner p) (after p))
    exact ⟨hlast, .singleton (tableAt_spans hc)⟩
  | @paragraph inList _ t c ht =>
    intro hc hblank
    have hcomment : t.kind = .comment → t.endsParagraph inList = false := by
      intro hkind
      simp [Token.endsParagraph, hkind]
    obtain ⟨hlast, hspans⟩ := Cursor.paragraph_spans hreturn env.rules inList hc hblank
      (opensBlock_of_startsParagraph ht) hcomment
    refine ⟨hlast, ?_⟩
    cases hvalue : (c.paragraph env.rules inList t).value with
    | none => exact .nil (Int.le_of_lt (line_lt_lineAt hc hlast))
    | some e => exact .singleton (hspans e hvalue)
  | @list _ bullet first c es last _ ih =>
    intro hc hfirst
    obtain ⟨hlast, hitems⟩ := ih hc hfirst
    exact ⟨hlast, listOf_spans (Int.le_refl _) (line_lt_lineAt hc hlast) hitems⟩
  | @itemsLast _ bullet first c e next _ _ ih =>
    intro hc hfirst
    obtain ⟨hnext, hitem⟩ := ih hc bullet hfirst
    exact ⟨(hskip next).trans hnext,
      .cons hitem (.nil (Source.lineAt_le_of_suffix (hskip next)))⟩
  | @itemsCons _ bullet first c e next t rest es last _ h ht _ ihitem ihitems =>
    intro hc hfirst
    obtain ⟨hnext, hitem⟩ := ihitem hc bullet hfirst
    have hsuffix := (hbehind h).trans hnext
    have htokens := hsuffix.trans ((List.suffix_cons _ _).trans hc)
    obtain ⟨hlast, hitems⟩ := ihitems htokens ht
    obtain ⟨hline, -⟩ := Source.line_of_suffix htokens
    have := Source.lineAt_le_of_suffix (s := s) (hbehind h)
    exact ⟨hlast.trans ((List.suffix_cons _ _).trans hsuffix),
      .cons hitem (hitems.mono (by omega))⟩
  | @item _ first c bs last _ ih =>
    intro hc bullet hfirst
    have hpast := itemSpan_suffix c.unread
    obtain ⟨hlast, hblocks⟩ := ih (hpast.trans ((List.suffix_cons _ _).trans hc))
    exact ⟨hlast.trans hpast, itemOf_spans hreturn hc hfirst hblocks⟩
  | @attachedEnd _ c _ _ =>
    intro hc
    exact ⟨List.suffix_refl _, .nil (Int.le_refl _)⟩
  | @attachedCons _ c t rest first next more last h _ _ _ ihfirst ihmore =>
    intro hc
    have hrest : rest <:+ c.unread := h ▸ List.suffix_cons t rest
    obtain ⟨hnext, hspans⟩ := ihfirst (hrest.trans hc)
    have hnext := hnext.trans hrest
    obtain ⟨hlast, hothers⟩ := ihmore (hnext.trans hc)
    exact ⟨hlast.trans hnext,
      (hspans.append hothers).mono (Source.lineAt_le_of_suffix hrest)⟩
  | @attachedList _ c t rest bullet e next more last h ht _ _ _ ihlist ihmore =>
    intro hc
    have hsuffix := hbehind h
    obtain ⟨hnext, hlist⟩ := ihlist (hsuffix.trans hc) ht
    have hnext := hnext.trans ((List.suffix_cons _ _).trans hsuffix)
    obtain ⟨hlast, hothers⟩ := ihmore (hnext.trans hc)
    obtain ⟨hline, -⟩ := Source.line_of_suffix (hsuffix.trans hc)
    have := Source.lineAt_le_of_suffix (s := s) hsuffix
    exact ⟨hlast.trans hnext, .cons (hlist.mono (by omega)) hothers⟩
  | @attachedDescriptions _ c t rest delimiter description e next more last h ht _ _ _ ihlist
      ihmore =>
    intro hc
    have hsuffix := hbehind h
    obtain ⟨hnext, hlist⟩ := ihlist (hsuffix.trans hc) ht
    have hnext := hnext.trans ((List.suffix_cons _ _).trans hsuffix)
    obtain ⟨hlast, hothers⟩ := ihmore (hnext.trans hc)
    obtain ⟨hline, -⟩ := Source.line_of_suffix (hsuffix.trans hc)
    have := Source.lineAt_le_of_suffix (s := s) hsuffix
    exact ⟨hlast.trans hnext, .cons (hlist.mono (by omega)) hothers⟩
  | @nothingAttached c _ =>
    intro hc
    exact ⟨List.suffix_refl _, .nil (Int.le_refl _)⟩
  | @metadataAttached c t rest next e last h hblank _ _ _ ihblock ihmore =>
    intro hc
    have hsuffix : t :: rest <:+ c.unread := h ▸ List.suffix_refl _
    obtain ⟨hnext, -⟩ := ihblock (hsuffix.trans hc) hblank
    have hnext := hnext.trans ((List.suffix_cons _ _).trans hsuffix)
    obtain ⟨hlast, hspans⟩ := ihmore (hnext.trans hc)
    exact ⟨hlast.trans hnext, hspans.mono (Source.lineAt_le_of_suffix hnext)⟩
  | @blockAttached c t rest e next h hblank _ _ ih =>
    intro hc
    have hsuffix : t :: rest <:+ c.unread := h ▸ List.suffix_refl _
    obtain ⟨hnext, hspans⟩ := ih (hsuffix.trans hc) hblank
    obtain ⟨hline, -⟩ := Source.line_of_suffix (hsuffix.trans hc)
    have := Source.lineAt_le_of_suffix (s := s) hsuffix
    exact ⟨hnext.trans ((List.suffix_cons _ _).trans hsuffix), hspans.mono (by omega)⟩
  | @descriptionList _ delimiter description first c es last _ ih =>
    intro hc hfirst
    obtain ⟨hlast, hentries⟩ := ih hc hfirst
    exact ⟨hlast, .descriptionList (Int.le_refl _) (line_lt_lineAt hc hlast) hentries⟩
  | @entriesLast _ delimiter description first c e next _ _ ih =>
    intro hc hfirst
    obtain ⟨hnext, hentry⟩ := ih hc hfirst
    exact ⟨(hskip next).trans hnext,
      hentry.append (.nil (Source.lineAt_le_of_suffix (hskip next)))⟩
  | @entriesCons _ delimiter description first c e next t rest other es last _ h ht _ ihentry
      ihentries =>
    intro hc hfirst
    obtain ⟨hnext, hentry⟩ := ihentry hc hfirst
    have hsuffix := (hbehind h).trans hnext
    have htokens := hsuffix.trans ((List.suffix_cons _ _).trans hc)
    obtain ⟨hlast, hentries⟩ := ihentries htokens (kind_of_description? ht)
    obtain ⟨hline, -⟩ := Source.line_of_suffix htokens
    have := Source.lineAt_le_of_suffix (s := s) (hbehind h)
    exact ⟨hlast.trans ((List.suffix_cons _ _).trans hsuffix),
      hentry.append (hentries.mono (by omega))⟩
  | @entry _ delimiter description first c bs last _ ih =>
    intro hc hfirst
    have hpast : (c.pastTerms delimiter first description).pastText.unread <:+ c.unread :=
      (itemSpan_suffix _).trans ((c.pastTerms_suffix delimiter first description).trans
        (termSpan_suffix delimiter first description c.unread))
    obtain ⟨hlast, hblocks⟩ := ih (hpast.trans ((List.suffix_cons _ _).trans hc))
    exact ⟨hlast.trans hpast, entryOf_spans hreturn hc hfirst hblocks⟩

end Reading

/-! ## Documents -/

variable {s : Source} {marker : Text}

theorem dropTextLine_suffix (unread : List Token) : dropTextLine unread <:+ unread := by
  cases unread with
  | nil => exact List.suffix_refl _
  | cons t rest =>
    rw [dropTextLine]
    split
    · exact List.suffix_cons _ _
    · exact List.suffix_refl _

theorem Cursor.pastTitle_suffix (c : Cursor) : c.pastTitle.unread <:+ c.unread :=
  (List.dropWhile_suffix _).trans ((dropTextLine_suffix _).trans (dropTextLine_suffix _))

/-- Attribute entries say nothing about the next block and are no remarks. -/
theorem Cursor.recordAll_keeps (c : Cursor) (lines : List Token) :
    (c.recordAll lines).pending = c.pending ∧ (c.recordAll lines).remarks = c.remarks := by
  induction lines generalizing c with
  | nil => exact ⟨rfl, rfl⟩
  | cons t rest ih =>
    have hline : (c.recordAll [t]).pending = c.pending ∧
        (c.recordAll [t]).remarks = c.remarks := by
      rw [recordAll, List.foldl_cons, List.foldl_nil]
      split <;> exact ⟨rfl, rfl⟩
    obtain ⟨hpending, hremarks⟩ := ih (c.recordAll [t])
    exact ⟨hpending.trans hline.1, hremarks.trans hline.2⟩

/-- Reading the header says nothing about the next block and makes no remarks. -/
theorem Cursor.header_keeps (c : Cursor) : c.header.2.unread <:+ c.unread ∧
    c.header.2.pending = c.pending ∧ c.header.2.remarks = c.remarks := by
  have hstart : c.pastPreamble.unread <:+ c.unread := List.dropWhile_suffix _
  obtain ⟨hpending, hremarks⟩ : c.pastPreamble.pending = c.pending ∧
      c.pastPreamble.remarks = c.remarks := c.recordAll_keeps _
  rw [header]
  split
  next => exact ⟨hstart, hpending, hremarks⟩
  next t rest hunread =>
    split
    next =>
      have hpast := (c.pastPreamble.moveTo rest).recordAll_keeps
      have hrest : rest <:+ c.unread := (hunread ▸ List.suffix_cons t rest).trans hstart
      exact ⟨(pastTitle_suffix _).trans hrest, (hpast _).1.trans hpending,
        (hpast _).2.trans hremarks⟩
    next => exact ⟨hstart, hpending, hremarks⟩

/-- The title of a document is one of its lines, and what is left starts behind it. -/
theorem Cursor.header_title {c : Cursor} {title : Title} (h : c.header.1 = some title) :
    ∃ t rest, t :: rest <:+ c.unread ∧ t.kind = .heading 0 ∧
      title = ⟨some t.line, t.content, 0⟩ ∧ c.header.2.unread <:+ rest := by
  have hstart : c.pastPreamble.unread <:+ c.unread := List.dropWhile_suffix _
  unfold header at h ⊢
  dsimp only at h ⊢
  split at h
  · cases h
  · rename_i t rest hunread
    split at h
    · rename_i ht
      rw [hunread] at hstart
      rw [if_pos ht]
      exact ⟨t, rest, hstart, ht, (Option.some.inj h).symm, pastTitle_suffix _⟩
    · cases h

theorem Cursor.header_onLines (hreturn : '\r' ∉ marker) {c : Cursor}
    (hc : c.unread <:+ s.tokens marker) :
    c.header.2.unread <:+ s.tokens marker ∧ ∀ title, c.header.1 = some title →
      ∃ line, title.line = some line ∧ line < s.lineAt c.header.2.unread ∧
        s.Takes marker line [title.title] line := by
  refine ⟨c.header_keeps.1.trans hc, fun title htitle => ?_⟩
  obtain ⟨t, rest, hline, ht, rfl, hpast⟩ := Cursor.header_title htitle
  have hsuffix := hline.trans hc
  exact ⟨t.line, rfl, Reading.line_lt_lineAt hsuffix hpast,
    Reading.takes_heading hreturn hsuffix ht⟩

/-- The place before the first line of a text. -/
def Source.start (s : Source) (marker : Text) : Cursor := { unread := s.tokens marker }

/-- A text is read as a document from the place before its first line on, and refused on account
of the first fault that is met. -/
theorem Element.document_ofText (rules : Rules.Reading) (marker t : Text) :
    (Element.ofText rules (.text marker) t).document =
      let read := ((Source.ofText t).start marker).readDocument ⟨rules, marker⟩ true t
      match read.2.fault? with
      | none => .ok read.1
      | some (fault, _) => .error fault := by
  rw [Element.ofText, Element.ofLines, Tokens.ofLines?, if_neg (by simp)]
  rfl

/-- A document that is read from the lines of a text has its title and its blocks on lines of the
text, the blocks behind the title. -/
theorem Cursor.readDocument_onLines (hreturn : '\r' ∉ marker) (env : Reading) {c : Cursor}
    (hc : c.unread <:+ s.tokens marker) (source : Text) :
    ∃ top blocks attributes low high,
      (c.readDocument env true source).1 = .document (some 1) top blocks attributes source ∧
      (∀ title, top = some title → ∃ line, title.line = some line ∧ line < low ∧
        s.Takes marker line [title.title] line) ∧
      1 ≤ low ∧ s.SpansAll marker low high blocks ∧ high ≤ s.count + 1 := by
  obtain ⟨hstart, htitle⟩ := Cursor.header_onLines hreturn hc
  obtain ⟨-, hblocks⟩ := (env.blocks_reads false (-1) none c.header.2).standsOn hreturn hstart
  refine ⟨_, _, _, _, _, rfl, htitle, ?_, hblocks, ?_⟩
  · have := hstart.length_le
    rw [Source.length_tokens] at this
    rw [Source.lineAt]
    omega
  · rw [Source.lineAt]
    omega

end Asciidoc
