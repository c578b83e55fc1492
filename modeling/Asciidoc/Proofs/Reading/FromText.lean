import Asciidoc.Proofs.Reading.Faults
import Asciidoc.Proofs.Reading.OnLines
import Asciidoc.Proofs.Table.Pieces

/-!
# Everything that is read comes from the text

The lines of a document, and those of the documents in its cells, are pieces of the text, and so
is whatever is known about the next block as far as a fault can depend on it (`Reads.isFrom`).
So a text can only have a fault if it has the key of the positional values in it, or a run of
digits that is too long to be a number (`Cursor.IsFrom.isClean`).
-/

namespace Asciidoc

open Text

/-! ## Lines and places -/

/-- A line is in a text, and so is what it says about a block. -/
structure Token.IsFrom (t : Token) (whole : Text) : Prop where
  text : t.text <:+: whole
  content : t.kind = .blockAttribute → t.content <:+: whole

/-- Whatever is known at a place is from a text: the lines to be read, and, as far as faults
depend on it, what was said about the next block. -/
structure Cursor.IsFrom (c : Cursor) (whole : Text) : Prop where
  unread : ∀ t ∈ c.unread, t.IsFrom whole
  positional : c.pending.HasText → BlockAttributes.positionalKey <:+: whole
  columns : ∀ cols, c.pending.value? "cols".toList = some cols → cols <:+: whole

/-- A text that cannot have a fault: the key of the positional values is not in it, and every run
of digits in it can be read as a number. -/
structure Text.IsHarmless (whole : Text) : Prop where
  key : ¬BlockAttributes.positionalKey <:+: whole
  digits : ∀ digits, digits <:+: whole → digits.all Digit.isDigit = true →
    digits.length ≤ Digit.longest

variable {whole : Text} {c : Cursor} {t : Token}

/-- A classified line is from wherever the line is from. -/
theorem Token.isFrom_ofEntry (marker : Text) {entry : Int × Text} (h : entry.2 <:+: whole) :
    (Token.ofEntry marker entry).IsFrom whole := by
  have htext := (dropReturns_isPrefix entry.2).isInfix.trans h
  refine ⟨htext, fun hkind => ?_⟩
  have hcaptures := Token.classify_captures marker (dropReturns entry.2)
  rw [← Token.kind_ofEntry, hkind] at hcaptures
  exact hcaptures.trans htext

/-- The lines of a cell are from wherever the lines of its table are from. -/
theorem Cursor.isFrom_ofCell {marker : Text} {attributes : List (Text × Text)} {body : List Token}
    (hbody : ∀ t ∈ body, t.IsFrom whole) {p : Table.PendingCell} (hp : p ∈ Table.cells body) :
    (Cursor.ofCell marker attributes p).IsFrom whole := by
  have hcell := Table.cells_from (fun t ht => (hbody t ht).text) p hp
  refine ⟨fun t ht => ?_, nofun, nofun⟩
  obtain ⟨entry, hentry, rfl⟩ := List.mem_map.mp ht
  exact Token.isFrom_ofEntry marker (hcell.lines entry (p.content_subset hentry))

namespace Cursor.IsFrom

/-- Nothing is known at a place before some of the lines. -/
theorem moveTo (hc : c.IsFrom whole) {unread : List Token} (h : unread <:+ c.unread) :
    (c.moveTo unread).IsFrom whole :=
  ⟨fun t ht => hc.unread t (h.subset ht), hc.positional, hc.columns⟩

/-- After a block nothing is known about the next. -/
theorem past (hc : c.IsFrom whole) {last : Cursor} (h : last.unread <:+ c.unread)
    (hpending : last.pending = {}) : last.IsFrom whole :=
  ⟨fun t ht => hc.unread t (h.subset ht), hpending ▸ nofun, hpending ▸ nofun⟩

theorem clearPending (hc : c.IsFrom whole) : c.clearPending.IsFrom whole :=
  hc.past (List.suffix_refl _) rfl

theorem skipBlank (hc : c.IsFrom whole) : c.skipBlank.IsFrom whole :=
  hc.moveTo (List.dropWhile_suffix _)

/-- The next line and the place after it. -/
theorem next (hc : c.IsFrom whole) {rest : List Token} (h : c.unread = t :: rest) :
    t.IsFrom whole ∧ (c.moveTo rest).IsFrom whole :=
  ⟨hc.unread t (h ▸ List.mem_cons_self), hc.moveTo (h ▸ List.suffix_cons t rest)⟩

theorem notice (hc : c.IsFrom whole) (n : Notice) : (c.notice n).IsFrom whole :=
  ⟨hc.unread, hc.positional, hc.columns⟩

theorem verbatim (hc : c.IsFrom whole) (closing : Text) :
    (c.verbatim closing).cursor.IsFrom whole := by
  obtain ⟨taken, after, hunread, -, hafter⟩ := verbatimSpan_eq closing c.unread
  have hspan : (verbatimSpan closing c.unread).2.1 <:+ c.unread :=
    hafter.trans (hunread ▸ List.suffix_append taken after)
  rw [Cursor.verbatim]
  dsimp only
  split
  · exact hc.moveTo hspan
  · exact (hc.moveTo hspan).notice _

theorem paragraph (hc : c.IsFrom whole) (rules : Rules.Reading) (inList : Bool) (t : Token) :
    (c.paragraph rules inList t).cursor.IsFrom whole := by
  rw [Cursor.paragraph]
  dsimp only
  split
  · exact hc.clearPending
  · exact (hc.moveTo (List.dropWhile_suffix _)).clearPending

theorem tableAt (hc : c.IsFrom whole) (env : Reading) (opening : Token) (cells : List CellRead) :
    (c.tableAt env opening cells).2.IsFrom whole := by
  refine hc.past (Reading.tableAt_suffix env c opening cells) ?_
  rw [Cursor.tableAt]
  dsimp only [Cursor.closeTable]
  have hpast : (c.clearPending.pastTable opening).pending = {} := by
    rw [Cursor.pastTable]
    split <;> rfl
  split <;> exact hpast

theorem pastTerms (hc : c.IsFrom whole) (delimiter : Text) (first : Token) (description : Text) :
    (c.pastTerms delimiter first description).IsFrom whole := by
  have hspan := hc.moveTo (termSpan_suffix delimiter first description c.unread)
  rw [Cursor.pastTerms]
  split
  · exact hspan.skipBlank
  · exact hspan

/-- What a line says about the next block is in the line. -/
theorem described (ht : t.IsFrom whole) (hc : c.IsFrom whole) : (c.described t).IsFrom whole := by
  have hkeys : ∀ key, key = BlockAttributes.identifierKey ∨ key = BlockAttributes.titleKey →
      key ≠ BlockAttributes.positionalKey ∧ "cols".toList ≠ key := by
    rintro key (rfl | rfl) <;> decide
  have hnamed {key value : Text} (hkey : key = BlockAttributes.identifierKey ∨
      key = BlockAttributes.titleKey) : (c.namePending key value).IsFrom whole := by
    obtain ⟨hpositional, hcols⟩ := hkeys key hkey
    refine ⟨hc.unread, fun ⟨v, hv⟩ => hc.positional ⟨v, ?_⟩, fun cols h => hc.columns cols ?_⟩
    · rwa [Cursor.namePending, BlockAttributes.positional_name hpositional] at hv
    · rwa [Cursor.namePending, BlockAttributes.value?_name_of_ne hcols] at h
  unfold Cursor.described
  split
  · exact ⟨hc.unread, hc.positional, hc.columns⟩
  · rename_i hkind
    have hcontent := ht.content hkind
    have hcols : BlockAttributes.IsEntryKey "cols".toList := ⟨by decide, by decide, by decide⟩
    refine ⟨hc.unread, fun h => ?_, fun cols h => ?_⟩
    · rcases (BlockAttributes.hasText_add _ _).mp h with h | h
      · exact hc.positional h
      · exact h.isInfix.trans hcontent
    · rcases BlockAttributes.value?_add hcols h with h | h
      · exact hc.columns cols h
      · exact h.trans hcontent
  · exact hnamed (.inl rfl)
  · exact hnamed (.inr rfl)
  · exact hc

/-- The lines of a table are among those that were to be read. -/
theorem tableBody (hc : c.IsFrom whole) (opening : Token) :
    ∀ t ∈ c.tableBody opening, t.IsFrom whole := by
  obtain ⟨closing, hunread⟩ := Reading.tableSpan_eq opening.content c.unread
  exact fun t ht => hc.unread t (hunread ▸ List.mem_append_left _ ht)

/-- At a place in a harmless text no line meets a fault. -/
theorem isClean (hwhole : whole.IsHarmless) (ht : t.IsFrom whole) (hc : c.IsFrom whole) :
    t.IsClean c := by
  refine ⟨fun hkind _ h => hwhole.key ?_, fun _ digits hdigits => ?_⟩
  · rcases h with h | h
    · exact hc.positional h
    · exact h.isInfix.trans (ht.content hkind)
  · have hcells := Table.cells_from fun u hu => (hc.tableBody t u hu).text
    have hcols : (c.pending.value? "cols".toList).getD [] <:+: whole := by
      cases hvalue : c.pending.value? "cols".toList with
      | none => exact List.nil_infix
      | some cols => exact hc.columns cols hvalue
    rcases List.mem_append.mp hdigits with hdigits | hdigits
    · obtain ⟨hpiece, hall⟩ := Table.columnNumerals_from hcols hcells digits hdigits
      exact hwhole.digits digits hpiece hall
    · obtain ⟨p, hp, rfl⟩ := List.mem_map.mp hdigits
      obtain ⟨hpiece, hall⟩ := (hcells p hp).spanDigits
      exact hwhole.digits p.spanDigits hpiece hall

end Cursor.IsFrom

/-! ## Reading -/

namespace Reading

/-- The line that a part starts with, if that was taken before. -/
def Part.first? : Part → Option Token
  | .block _ _ first | .list _ _ first | .items _ _ first | .item _ first
  | .descriptionList _ _ _ first | .entries _ _ _ first | .entry _ _ _ first => some first
  | .blocks .. | .attached .. | .attachedBlock => none

variable {env : Reading} {admits : Token → Cursor → Prop}

/-- All steps of reading a part are made at places from the text. -/
theorem Reads.isFrom {part : Part} {last : Cursor} {value : part.Value}
    (h : env.Reads admits part c value last) (hfirst : ∀ t, part.first? = some t → t.IsFrom whole)
    (hc : c.IsFrom whole) : last.IsFrom whole ∧
      env.Reads (fun t c => t.IsFrom whole ∧ c.IsFrom whole) part c value last := by
  induction h with
  | @blocksEnd _ _ closing c h =>
    refine ⟨?_, .blocksEnd h⟩
    cases closing with
    | none => exact hc.skipBlank
    | some delimiter => exact hc.skipBlank.notice _
  | blocksClosed h hclosing ht =>
    exact ⟨(hc.skipBlank.next h).2, .blocksClosed h hclosing ht⟩
  | blocksHeading h ht => exact ⟨hc.skipBlank, .blocksHeading h ht⟩
  | blocksCons h hclosed hheading _ _ ihfirst ihmore =>
    obtain ⟨ht, hrest⟩ := hc.skipBlank.next h
    obtain ⟨hnext, hblock⟩ := ihfirst (by rintro u ⟨⟩; exact ht) hrest
    obtain ⟨hlast, hmore⟩ := ihmore nofun hnext
    exact ⟨hlast, .blocksCons h hclosed hheading hblock hmore⟩
  | metadata ht _ =>
    have hline := hfirst _ rfl
    exact ⟨hc.described hline, .metadata ht ⟨hline, hc⟩⟩
  | lineBreak ht => exact ⟨hc.clearPending, .lineBreak ht⟩
  | headingAlone ht halone => exact ⟨hc.clearPending, .headingAlone ht halone⟩
  | heading ht _ ih =>
    obtain ⟨hlast, hblocks⟩ := ih nofun hc.clearPending
    exact ⟨hlast, .heading ht hblocks⟩
  | listBlock ht _ ih =>
    obtain ⟨hlast, hlist⟩ := ih hfirst hc
    exact ⟨hlast, .listBlock ht hlist⟩
  | descriptionBlock ht _ ih =>
    obtain ⟨hlast, hlist⟩ := ih hfirst hc
    exact ⟨hlast, .descriptionBlock ht hlist⟩
  | framedLines ht hlines =>
    refine ⟨?_, .framedLines ht hlines⟩
    rw [Cursor.framedLines?_cursor hlines]
    exact hc.clearPending.verbatim _
  | framedBlocks ht hlines _ ih =>
    obtain ⟨hlast, hblocks⟩ := ih nofun hc.clearPending
    exact ⟨hlast, .framedBlocks ht hlines hblocks⟩
  | fence ht => exact ⟨hc.clearPending.verbatim _, .fence ht⟩
  | table ht _ _ ih =>
    refine ⟨hc.tableAt env _ _, .table ht ⟨hfirst _ rfl, hc⟩ fun p hp hholds => ?_⟩
    exact (ih p hp hholds nofun (Cursor.isFrom_ofCell (hc.tableBody _) hp)).2
  | paragraph ht => exact ⟨hc.paragraph env.rules _ _, .paragraph ht⟩
  | list _ ih =>
    obtain ⟨hlast, hitems⟩ := ih hfirst hc.clearPending
    exact ⟨hlast, .list hitems⟩
  | itemsLast _ hnext ih =>
    obtain ⟨hlast, hitem⟩ := ih hfirst hc
    exact ⟨hlast.skipBlank, .itemsLast hitem hnext⟩
  | itemsCons _ h ht _ ihitem ihitems =>
    obtain ⟨hnext, hitem⟩ := ihitem hfirst hc
    obtain ⟨hline, hrest⟩ := hnext.skipBlank.next h
    obtain ⟨hlast, hitems⟩ := ihitems (by rintro u ⟨⟩; exact hline) hrest
    exact ⟨hlast, .itemsCons hitem h ht hitems⟩
  | item _ ih =>
    obtain ⟨hlast, hattached⟩ := ih nofun (hc.moveTo (itemSpan_suffix _))
    exact ⟨hlast, .item hattached⟩
  | attachedEnd hplus hnext => exact ⟨hc, .attachedEnd hplus hnext⟩
  | attachedCons h ht _ _ ihfirst ihmore =>
    obtain ⟨hnext, hblock⟩ := ihfirst nofun (hc.next h).2
    obtain ⟨hlast, hmore⟩ := ihmore nofun hnext
    exact ⟨hlast, .attachedCons h ht hblock hmore⟩
  | attachedList h ht hscope _ _ ihlist ihmore =>
    obtain ⟨hline, hrest⟩ := hc.skipBlank.next h
    obtain ⟨hnext, hlist⟩ := ihlist (by rintro u ⟨⟩; exact hline) hrest
    obtain ⟨hlast, hmore⟩ := ihmore nofun hnext
    exact ⟨hlast, .attachedList h ht hscope hlist hmore⟩
  | attachedDescriptions h ht hscope _ _ ihlist ihmore =>
    obtain ⟨hline, hrest⟩ := hc.skipBlank.next h
    obtain ⟨hnext, hlist⟩ := ihlist (by rintro u ⟨⟩; exact hline) hrest
    obtain ⟨hlast, hmore⟩ := ihmore nofun hnext
    exact ⟨hlast, .attachedDescriptions h ht hscope hlist hmore⟩
  | nothingAttached h => exact ⟨hc, .nothingAttached h⟩
  | metadataAttached h hblank _ ht _ ihblock ihmore =>
    obtain ⟨hline, hrest⟩ := hc.next h
    obtain ⟨hnext, hblock⟩ := ihblock (by rintro u ⟨⟩; exact hline) hrest
    obtain ⟨hlast, hmore⟩ := ihmore nofun hnext
    exact ⟨hlast, .metadataAttached h hblank hblock ht hmore⟩
  | blockAttached h hblank _ ht ih =>
    obtain ⟨hline, hrest⟩ := hc.next h
    obtain ⟨hlast, hblock⟩ := ih (by rintro u ⟨⟩; exact hline) hrest
    exact ⟨hlast, .blockAttached h hblank hblock ht⟩
  | descriptionList _ ih =>
    obtain ⟨hlast, hentries⟩ := ih hfirst hc.clearPending
    exact ⟨hlast, .descriptionList hentries⟩
  | entriesLast _ hnext ih =>
    obtain ⟨hlast, hentry⟩ := ih hfirst hc
    exact ⟨hlast.skipBlank, .entriesLast hentry hnext⟩
  | entriesCons _ h ht _ ihentry ihentries =>
    obtain ⟨hnext, hentry⟩ := ihentry hfirst hc
    obtain ⟨hline, hrest⟩ := hnext.skipBlank.next h
    obtain ⟨hlast, hentries⟩ := ihentries (by rintro u ⟨⟩; exact hline) hrest
    exact ⟨hlast, .entriesCons hentry h ht hentries⟩
  | entry _ ih =>
    obtain ⟨hlast, hattached⟩ := ih nofun ((hc.pastTerms _ _ _).moveTo (itemSpan_suffix _))
    exact ⟨hlast, .entry hattached⟩

end Reading

/-! ## Documents -/

/-- Nothing but a text is known before its first line. -/
theorem Source.start_isFrom (marker whole : Text) :
    ((Source.ofText whole).start marker).IsFrom whole := by
  refine ⟨fun t ht => ?_, nofun, nofun⟩
  obtain ⟨entry, hentry, rfl⟩ := List.mem_map.mp ht
  obtain ⟨index, -, hline⟩ := (Source.ofText whole).numbers_numbered.lines_eq entry hentry
  exact Token.isFrom_ofEntry marker (infix_of_mem_split (List.mem_of_getElem? hline))

theorem Cursor.IsFrom.header (hc : c.IsFrom whole) : c.header.2.IsFrom whole := by
  obtain ⟨hunread, hpending, -⟩ := c.header_keeps
  exact ⟨fun t ht => hc.unread t (hunread.subset ht), hpending ▸ hc.positional,
    hpending ▸ hc.columns⟩

/-- What is read from a harmless text is read by clean steps alone. -/
theorem Reading.Reads.isClean {env : Reading} {admits : Token → Cursor → Prop}
    {part : Reading.Part} {last : Cursor} {value : part.Value}
    (h : env.Reads admits part c value last) (hwhole : whole.IsHarmless)
    (hfirst : ∀ t, part.first? = some t → t.IsFrom whole) (hc : c.IsFrom whole) :
    env.Reads Token.IsClean part c value last := by
  obtain ⟨-, hfrom⟩ := h.isFrom hfirst hc
  obtain ⟨more, -, -, hnone, hclean⟩ : Adds c.faults last.faults True _ :=
    hfrom.adds fun _ t c ⟨ht, hc⟩ => hc.isClean hwhole ht
  exact hclean (hnone trivial)

end Asciidoc
