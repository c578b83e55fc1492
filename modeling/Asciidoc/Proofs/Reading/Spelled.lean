import Asciidoc.Proofs.Reading.Equations
import Asciidoc.Proofs.Reading.Hints
import Asciidoc.Proofs.Reading.Every
import Asciidoc.Proofs.Token.Spelled

/-!
# What is read is spelled as its lines are

The texts of the elements that are read are put together from what the lines say, at every depth
and in the documents in cells too (`Reads.spelled`), so they are spelled with the code points of
the lines. Only cells hold documents, and they start on lines with a bar in them.
-/

namespace Asciidoc

open Text

variable {P : Char → Prop} {B : Int → Prop}

namespace Element

variable {e : Element}

/-- An element that is no document, and that with everything inside it is spelled with some code
points. -/
structure SpelledBlock (P : Char → Prop) (B : Int → Prop) (e : Element) : Prop where
  block : e.isDocument = false
  every : e.Every (SpelledIn P B)

theorem SpelledBlock.of_parts (hblock : e.isDocument = false) (hcell : e.isCell = false)
    (htexts : ∀ t ∈ e.texts, ∀ c ∈ t, P c) (hparts : ∀ x ∈ e.parts, x.SpelledBlock P B) :
    e.SpelledBlock P B := by
  refine ⟨hblock, .intro ⟨htexts, fun _ x hx => (hparts x hx).block, ?_, ?_⟩
    fun x hx => (hparts x hx).every⟩
  · intro h
    rw [hcell] at h
    cases h
  · intro h
    rw [hcell] at h
    cases h

/-- An element that says nothing itself. -/
theorem SpelledBlock.of_silent (hblock : e.isDocument = false) (hcell : e.isCell = false)
    (htexts : e.texts = []) (hparts : ∀ x ∈ e.parts, x.SpelledBlock P B) : e.SpelledBlock P B := by
  refine .of_parts hblock hcell (fun t ht => ?_) hparts
  rw [htexts] at ht
  cases ht

/-- An element without parts. -/
theorem SpelledBlock.of_leaf (hblock : e.isDocument = false) (hcell : e.isCell = false)
    (htexts : ∀ t ∈ e.texts, ∀ c ∈ t, P c) (hparts : e.parts = []) : e.SpelledBlock P B := by
  refine .of_parts hblock hcell htexts fun x hx => ?_
  rw [hparts] at hx
  cases hx

end Element

open Element (SpelledBlock)

/-! ## Lines -/

/-- Everything is spelled with some code points. -/
theorem Token.SpelledIn.trivial {t : Token} : t.SpelledIn (fun _ => True) fun _ => True :=
  ⟨fun _ _ => True.intro, fun _ _ => True.intro, fun _ _ _ _ _ => True.intro,
    fun _ _ _ => True.intro⟩

variable {c : Cursor} {first : Token} {rest : List Token} {e : Element}

theorem verbatim_spelled (hc : ∀ t ∈ c.unread, t.SpelledIn P B) (closing : Text) :
    ∀ line ∈ (c.verbatim closing).value, ∀ ch ∈ line, P ch := by
  intro line hline
  obtain ⟨taken, after, hunread, hlines, -⟩ := verbatimSpan_eq closing c.unread
  rw [Cursor.verbatim, hlines] at hline
  obtain ⟨t, ht, rfl⟩ := List.mem_map.mp hline
  exact (hc t (hunread ▸ List.mem_append_left _ ht)).text

theorem blockOfLines?_spelled {frame : Option Frame} {attributes : BlockAttributes}
    {document : List (Text × Text)} {line : Hint} {make : List Text → Option Element}
    (h : blockOfLines? frame attributes document line = some make) {lines : List Text}
    (hlines : ∀ x ∈ lines, ∀ c ∈ x, P c) (he : make lines = some e) : e.SpelledBlock P B := by
  unfold blockOfLines? at h
  dsimp only at h
  repeat' split at h
  all_goals
    cases h
    try cases he
  all_goals first
    | exact .of_leaf rfl rfl hlines rfl
    | exact .of_silent rfl rfl rfl nofun

theorem framedBlocks_spelled (rules : Rules.Reading) (attributes : BlockAttributes)
    (frame : Option Frame) (opening : Token) {blocks : List Element}
    (h : ∀ x ∈ blocks, x.SpelledBlock P B) :
    (framedBlocks rules attributes frame opening blocks).SpelledBlock P B := by
  unfold framedBlocks
  dsimp only
  repeat' split
  all_goals exact .of_silent rfl rfl rfl h

theorem paragraphOf_spelled {rules : Rules.Reading} {attributes : BlockAttributes}
    {document : List (Text × Text)} {indented : Bool} (hfirst : first.SpelledIn P B)
    (hrest : ∀ t ∈ rest, t.SpelledIn P B)
    (h : paragraphOf rules attributes document indented first rest = some e) :
    e.SpelledBlock P B := by
  have htexts : ∀ x ∈ first.text :: rest.map (·.text), ∀ ch ∈ x, P ch := by
    refine List.forall_mem_cons.mpr ⟨hfirst.text, fun x hx => ?_⟩
    obtain ⟨t, ht, rfl⟩ := List.mem_map.mp hx
    exact (hrest t ht).text
  have hdedent : ∀ x ∈ dedent (first.text :: rest.map (·.text)), ∀ ch ∈ x, P ch := by
    intro x hx ch hch
    obtain ⟨line, hline, rfl⟩ := List.mem_map.mp hx
    have hdropped := (trimRight_isPrefix _).subset hch
    exact htexts line hline ch ((List.drop_suffix _ line).subset hdropped)
  have hothers : ∀ x ∈ rest.map fun t => trim t.text, ∀ ch ∈ x, P ch := by
    intro x hx ch hch
    obtain ⟨t, ht, rfl⟩ := List.mem_map.mp hx
    exact (hrest t ht).text ch ((trim_isInfix t.text).subset hch)
  have hstart : ∀ ch ∈ trim first.text, P ch := fun ch hch =>
    hfirst.text ch ((trim_isInfix first.text).subset hch)
  have hwhole (line : Hint) : (Element.paragraph line (trim first.text :: rest.map fun t =>
      trim t.text)).SpelledBlock P B :=
    .of_leaf rfl rfl (List.forall_mem_cons.mpr ⟨hstart, hothers⟩) rfl
  unfold paragraphOf at h
  dsimp only at h
  split at h
  · cases h
  split at h
  · cases h
    exact .of_leaf rfl rfl htexts rfl
  split at h
  · cases h
    exact .of_silent rfl rfl rfl fun x hx => absurd hx List.not_mem_nil
  split at h
  · cases h
    exact .of_leaf rfl rfl hdedent rfl
  split at h
  · cases h
    exact .of_silent rfl rfl rfl (List.forall_mem_singleton.mpr (hwhole _))
  split at h
  · cases h
    exact .of_silent rfl rfl rfl (List.forall_mem_singleton.mpr (hwhole _))
  split at h
  · rename_i label body hlabel
    split at h
    · cases h
      refine .of_silent rfl rfl rfl (List.forall_mem_singleton.mpr ?_)
      refine .of_leaf rfl rfl (List.forall_mem_cons.mpr ⟨fun ch hch => ?_, hothers⟩) rfl
      split at hlabel
      · exact hstart ch ((Shape.label?_suffix hlabel).2.subset hch)
      · cases hlabel
    · cases h
      exact hwhole _
  · cases h
    exact hwhole _

theorem paragraph_spelled (hfirst : first.SpelledIn P B) (hc : ∀ t ∈ c.unread, t.SpelledIn P B)
    (rules : Rules.Reading) (inList : Bool)
    (h : (c.paragraph rules inList first).value = some e) : e.SpelledBlock P B := by
  unfold Cursor.paragraph at h
  dsimp only at h
  split at h
  · exact paragraphOf_spelled hfirst (fun _ ht => absurd ht List.not_mem_nil) h
  · have hlines : ∀ t ∈ (first :: (paragraphSpan inList c.unread).1).filter (·.kind ≠ .comment),
        t.SpelledIn P B := by
      intro t ht
      rcases List.mem_cons.mp (List.mem_of_mem_filter ht) with rfl | ht
      · exact hfirst
      · exact hc t ((List.takeWhile_prefix _).subset ht)
    dsimp only at h
    split at h
    · cases h
    · rename_i start others hspan
      obtain ⟨hstart, hothers⟩ := List.forall_mem_cons.mp (hspan ▸ hlines)
      exact paragraphOf_spelled hstart hothers h

/-! ## Items and entries -/

theorem itemOf_spelled (hnewline : P '\n') (hfirst : first.SpelledIn P B)
    (hrest : ∀ t ∈ rest, t.SpelledIn P B) {blocks : List Element}
    (hblocks : ∀ x ∈ blocks, x.SpelledBlock P B) : (itemOf first rest blocks).SpelledBlock P B := by
  refine .of_parts rfl rfl (List.forall_mem_singleton.mpr fun ch hch => ?_) hblocks
  rcases mem_unlines hch with rfl | ⟨line, hline, hch⟩
  · exact hnewline
  · rcases List.mem_cons.mp hline with rfl | hline
    · exact hfirst.content ch hch
    · obtain ⟨t, ht, rfl⟩ := List.mem_map.mp hline
      exact (hrest t ht).content ch hch

theorem termOf_spelled (hfirst : first.SpelledIn P B) : (termOf first).SpelledBlock P B :=
  .of_leaf rfl rfl (List.forall_mem_singleton.mpr hfirst.content) rfl

theorem itemSpan_spelled {unread : List Token} (h : ∀ t ∈ unread, t.SpelledIn P B) :
    ∀ t ∈ (itemSpan unread).1, t.SpelledIn P B := by
  intro t ht
  obtain ⟨run, hunread, hlines, -⟩ := itemSpan_eq unread
  rw [hlines] at ht
  exact h t (hunread ▸ List.mem_append_left _ (List.mem_of_mem_filter ht))

/-- The description behind the last of some terms is on the line of a term. -/
theorem termSpan_spelled {delimiter description : Text} {unread : List Token}
    (hdescription : ∀ ch ∈ description, P ch) (h : ∀ t ∈ unread, t.SpelledIn P B) :
    ∀ ch ∈ (termSpan delimiter first description unread).2.1, P ch := by
  induction unread generalizing first description with
  | nil => exact hdescription
  | cons t rest ih =>
    obtain ⟨ht, hrest⟩ := List.forall_mem_cons.mp h
    rw [termSpan]
    split
    · split
      · rename_i d next hkind
        split
        · exact ih (ht.description d next hkind) hrest
        · exact hdescription
      · exact hdescription
    · exact hdescription

theorem descriptionOf_spelled (hnewline : P '\n') {lines : List (Int × Text)}
    (hlines : ∀ entry ∈ lines, ∀ ch ∈ entry.2, P ch) {blocks : List Element}
    (hblocks : ∀ x ∈ blocks, x.SpelledBlock P B) (h : descriptionOf lines blocks = some e) :
    e.SpelledBlock P B := by
  unfold descriptionOf at h
  split at h
  · cases h
  · cases h
    exact .of_silent rfl rfl rfl hblocks
  · cases h
    refine .of_parts rfl rfl (List.forall_mem_singleton.mpr fun ch hch => ?_) hblocks
    rcases mem_unlines hch with rfl | ⟨line, hline, hch⟩
    · exact hnewline
    · obtain ⟨entry, hentry, rfl⟩ := List.mem_map.mp hline
      exact hlines entry hentry ch hch

theorem entryOf_spelled (hnewline : P '\n') {delimiter description : Text}
    (hfirst : first.SpelledIn P B) (hdescription : ∀ ch ∈ description, P ch)
    (hc : ∀ t ∈ c.unread, t.SpelledIn P B) {blocks : List Element}
    (hblocks : ∀ x ∈ blocks, x.SpelledBlock P B) :
    ∀ x ∈ (c.entryOf delimiter first description blocks).items, x.SpelledBlock P B := by
  obtain ⟨before, final, hterms, hspan⟩ := Reading.termSpan_eq delimiter first description c.unread
  have hall : ∀ t ∈ first :: c.unread, t.SpelledIn P B := List.forall_mem_cons.mpr ⟨hfirst, hc⟩
  intro x hx
  rcases Entry.mem_items.mp hx with hx | hx
  · obtain ⟨t, ht, rfl⟩ := List.mem_map.mp hx
    refine termOf_spelled (hall t (hspan ▸ ?_))
    rw [hterms] at ht
    rcases List.mem_append.mp ht with ht | ht
    · exact List.mem_append_left _ ht
    · exact List.mem_append_right _ (List.mem_singleton.mp ht ▸ List.mem_cons_self)
  · refine descriptionOf_spelled hnewline (List.forall_mem_append.mpr ⟨?_, ?_⟩) hblocks hx
    · split
      · exact nofun
      · exact List.forall_mem_singleton.mpr (termSpan_spelled hdescription hc)
    · intro entry hentry
      obtain ⟨t, ht, rfl⟩ := List.mem_map.mp hentry
      have hpast : (c.pastTerms delimiter first description).unread <:+ c.unread :=
        (c.pastTerms_suffix delimiter first description).trans (termSpan_suffix _ _ _ _)
      exact (itemSpan_spelled (fun t ht => hc t (hpast.subset ht)) t ht).content

/-! ## Tables -/

theorem tableAt_spelled (env : Reading) (opening : Token) {cells : List CellRead}
    (h : ∀ cell ∈ cells, cell.cell.2.SpelledBlock P B) :
    (c.tableAt env opening cells).1.SpelledBlock P B := by
  obtain ⟨headerRows, bodyRows, left, htable, hcells⟩ := c.tableAt_eq env opening cells
  rw [htable]
  refine .of_silent rfl rfl rfl fun x hx => ?_
  obtain ⟨cell, hcell, rfl⟩ := List.mem_map.mp (hcells ▸ List.mem_append_left left hx)
  exact h cell hcell

theorem cellOf_spelled (hnewline : P '\n') (env : Reading) (attributes : List (Text × Text))
    {p : Table.PendingCell} (hp : p.SpelledIn P B) {blocks : List Element} (after : Cursor)
    (hblocks : p.holdsDocument = true → ∀ x ∈ blocks, x.SpelledBlock P B) :
    (env.cellOf attributes p blocks after).cell.2.SpelledBlock P B := by
  have hcell (inner : Option Element) (hinner : ∀ x ∈ inner, x.Every (Element.SpelledIn P B)) :
      (Element.cell (some p.line) p.text p.style inner p.columns).SpelledBlock P B := by
    refine ⟨rfl, .intro ⟨List.forall_mem_singleton.mpr (hp.cellText hnewline), nofun,
      fun _ => ⟨p.line, rfl, hp.line⟩, fun _ => List.forall_mem_singleton.mpr hp.head?_cellText⟩
        fun x hx => hinner x (Option.mem_toList.mp hx)⟩
  unfold Reading.cellOf
  dsimp only
  split
  · rename_i hholds
    refine hcell _ fun x hx => ?_
    obtain rfl := Option.some.inj hx
    have hinside := hblocks hholds
    exact .intro ⟨nofun, fun _ x hx => (hinside x hx).block, nofun, nofun⟩
      fun x hx => (hinside x hx).every
  · exact hcell none nofun

/-! ## All that is read -/

namespace Reading

/-- The description that a part is given, taken from the line it starts with. -/
def Part.description : Part → Text
  | .descriptionList _ _ description _ | .entries _ _ description _
  | .entry _ _ description _ => description
  | _ => []

/-- What is read is spelled with the code points of the lines it is read from. -/
theorem Reads.spelled {env : Reading} {admits : Token → Cursor → Prop} {part : Part}
    {c last : Cursor} {value : part.Value} (h : env.Reads admits part c value last)
    (hnewline : P '\n') (hlines : ∀ t ∈ part.lines c, t.SpelledIn P B)
    (hdescription : ∀ ch ∈ part.description, P ch) :
    part.Holds (SpelledBlock P B) value := by
  have hoption {e : Option Element} {es : List Element}
      (he : ∀ x, e = some x → x.SpelledBlock P B) (hes : ∀ x ∈ es, x.SpelledBlock P B) :
      ∀ x ∈ e.toList ++ es, x.SpelledBlock P B := by
    intro x hx
    rcases List.mem_append.mp hx with hx | hx
    · exact he x (Option.mem_toList.mp hx)
    · exact hes x hx
  have hskip {c : Cursor} {t : Token} {rest : List Token} (h : c.skipBlank.unread = t :: rest)
      (hc : ∀ u ∈ c.unread, u.SpelledIn P B) : ∀ u ∈ t :: rest, u.SpelledIn P B :=
    fun u hu => hc u (c.skipBlank_suffix.subset (h ▸ hu))
  have hnow {c : Cursor} {t : Token} {rest : List Token} (h : c.unread = t :: rest)
      (hc : ∀ u ∈ c.unread, u.SpelledIn P B) : ∀ u ∈ t :: rest, u.SpelledIn P B :=
    h ▸ hc
  have hleft {part : Part} {c next : Cursor} {value : part.Value}
      (h : env.Reads admits part c value next) (hc : ∀ t ∈ part.lines c, t.SpelledIn P B) :
      ∀ t ∈ next.unread, t.SpelledIn P B :=
    fun t ht => hc t (h.suffix_lines.subset ht)
  have hnone : ∀ ch ∈ ([] : Text), P ch := fun _ hch => absurd hch List.not_mem_nil
  induction h with
  | blocksEnd | blocksClosed | blocksHeading | attachedEnd | metadata | nothingAttached => exact nofun
  | blocksCons h _ _ hfirst _ ihfirst ihmore =>
    have ht := hskip h hlines
    exact hoption (ihfirst ht hnone) (ihmore (hleft hfirst ht) hnone)
  | lineBreak =>
    rintro x ⟨⟩
    exact .of_silent rfl rfl rfl nofun
  | headingAlone =>
    rintro x ⟨⟩
    exact .of_leaf rfl rfl
      (List.forall_mem_singleton.mpr (hlines _ List.mem_cons_self).content) rfl
  | heading _ _ ih =>
    rintro x ⟨⟩
    obtain ⟨ht, hrest⟩ := List.forall_mem_cons.mp hlines
    exact .of_parts rfl rfl (List.forall_mem_singleton.mpr ht.content) (ih hrest hnone)
  | listBlock _ _ ih =>
    rintro x ⟨⟩
    exact ih hlines hnone
  | descriptionBlock ht _ ih =>
    rintro x ⟨⟩
    exact ih hlines ((hlines _ List.mem_cons_self).description _ _ ht)
  | framedLines _ h =>
    intro x hx
    obtain ⟨-, hrest⟩ := List.forall_mem_cons.mp hlines
    rw [Cursor.framedLines?_eq] at h
    obtain ⟨make, hmake, rfl⟩ := Option.map_eq_some_iff.mp h
    exact blockOfLines?_spelled hmake (verbatim_spelled hrest _) hx
  | framedBlocks _ _ _ ih =>
    rintro x ⟨⟩
    obtain ⟨-, hrest⟩ := List.forall_mem_cons.mp hlines
    exact framedBlocks_spelled _ _ _ _ (ih hrest hnone)
  | fence =>
    rintro x ⟨⟩
    obtain ⟨-, hrest⟩ := List.forall_mem_cons.mp hlines
    exact .of_leaf rfl rfl (verbatim_spelled hrest _) rfl
  | @table _ _ t c inner after _ _ _ ih =>
    rintro x ⟨⟩
    obtain ⟨-, hrest⟩ := List.forall_mem_cons.mp hlines
    have hbody : ∀ u ∈ c.tableBody t, u.SpelledIn P B := by
      obtain ⟨closing, hunread⟩ := tableSpan_eq t.content c.unread
      intro u hu
      refine hrest u ?_
      show u ∈ c.unread
      rw [hunread]
      exact List.mem_append_left _ hu
    refine tableAt_spelled env t fun cell hcell => ?_
    obtain ⟨p, hp, rfl⟩ := List.mem_map.mp hcell
    have hspelled := Table.cells_spelled hbody p hp
    exact cellOf_spelled hnewline env c.attributes hspelled (after p) fun hholds =>
      ih p hp hholds (hspelled.unread env.marker c.attributes) hnone
  | @paragraph inList _ t c =>
    intro x hx
    obtain ⟨ht, hrest⟩ := List.forall_mem_cons.mp hlines
    exact paragraph_spelled ht hrest env.rules inList hx
  | list _ ih =>
    unfold listOf
    split <;> exact .of_silent rfl rfl rfl (ih hlines hnone)
  | itemsLast _ _ ih => exact List.forall_mem_singleton.mpr (ih hlines hnone)
  | itemsCons hitem h _ _ ihitem ihitems =>
    exact List.forall_mem_cons.mpr
      ⟨ihitem hlines hnone, ihitems (hskip h (hleft hitem hlines)) hnone⟩
  | @item _ _ c _ _ _ ih =>
    obtain ⟨ht, hrest⟩ := List.forall_mem_cons.mp hlines
    exact itemOf_spelled hnewline ht (itemSpan_spelled hrest)
      (ih (fun t ht => hrest t (c.pastText_suffix.subset ht)) hnone)
  | attachedCons h _ hfirst _ ihfirst ihmore =>
    have hrest := (List.forall_mem_cons.mp (hnow h hlines)).2
    exact hoption (ihfirst hrest hnone) (ihmore (hleft hfirst hrest) hnone)
  | attachedList h _ _ hlist _ ihlist ihmore =>
    have ht := hskip h hlines
    exact List.forall_mem_cons.mpr ⟨ihlist ht hnone, ihmore (hleft hlist ht) hnone⟩
  | attachedDescriptions h hkind _ hlist _ ihlist ihmore =>
    have ht := hskip h hlines
    exact List.forall_mem_cons.mpr
      ⟨ihlist ht ((ht _ List.mem_cons_self).description _ _ hkind), ihmore (hleft hlist ht) hnone⟩
  | metadataAttached h _ hblock _ _ _ ihmore =>
    exact ihmore (hleft hblock (hnow h hlines)) hnone
  | blockAttached h _ _ _ ih => exact ih (hnow h hlines) hnone
  | descriptionList _ ih =>
    refine .of_silent rfl rfl rfl fun x hx => ?_
    obtain ⟨entry, hentry, hx⟩ := List.mem_flatMap.mp hx
    exact ih hlines hdescription entry hentry x hx
  | entriesLast _ _ ih => exact List.forall_mem_singleton.mpr (ih hlines hdescription)
  | entriesCons hentry h ht _ ihentry ihentries =>
    have hnext := hskip h (hleft hentry hlines)
    refine List.forall_mem_cons.mpr ⟨ihentry hlines hdescription, ihentries hnext ?_⟩
    exact (hnext _ List.mem_cons_self).description _ _ (kind_of_description? ht)
  | @entry _ delimiter description first c _ _ _ ih =>
    obtain ⟨ht, hrest⟩ := List.forall_mem_cons.mp hlines
    exact entryOf_spelled hnewline ht hdescription hrest
      (ih (fun t ht => hrest t ((c.entry_suffix delimiter first description).subset ht)) hnone)

end Reading

/-! ## Documents -/

/-- A document is spelled with the code points of its lines. -/
theorem Cursor.readDocument_spelled {c : Cursor} (hnewline : P '\n')
    (hc : ∀ t ∈ c.unread, t.SpelledIn P B) (env : Reading) (source : Text) :
    (c.readDocument env true source).1.Every (Element.SpelledIn P B) := by
  have hblocks : ∀ x ∈ (env.blocks false (-1) none c.header.2).value, x.SpelledBlock P B :=
    (env.blocks_reads false (-1) none c.header.2).spelled hnewline
      (fun t ht => hc t (c.header_keeps.1.subset ht)) fun _ hch => absurd hch List.not_mem_nil
  refine .intro ⟨?_, fun _ x hx => (hblocks x hx).block, nofun, nofun⟩
    fun x hx => (hblocks x hx).every
  intro text htext
  obtain ⟨title, htitle, rfl⟩ := Option.map_eq_some_iff.mp (Option.mem_toList.mp htext)
  obtain ⟨t, rest, hline, -, rfl, -⟩ := Cursor.header_title htitle
  exact (hc t (hline.subset List.mem_cons_self)).content

/-- Whatever a text is read as is a document spelled with the code points of the lines, in which
everything says the line it starts on. -/
theorem Element.ofText_hintedIn {rules : Rules.Reading} {marker : Marker} {t : Text}
    {root : Element} (h : (Element.ofText rules marker t).document = .ok root) (hnewline : P '\n')
    (hlines : ∀ u ∈ (Source.ofText t).tokens marker.textD, u.SpelledIn P B) :
    root.isDocument = true ∧ root.Every (Element.HintedIn P B) := by
  obtain rfl := ofText_eq_ok h
  refine ⟨rfl, ?_⟩
  obtain ⟨hgrow, hnumber⟩ := (Source.ofText t).tokens_grow marker.textD
  have hhinted := Cursor.readDocument_hinted (c := (Source.ofText t).start marker.textD)
    ⟨rules, marker.textD⟩ true t hgrow
  have hspelled := Cursor.readDocument_spelled (c := (Source.ofText t).start marker.textD)
    hnewline hlines ⟨rules, marker.textD⟩ t
  generalize (((Source.ofText t).start marker.textD).readDocument ⟨rules, marker.textD⟩ true t).1
    = root at hhinted hspelled ⊢
  have hline (e : Element) (he : e ∈ root.preorder) (hblock : e.isDocument = false) :
      ∃ n, e.line = some n ∧ 1 ≤ n := by
    have hsome := (hhinted.every e he).line
    rw [hblock, if_neg Bool.false_ne_true] at hsome
    obtain ⟨n, hn⟩ := Option.isSome_iff_exists.mp hsome
    obtain ⟨u, hu, rfl⟩ := hhinted.kind n (mem_hints he hblock hn)
    exact ⟨u.line, hn, (hnumber u hu).1⟩
  refine hspelled.imp₂ (every_of_preorder hline) fun e hspelled hhinted => ⟨hspelled, hhinted.1, ?_⟩
  intro title htitle
  exact hhinted.2 title htitle (isDocument_of_mem_titleLine htitle)

end Asciidoc
