import Asciidoc.Proofs.Element.Nesting
import Asciidoc.Proofs.Reading.Hints
import Asciidoc.Proofs.Reading.Lists
import Asciidoc.Proofs.Reading.Origins

/-!
# Lists and the lines of their marks

A list starts on a line with its marker, and every one of its items was read from such a line; a
description list has its terms from lines with its delimiter (`Element.OnMarks`). This is so for all
lists of a text, wherever they stand outside cells.

The same induction says where tables lie: the lines of a table are among those that the part was
read from that the table is in, so that a line between the delimiters of a table is read by nothing
else.
-/

namespace Asciidoc

open Text

namespace Element

/-- An item that was read from a line with a marker, and from text lines behind that. -/
def IsItemWith (s : Source) (marker bullet : Text) (e : Element) : Prop :=
  ∃ t more blocks, e = itemOf t more blocks ∧ s.token? marker (some t.line) = some t ∧
    t.marker? = some bullet

/-- A term that was read from a line with a delimiter. -/
def IsTermWith (s : Source) (marker delimiter : Text) (e : Element) : Prop :=
  ∃ t description, e = termOf t ∧ s.token? marker (some t.line) = some t ∧
    t.kind = .term delimiter description

/-- A list starts on a line with its mark and has its items or terms from lines with its mark. -/
def OnMarks (s : Source) (marker : Text) : Element → Prop
  | .unorderedList line bullet items | .orderedList line bullet items =>
    (∃ t, line = some t.line ∧ s.token? marker (some t.line) = some t ∧
      t.marker? = some bullet) ∧ ∀ x ∈ items, x.IsItemWith s marker bullet
  | .descriptionList line delimiter entries =>
    (∃ t description, line = some t.line ∧ s.token? marker (some t.line) = some t ∧
      t.kind = .term delimiter description) ∧
      ∀ entry ∈ entries, ∀ x ∈ entry.terms, x.IsTermWith s marker delimiter
  | _ => True

/-- A list is on its marks, and the lines of a table were read between two places. -/
structure SitsIn (s : Source) (marker : Text) (unread left : List Token) (e : Element) : Prop where
  marks : e.OnMarks s marker
  table : e.isTable = true → ∃ n, e.line = some n ∧
    ∀ t ∈ s.tableBody marker n, ReadBetween unread left t.line

/-- So it is with an element and everything in it outside cells. -/
def Sits (s : Source) (marker : Text) (unread left : List Token) (e : Element) : Prop :=
  ∀ x ∈ e.outside, x.SitsIn s marker unread left

/-- There is neither a list nor a table in an element. -/
def Markless (e : Element) : Prop := ∀ x ∈ e.outside, x.mark? = none ∧ x.isTable = false

variable {s : Source} {marker : Text} {unread left : List Token} {e : Element}

theorem Sits.mono (h : e.Sits s marker unread left) {unread' left' : List Token}
    (hunread : unread ⊆ unread') (hleft : left' ⊆ left) : e.Sits s marker unread' left' := by
  intro x hx
  obtain ⟨hmarks, htable⟩ := h x hx
  refine ⟨hmarks, fun h => ?_⟩
  obtain ⟨n, hline, hlines⟩ := htable h
  exact ⟨n, hline, fun t ht => (hlines t ht).mono hunread hleft⟩

/-- What is neither a list nor a table is anywhere. -/
theorem sitsIn_of_mark? (hmark : e.mark? = none) (htable : e.isTable = false) :
    e.SitsIn s marker unread left := by
  refine ⟨?_, fun h => ?_⟩
  · cases e with
    | unorderedList | orderedList | descriptionList => cases hmark
    | _ => trivial
  · rw [htable] at h
    cases h

theorem Markless.sits (h : e.Markless) : e.Sits s marker unread left := by
  intro x hx
  obtain ⟨hmark, htable⟩ := h x hx
  exact sitsIn_of_mark? hmark htable

/-- An element that is put around some blocks, or around none: no list, no table and no document. -/
structure IsAround (e : Element) (blocks : List Element) : Prop where
  mark : e.mark? = none
  table : e.isTable = false
  title : e.titleLine = []
  parts : e.parts ⊆ blocks

variable {blocks : List Element}

/-- What is put around blocks has what is outside cells in these. -/
theorem IsAround.forall_mem_outside {Q : Element → Prop} (h : e.IsAround blocks) (hself : Q e)
    (hblocks : ∀ x ∈ blocks, ∀ y ∈ x.outside, Q y) : ∀ y ∈ e.outside, Q y := by
  apply Element.forall_mem_outside hself
  · rw [h.title]
    exact nofun
  · intro _ x hx
    exact hblocks x (h.parts hx)

theorem IsAround.markless (h : e.IsAround blocks) (hblocks : ∀ x ∈ blocks, x.Markless) :
    e.Markless := by
  show ∀ x ∈ e.outside, x.mark? = none ∧ x.isTable = false
  exact h.forall_mem_outside ⟨h.mark, h.table⟩ hblocks

end Element

/-! ## Elements that are read in turn -/

/-- Of the lines that are to be read, those from `start` up to `middle` are read, and then those
from `next` up to `left`. In front of both some lines may be passed by. -/
structure InTurn (unread start middle next left : List Token) : Prop where
  first : start <:+ unread
  reading : middle <:+ start
  behind : next <:+ middle
  more : left <:+ next

namespace InTurn

variable {unread start middle next left : List Token} {c after last : Cursor} {t : Token}
  {rest : List Token}

theorem next_suffix (h : InTurn unread start middle next left) : next <:+ unread :=
  h.behind.trans (h.reading.trans h.first)

theorem left_suffix (h : InTurn unread start middle next left) : left <:+ middle :=
  h.more.trans h.behind

/-- Behind blank lines something is read from a line on, and then what follows. -/
theorem behindBlanks (h : c.skipBlank.unread = t :: rest) (hfirst : after.unread <:+ rest)
    (hmore : last.unread <:+ after.unread) :
    InTurn c.unread (t :: rest) after.unread after.unread last.unread where
  first := h ▸ c.skipBlank_suffix
  reading := hfirst.trans (List.suffix_cons t rest)
  behind := List.suffix_refl _
  more := hmore

/-- Something is read, and then, behind blank lines, what starts on a line. -/
theorem beforeBlanks (first : Token) (hfirst : after.unread <:+ c.unread)
    (h : after.skipBlank.unread = t :: rest) (hmore : last.unread <:+ rest) :
    InTurn (first :: c.unread) (first :: c.unread) after.unread (t :: rest) last.unread where
  first := List.suffix_refl _
  reading := hfirst.trans (List.suffix_cons first c.unread)
  behind := h ▸ after.skipBlank_suffix
  more := hmore.trans (List.suffix_cons t rest)

end InTurn

/-- The lists of some elements are on their marks, and the lines of the tables were read between two
places. -/
def SitAll (s : Source) (marker : Text) (unread left : List Token) (es : List Element) : Prop :=
  ∀ e ∈ es, e.Sits s marker unread left

namespace SitAll

variable {s : Source} {marker : Text} {unread start middle next left : List Token}
  {es more : List Element} {e : Element}

theorem nil : SitAll s marker unread left [] := nofun

theorem singleton (h : e.Sits s marker unread left) : SitAll s marker unread left [e] :=
  List.forall_mem_singleton.mpr h

theorem mono (h : SitAll s marker next left es) (hnext : next <:+ unread) (hleft : middle <:+ left) :
    SitAll s marker unread middle es := by
  intro e he
  exact (h e he).mono hnext.subset hleft.subset

theorem append (hturn : InTurn unread start middle next left) (hes : SitAll s marker start middle es)
    (hmore : SitAll s marker next left more) : SitAll s marker unread left (es ++ more) := by
  intro e he
  rcases List.mem_append.mp he with he | he
  · exact hes.mono hturn.first hturn.left_suffix e he
  · exact hmore.mono hturn.next_suffix (List.suffix_refl _) e he

theorem cons (hturn : InTurn unread start middle next left) (he : e.Sits s marker start middle)
    (hmore : SitAll s marker next left more) : SitAll s marker unread left (e :: more) :=
  append hturn (singleton he) hmore

/-- What is put around blocks is read where these are. -/
theorem around {blocks : List Element} (h : SitAll s marker unread left blocks)
    (haround : e.IsAround blocks) : e.Sits s marker unread left :=
  haround.forall_mem_outside (Element.sitsIn_of_mark? haround.mark haround.table) h

end SitAll

namespace Reading

open Element (IsAround Markless Sits IsItemWith IsTermWith)

/-! ## Blocks made of lines -/

variable {s : Source} {marker : Text} {t : Token} {c : Cursor} {e : Element}
  {unread left : List Token}

theorem paragraphOf_markless {rules : Rules.Reading} {attributes : BlockAttributes}
    {document : List (Text × Text)} {indented : Bool} {first : Token} {others : List Token}
    (h : paragraphOf rules attributes document indented first others = some e) : e.Markless := by
  have hleaf {e : Element} (h : e.IsAround []) : e.Markless := h.markless nofun
  have hparagraph (line : Hint) (lines : List Text) :
      ∀ x ∈ [Element.paragraph line lines], x.Markless := by
    intro x hx
    obtain rfl := List.mem_singleton.mp hx
    exact hleaf ⟨rfl, rfl, rfl, List.Subset.refl _⟩
  unfold paragraphOf at h
  dsimp only at h
  repeat' split at h
  all_goals cases h
  all_goals first
    | exact hleaf ⟨rfl, rfl, rfl, List.Subset.refl _⟩
    | exact IsAround.markless ⟨rfl, rfl, rfl, List.Subset.refl _⟩ (hparagraph _ _)

theorem paragraph_markless {rules : Rules.Reading} {inList : Bool}
    (h : (c.paragraph rules inList t).value = some e) : e.Markless := by
  unfold Cursor.paragraph at h
  dsimp only at h
  split at h
  · exact paragraphOf_markless h
  · split at h
    · cases h
    · exact paragraphOf_markless h

theorem framedLines?_markless {frame : Option Frame} {r : Reached c.size (Option Element)}
    (h : c.framedLines? frame t = some r) (he : r.value = some e) : e.Markless := by
  unfold Cursor.framedLines? at h
  dsimp only at h
  repeat' split at h
  all_goals cases h
  all_goals cases he
  all_goals exact IsAround.markless ⟨rfl, rfl, rfl, List.Subset.refl _⟩ nofun

theorem framedBlocks_isAround (rules : Rules.Reading) (attributes : BlockAttributes)
    (frame : Option Frame) (opening : Token) (blocks : List Element) :
    (framedBlocks rules attributes frame opening blocks).IsAround blocks := by
  unfold framedBlocks
  dsimp only
  repeat' split
  all_goals exact ⟨rfl, rfl, rfl, List.Subset.refl _⟩

theorem itemOf_isAround (first : Token) (more : List Token) (blocks : List Element) :
    (itemOf first more blocks).IsAround blocks :=
  ⟨rfl, rfl, rfl, List.Subset.refl _⟩

theorem sectionBlock_isAround (line : Hint) (title : Text) (level : Int) (blocks : List Element) :
    (Element.sectionBlock line title level blocks).IsAround blocks :=
  ⟨rfl, rfl, rfl, List.Subset.refl _⟩

/-- The items of an entry are put around the blocks attached to its description. -/
theorem entryOf_isAround {delimiter description : Text} {first : Token} {blocks : List Element} :
    ∀ x ∈ (c.entryOf delimiter first description blocks).items, x.IsAround blocks := by
  intro x hx
  rcases Entry.mem_items.mp hx with hx | hx
  · obtain ⟨t, -, rfl⟩ := List.mem_map.mp hx
    exact ⟨rfl, rfl, rfl, List.nil_subset _⟩
  · unfold Cursor.entryOf at hx
    dsimp only at hx
    unfold descriptionOf at hx
    split at hx
    · cases hx
    · obtain rfl := Option.some.inj hx
      exact ⟨rfl, rfl, rfl, List.Subset.refl _⟩
    · obtain rfl := Option.some.inj hx
      exact ⟨rfl, rfl, rfl, List.Subset.refl _⟩

/-- A list has the marker of its first line, and consists of its items. -/
theorem listOf_eq {first : Token} {bullet : Text} (h : first.marker? = some bullet)
    (items : List Element) : (listOf first items).mark? = some bullet ∧
      (listOf first items).titleLine = [] ∧ (listOf first items).parts = items := by
  unfold listOf
  rcases Token.kind_of_marker? h with ⟨checked, hkind⟩ | hkind
  all_goals
    rw [hkind]
    exact ⟨rfl, rfl, rfl⟩

/-- The lines of a table are read with it. -/
theorem tableAt_sits {env : Reading} {cells : List CellRead}
    (hline : t :: c.unread <:+ s.tokens marker) :
    (c.tableAt env t cells).1.Sits s marker (t :: c.unread) (c.tableAt env t cells).2.unread := by
  obtain ⟨headerRows, bodyRows, left, htable, -⟩ := c.tableAt_eq env t cells
  rw [htable]
  intro x hx
  rw [Element.outside_of_isTable rfl] at hx
  obtain rfl := List.mem_singleton.mp hx
  refine ⟨trivial, fun _ => ⟨t.line, rfl, fun u hu => ?_⟩⟩
  rw [tableBody_of_suffix hline] at hu
  obtain ⟨closing, hunread⟩ := tableSpan_eq t.content c.unread
  have hgrow : LinesGrow c.unread :=
    (s.tokens_grow marker).1.suffix ((List.suffix_cons _ _).trans hline)
  unfold LinesGrow at hgrow
  rw [hunread] at hgrow
  refine ⟨⟨u, List.mem_cons_of_mem _ ?_, rfl⟩, fun v hv => ?_⟩
  · rw [hunread]
    exact List.mem_append_left _ hu
  · rw [unread_tableAt] at hv
    exact (List.pairwise_append.mp hgrow).2.2 u hu v (List.mem_append_right _ hv)

theorem listOf_sits {first : Token} {bullet : Text} {items : List Element}
    (hline : first :: c.unread <:+ s.tokens marker) (hfirst : first.marker? = some bullet)
    (hitems : ∀ x ∈ items, x.IsItemWith s marker bullet) (hsits : SitAll s marker unread left items) :
    (listOf first items).Sits s marker unread left := by
  obtain ⟨hmark, htitle, hparts⟩ := listOf_eq hfirst items
  have hmarks : (listOf first items).OnMarks s marker := by
    have hstart := Source.token?_of_suffix hline
    unfold listOf
    rcases Token.kind_of_marker? hfirst with ⟨checked, hkind⟩ | hkind
    all_goals
      rw [hkind]
      exact ⟨⟨first, rfl, hstart, hfirst⟩, hitems⟩
  apply Element.forall_mem_outside
  · refine ⟨hmarks, ?_⟩
    intro htable
    rw [Element.isTable_of_mark? hmark] at htable
    cases htable
  · rw [htitle]
    exact nofun
  · rw [hparts]
    exact fun _ => hsits

/-- The terms of an entry are on lines with its delimiter. -/
theorem entryOf_isTermWith {delimiter description : Text} {first : Token} {blocks : List Element}
    (hline : first :: c.unread <:+ s.tokens marker)
    (hfirst : first.kind = .term delimiter description) :
    ∀ x ∈ (c.entryOf delimiter first description blocks).terms,
      x.IsTermWith s marker delimiter := by
  obtain ⟨others, hterms, hunread, hothers⟩ :=
    termSpan_terms delimiter first description c.unread
  intro x hx
  have hentry : (c.entryOf delimiter first description blocks).terms
      = (termSpan delimiter first description c.unread).1.map termOf := rfl
  rw [hentry, hterms] at hx
  obtain ⟨t, ht, rfl⟩ := List.mem_map.mp hx
  rcases List.mem_cons.mp ht with rfl | ht
  · exact ⟨t, description, rfl, Source.token?_of_suffix hline, hfirst⟩
  · obtain ⟨next, hkind⟩ := hothers t ht
    obtain ⟨before, behind, rfl⟩ := List.append_of_mem ht
    have hsuffix : t :: (behind ++ (termSpan delimiter first description c.unread).2.2)
        <:+ first :: c.unread :=
      ⟨first :: before,
        congrArg (first :: ·) ((List.append_assoc _ _ _).symm.trans hunread.symm)⟩
    exact ⟨t, next, rfl, Source.token?_of_suffix (hsuffix.trans hline), hkind⟩

/-! ## What is read -/

/-- Where lists and tables of a part lie that is read from an end of the lines of a text. -/
def Part.Sits (s : Source) (marker : Text) : (part : Part) → Cursor → part.Value → Cursor → Prop
  | .blocks .., c, es, last | .attached _, c, es, last =>
    c.unread <:+ s.tokens marker → SitAll s marker c.unread last.unread es
  | .block _ _ first, c, e, last =>
    first :: c.unread <:+ s.tokens marker →
      SitAll s marker (first :: c.unread) last.unread e.toList
  | .attachedBlock, c, e, last =>
    c.unread <:+ s.tokens marker → SitAll s marker c.unread last.unread e.toList
  | .list _ bullet first, c, e, last =>
    first :: c.unread <:+ s.tokens marker → first.marker? = some bullet →
      e.Sits s marker (first :: c.unread) last.unread
  | .items _ bullet first, c, es, last =>
    first :: c.unread <:+ s.tokens marker → first.marker? = some bullet →
      (∀ x ∈ es, x.IsItemWith s marker bullet) ∧
        SitAll s marker (first :: c.unread) last.unread es
  | .item _ first, c, e, last =>
    first :: c.unread <:+ s.tokens marker → (∃ more blocks, e = itemOf first more blocks) ∧
      e.Sits s marker (first :: c.unread) last.unread
  | .descriptionList _ delimiter description first, c, e, last =>
    first :: c.unread <:+ s.tokens marker → first.kind = .term delimiter description →
      e.Sits s marker (first :: c.unread) last.unread
  | .entries _ delimiter description first, c, es, last =>
    first :: c.unread <:+ s.tokens marker → first.kind = .term delimiter description →
      (∀ e ∈ es, ∀ x ∈ e.terms, x.IsTermWith s marker delimiter) ∧
        SitAll s marker (first :: c.unread) last.unread (es.flatMap Entry.items)
  | .entry _ delimiter description first, c, e, last =>
    first :: c.unread <:+ s.tokens marker → first.kind = .term delimiter description →
      (∀ x ∈ e.terms, x.IsTermWith s marker delimiter) ∧
        SitAll s marker (first :: c.unread) last.unread e.items

/-- The lists that are read are on the lines of their marks, and the lines of the tables are read
with these. -/
theorem Reads.sits {env : Reading} {admits : Token → Cursor → Prop} {part : Part}
    {last : Cursor} {value : part.Value} (h : env.Reads admits part c value last) :
    part.Sits s marker c value last := by
  -- No list and no table is in a block of lines or in a line that stands alone.
  have halone {e : Element} {unread left : List Token} (h : e.IsAround []) :
      SitAll s marker unread left [e] := .singleton (SitAll.nil.around h)
  have hrefl (ts : List Token) : ts <:+ ts := List.suffix_refl ts
  induction h with
  | blocksEnd | blocksClosed | blocksHeading | attachedEnd => exact fun _ => .nil
  | metadata | nothingAttached => exact fun _ => .nil
  | blocksCons h _ _ hfirst hmore ihfirst ihmore =>
    intro hc
    have hturn := InTurn.behindBlanks h hfirst.suffix hmore.suffix
    exact .append hturn (ihfirst (hturn.first.trans hc)) (ihmore (hturn.next_suffix.trans hc))
  | lineBreak | headingAlone | fence => exact fun _ => halone ⟨rfl, rfl, rfl, List.Subset.refl _⟩
  | @heading _ t c _ _ _ _ _ ih =>
    intro hc
    have hin := List.suffix_cons t c.unread
    have hblocks := (ih (hin.trans hc)).mono hin (hrefl _)
    exact .singleton (hblocks.around (sectionBlock_isAround _ _ _ _))
  | listBlock ht _ ih | descriptionBlock ht _ ih =>
    intro hc
    exact .singleton (ih hc ht)
  | framedLines _ hlines =>
    intro _ x hx
    exact (framedLines?_markless hlines (Option.mem_toList.mp hx)).sits
  | @framedBlocks _ _ t c _ _ _ _ _ _ ih =>
    intro hc
    have hin := List.suffix_cons t c.unread
    have hblocks := (ih (hin.trans hc)).mono hin (hrefl _)
    exact .singleton (hblocks.around (framedBlocks_isAround _ _ _ _ _))
  | table =>
    intro hc
    exact .singleton (tableAt_sits hc)
  | paragraph =>
    intro _ x hx
    exact (paragraph_markless (Option.mem_toList.mp hx)).sits
  | list _ ih =>
    intro hc hfirst
    obtain ⟨hitems, hsits⟩ := ih hc hfirst
    exact listOf_sits hc hfirst hitems hsits
  | @itemsLast _ _ _ _ _ next _ _ ih =>
    intro hc hfirst
    obtain ⟨⟨more, blocks, rfl⟩, hsits⟩ := ih hc
    constructor
    · exact List.forall_mem_singleton.mpr
        ⟨_, more, blocks, rfl, Source.token?_of_suffix hc, hfirst⟩
    · exact (SitAll.singleton hsits).mono (hrefl _) next.skipBlank_suffix
  | @itemsCons _ _ first _ _ _ _ _ _ _ hitem h ht hitems ihitem ihitems =>
    intro hc hfirst
    have hturn := InTurn.beforeBlanks first hitem.suffix h hitems.suffix
    obtain ⟨⟨more, blocks, rfl⟩, hsits⟩ := ihitem hc
    obtain ⟨hothers, hmore⟩ := ihitems (hturn.next_suffix.trans hc) ht
    constructor
    · exact List.forall_mem_cons.mpr
        ⟨⟨_, more, blocks, rfl, Source.token?_of_suffix hc, hfirst⟩, hothers⟩
    · exact .cons hturn hsits hmore
  | @item _ first c bs last _ ih =>
    intro hc
    have hpast := c.pastText_suffix.trans (List.suffix_cons first c.unread)
    have hblocks := (ih (hpast.trans hc)).mono hpast (hrefl _)
    exact ⟨⟨_, _, rfl⟩, hblocks.around (itemOf_isAround _ _ _)⟩
  | @attachedCons _ c t rest _ next _ last h _ hfirst hmore ihfirst ihmore =>
    intro hc
    have hrest : rest <:+ c.unread := h ▸ List.suffix_cons t rest
    have hturn : InTurn c.unread rest next.unread next.unread last.unread :=
      ⟨hrest, hfirst.suffix, hrefl _, hmore.suffix⟩
    exact .append hturn (ihfirst (hturn.first.trans hc)) (ihmore (hturn.next_suffix.trans hc))
  | attachedList h ht _ hlist hmore ihlist ihmore
  | attachedDescriptions h ht _ hlist hmore ihlist ihmore =>
    intro hc
    have hturn := InTurn.behindBlanks h hlist.suffix hmore.suffix
    exact .cons hturn (ihlist (hturn.first.trans hc) ht) (ihmore (hturn.next_suffix.trans hc))
  | @metadataAttached c t rest next e last h _ hblock _ _ _ ihmore =>
    intro hc
    have hnext : next.unread <:+ c.unread := hblock.suffix.trans (h ▸ List.suffix_cons t rest)
    exact (ihmore (hnext.trans hc)).mono hnext (hrefl _)
  | blockAttached h _ _ _ ih =>
    intro hc
    rw [h] at hc ⊢
    exact ih hc
  | @descriptionList _ _ _ first c _ _ _ ih =>
    intro hc hfirst
    obtain ⟨hterms, hsits⟩ := ih hc hfirst
    apply Element.forall_mem_outside
    · exact ⟨⟨⟨first, _, rfl, Source.token?_of_suffix hc, hfirst⟩, hterms⟩, nofun⟩
    · exact nofun
    · exact fun _ => hsits
  | @entriesLast _ _ _ _ _ e next _ _ ih =>
    intro hc hfirst
    obtain ⟨hterms, hsits⟩ := ih hc hfirst
    constructor
    · exact List.forall_mem_singleton.mpr hterms
    · rw [List.flatMap_singleton]
      exact hsits.mono (hrefl _) next.skipBlank_suffix
  | @entriesCons _ _ _ first _ _ _ _ _ _ _ _ hentry h ht hentries ihentry ihentries =>
    intro hc hfirst
    have hturn := InTurn.beforeBlanks first hentry.suffix h hentries.suffix
    obtain ⟨hterms, hsits⟩ := ihentry hc hfirst
    obtain ⟨hothers, hmore⟩ := ihentries (hturn.next_suffix.trans hc) (kind_of_description? ht)
    exact ⟨List.forall_mem_cons.mpr ⟨hterms, hothers⟩, .append hturn hsits hmore⟩
  | @entry _ delimiter description first c bs last _ ih =>
    intro hc hfirst
    have hpast := (c.entry_suffix delimiter first description).trans
      (List.suffix_cons first c.unread)
    have hblocks := (ih (hpast.trans hc)).mono hpast (hrefl _)
    exact ⟨entryOf_isTermWith hc hfirst, fun x hx => hblocks.around (entryOf_isAround x hx)⟩

end Reading

end Asciidoc
