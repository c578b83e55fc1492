import Asciidoc.Proofs.Reading.Bullets
import Asciidoc.Proofs.Token.Marks

/-!
# Marks of nested lists

A list that is read inside items knows the marks of all lists around it, and a line with one of
these marks ends it. So no list in an item has the mark of a list around that, unless a plus sign
attaches a block to the item, for which all starts anew. A plus sign between the delimiters of a
table attaches nothing.

`Reads.fresh` says so for all that is read. That the lines of a table are read by nothing else
(`Reads.sits`) takes care of the plus signs: a plus sign that attaches a block is in none of the
tables behind it, so if all plus signs are in tables, none does. For documents this bounds how deep
lists go (`Element.ofText_nesting`): there are eighteen marks.

Nothing is said here of what a plus sign attaches. A list in such a block may have any mark again.
-/

namespace Asciidoc

open Text

/-! ## Plus signs in tables -/

namespace Element

/-- A line is between the delimiters of a table in an element. -/
def HasInTable (s : Source) (marker : Text) (u : Token) (e : Element) : Prop :=
  ∃ x ∈ e.outside, x.isTable = true ∧ ∃ n, x.line = some n ∧ u ∈ s.tableBody marker n

variable {s : Source} {marker : Text} {u : Token} {e : Element} {unread left : List Token}

/-- Lines of tables were read where the tables were. -/
theorem Sits.readBetween (h : e.Sits s marker unread left) (hu : e.HasInTable s marker u) :
    ReadBetween unread left u.line := by
  obtain ⟨x, hx, htable, n, hline, hu⟩ := hu
  obtain ⟨m, hm, hlines⟩ := (h x hx).table htable
  obtain rfl := Option.some.inj (hline.symm.trans hm)
  exact hlines u hu

/-- What is in a table of an element that is no table is in a table of one of its parts. -/
theorem HasInTable.exists_part (h : e.HasInTable s marker u) (htable : e.isTable = false) :
    ∃ x ∈ e.parts, x.HasInTable s marker u := by
  obtain ⟨x, hx, hself, hline⟩ := h
  rw [outside_of_not_isTable htable] at hx
  rcases List.mem_cons.mp hx with rfl | hx
  · rw [htable] at hself
    cases hself
  rcases List.mem_append.mp hx with htitle | hx
  · obtain ⟨title, rfl⟩ := exists_title_of_mem_titleLine htitle
      (preorder_eq x ▸ List.mem_cons_self)
    cases hself
  · obtain ⟨y, hy, hx⟩ := List.mem_flatMap.mp hx
    exact ⟨y, hy, x, hx, hself, hline⟩

/-- What is put around blocks uses no marks. -/
theorem IsAround.fresh {used : List Text} {blocks : List Element} (h : e.IsAround blocks)
    (hblocks : ∀ x ∈ blocks, x.Fresh used) : e.Fresh used :=
  .other h.mark fun _ x hx => hblocks x (h.parts hx)

theorem Markless.fresh {used : List Text} (h : e.Markless) : e.Fresh used :=
  fresh_of_forall_mark? fun x hx => (h x hx).1

end Element

/-- Every plus sign that was read between two places is a line of a table in one of some elements. -/
def Tabled (s : Source) (marker : Text) (unread left : List Token) (es : List Element) : Prop :=
  ∀ u ∈ s.tokens marker, u.kind = .continuation → ReadBetween unread left u.line →
    ∃ e ∈ es, e.HasInTable s marker u

namespace Tabled

variable {s : Source} {marker : Text} {unread start middle next left : List Token}
  {es more : List Element} {e : Element}

theorem mono (h : Tabled s marker unread left es) (hnext : next <:+ unread)
    (hleft : left <:+ middle) : Tabled s marker next middle es := by
  intro u hmem hu hbetween
  exact h u hmem hu (hbetween.mono hnext.subset hleft.subset)

/-- Of elements that are read in turn, both the first and the others have the plus signs that are
read with them in their own tables. -/
theorem append (h : Tabled s marker unread left (es ++ more))
    (hturn : InTurn unread start middle next left) (hes : SitAll s marker start middle es)
    (hmore : SitAll s marker next left more) :
    Tabled s marker start middle es ∧ Tabled s marker next left more := by
  constructor
  · intro u hmem hu hbetween
    have hwide := hbetween.mono hturn.first.subset hturn.left_suffix.subset
    obtain ⟨e, he, hin⟩ := h u hmem hu hwide
    rcases List.mem_append.mp he with he | he
    · exact ⟨e, he, hin⟩
    · have hlater := (hmore e he).readBetween hin
      have hlt := hbetween.lt (hlater.mono hturn.behind.subset (List.Subset.refl _))
      exact absurd hlt (lt_irrefl _)
  · intro u hmem hu hbetween
    have hwide := hbetween.mono hturn.next_suffix.subset (List.Subset.refl _)
    obtain ⟨e, he, hin⟩ := h u hmem hu hwide
    rcases List.mem_append.mp he with he | he
    · have hearlier := (hes e he).readBetween hin
      have hlt := hearlier.lt (hbetween.mono hturn.behind.subset (List.Subset.refl _))
      exact absurd hlt (lt_irrefl _)
    · exact ⟨e, he, hin⟩

theorem cons (h : Tabled s marker unread left (e :: more))
    (hturn : InTurn unread start middle next left) (he : e.Sits s marker start middle)
    (hmore : SitAll s marker next left more) :
    Tabled s marker start middle [e] ∧ Tabled s marker next left more := by
  have hsplit : Tabled s marker unread left ([e] ++ more) := h
  exact hsplit.append hturn (.singleton he) hmore

/-- The tables of an element are those of its parts, if it is none. -/
theorem parts (h : Tabled s marker unread left [e]) (htable : e.isTable = false) :
    Tabled s marker unread left e.parts := by
  intro u hmem hu hbetween
  obtain ⟨x, hx, hin⟩ := h u hmem hu hbetween
  obtain rfl := List.mem_singleton.mp hx
  exact hin.exists_part htable

/-- The tables of elements that are put around some blocks are tables of these. -/
theorem blocks {blocks : List Element} (h : Tabled s marker unread left es)
    (haround : ∀ e ∈ es, e.IsAround blocks) : Tabled s marker unread left blocks := by
  intro u hmem hu hbetween
  obtain ⟨e, he, hin⟩ := h u hmem hu hbetween
  obtain ⟨x, hx, hin⟩ := hin.exists_part (haround e he).table
  exact ⟨x, (haround e he).parts hx, hin⟩

end Tabled

/-! ## What is read -/

namespace Reading

open Element (Fresh IsAround)

variable {s : Source} {marker : Text} {t : Token} {c last : Cursor} {env : Reading}
  {admits : Token → Cursor → Prop}

/-- The lists of a part that is read from an end of the lines of a text have new marks, if the plus
signs there are in tables. For the block behind a plus sign there is nothing to say. -/
def Part.Fresh (s : Source) (marker : Text) : (part : Part) → Cursor → part.Value → Cursor → Prop
  | .blocks .., c, es, last =>
    c.unread <:+ s.tokens marker → Tabled s marker c.unread last.unread es →
      ∀ e ∈ es, e.Fresh []
  | .block _ _ first, c, e, last =>
    first :: c.unread <:+ s.tokens marker →
      Tabled s marker (first :: c.unread) last.unread e.toList → ∀ x ∈ e.toList, x.Fresh []
  | .list enclosing bullet first, c, e, last =>
    first :: c.unread <:+ s.tokens marker → first.marker? = some bullet → bullet ∉ enclosing →
      Tabled s marker (first :: c.unread) last.unread [e] → e.Fresh enclosing
  | .items scope bullet first, c, es, last =>
    first :: c.unread <:+ s.tokens marker → first.marker? = some bullet →
      Tabled s marker (first :: c.unread) last.unread es → ∀ e ∈ es, e.Fresh scope
  | .item scope first, c, e, last =>
    first :: c.unread <:+ s.tokens marker →
      Tabled s marker (first :: c.unread) last.unread [e] → e.Fresh scope
  | .attached scope, c, es, last =>
    c.unread <:+ s.tokens marker → Tabled s marker c.unread last.unread es →
      ∀ e ∈ es, e.Fresh scope
  | .attachedBlock, _, _, _ => True
  | .descriptionList enclosing delimiter description first, c, e, last =>
    first :: c.unread <:+ s.tokens marker → first.kind = .term delimiter description →
      delimiter ∉ enclosing → Tabled s marker (first :: c.unread) last.unread [e] →
        e.Fresh enclosing
  | .entries scope delimiter description first, c, es, last =>
    first :: c.unread <:+ s.tokens marker → first.kind = .term delimiter description →
      Tabled s marker (first :: c.unread) last.unread (es.flatMap Entry.items) →
        ∀ e ∈ es, ∀ x ∈ e.items, x.Fresh scope
  | .entry scope _ _ first, c, e, last =>
    first :: c.unread <:+ s.tokens marker →
      Tabled s marker (first :: c.unread) last.unread e.items → ∀ x ∈ e.items, x.Fresh scope

/-- What is put around blocks uses no marks if these do not, where they are read. -/
theorem fresh_of_isAround {used : List Text} {unread next left : List Token} {e : Element}
    {blocks : List Element} (haround : e.IsAround blocks) (htabled : Tabled s marker unread left [e])
    (hnext : next <:+ unread)
    (hblocks : Tabled s marker next left blocks → ∀ x ∈ blocks, x.Fresh used) : e.Fresh used := by
  have hinside := htabled.blocks (List.forall_mem_singleton.mpr haround)
  exact haround.fresh (hblocks (hinside.mono hnext (List.suffix_refl _)))

/-- A plus sign is in no table of the elements that are read behind it. -/
theorem not_tabled_behind {rest left : List Token} {es : List Element}
    (hline : t :: rest <:+ s.tokens marker) (ht : t.kind = .continuation)
    (hes : SitAll s marker rest left es) (hleft : left <:+ rest) :
    ¬Tabled s marker (t :: rest) left es := by
  intro h
  have hgrow : LinesGrow (t :: rest) := (s.tokens_grow marker).1.suffix hline
  have hfirst : ReadBetween (t :: rest) left t.line := .first hgrow hleft.subset
  obtain ⟨e, he, hin⟩ := h t (hline.subset List.mem_cons_self) ht hfirst
  obtain ⟨-, hlt⟩ := ((hes e he).readBetween hin).behind hgrow (List.Subset.refl _)
  exact lt_irrefl _ hlt

/-- Where all plus signs are in tables, the lists that are read have new marks. -/
theorem Reads.fresh {part : Part} {value : part.Value} (h : env.Reads admits part c value last) :
    part.Fresh s marker c value last := by
  have hrefl (ts : List Token) : ts <:+ ts := List.suffix_refl ts
  -- There are no lists in a block of lines or in a line that stands alone.
  have halone {e : Element} (h : e.IsAround []) : ∀ x ∈ [e], x.Fresh [] :=
    List.forall_mem_singleton.mpr (h.fresh nofun)
  induction h with
  | blocksEnd | blocksClosed | blocksHeading | attachedEnd | metadata => exact fun _ _ => nofun
  | nothingAttached | metadataAttached | blockAttached => trivial
  | blocksCons h _ _ hfirst hmore ihfirst ihmore =>
    intro hc htabled
    have hturn := InTurn.behindBlanks h hfirst.suffix hmore.suffix
    have hline := hturn.first.trans hc
    have hnext := hturn.next_suffix.trans hc
    obtain ⟨htabledFirst, htabledMore⟩ :=
      htabled.append hturn (hfirst.sits hline) (hmore.sits hnext)
    exact List.forall_mem_append.mpr ⟨ihfirst hline htabledFirst, ihmore hnext htabledMore⟩
  | lineBreak | headingAlone | fence => exact fun _ _ => halone ⟨rfl, rfl, rfl, List.Subset.refl _⟩
  | @heading _ t c _ _ _ _ _ ih =>
    intro hc htabled
    have hin := List.suffix_cons t c.unread
    refine List.forall_mem_singleton.mpr ?_
    exact fresh_of_isAround (sectionBlock_isAround _ _ _ _) htabled hin (ih (hin.trans hc))
  | listBlock ht _ ih | descriptionBlock ht _ ih =>
    intro hc htabled
    exact List.forall_mem_singleton.mpr (ih hc ht List.not_mem_nil htabled)
  | framedLines _ hlines =>
    intro _ _ x hx
    exact (framedLines?_markless hlines (Option.mem_toList.mp hx)).fresh
  | @framedBlocks _ _ t c _ _ _ _ _ _ ih =>
    intro hc htabled
    have hin := List.suffix_cons t c.unread
    refine List.forall_mem_singleton.mpr ?_
    exact fresh_of_isAround (framedBlocks_isAround _ _ _ _ _) htabled hin (ih (hin.trans hc))
  | table =>
    intro _ _
    refine List.forall_mem_singleton.mpr ?_
    apply Element.fresh_of_forall_mark?
    obtain ⟨headerRows, bodyRows, left, htable, -⟩ := Cursor.tableAt_eq _ _ _ _
    rw [htable, Element.outside_of_isTable rfl]
    exact List.forall_mem_singleton.mpr rfl
  | paragraph =>
    intro _ _ x hx
    exact (paragraph_markless (Option.mem_toList.mp hx)).fresh
  | list _ ih =>
    intro hc hfirst hnew htabled
    obtain ⟨hmark, -, hparts⟩ := listOf_eq hfirst _
    have hitems := htabled.parts (Element.isTable_of_mark? hmark)
    rw [hparts] at hitems
    apply Element.Fresh.list hmark hnew
    rw [hparts]
    exact ih hc hfirst hitems
  | @itemsLast _ _ _ _ _ next _ _ ih =>
    intro hc _ htabled
    exact List.forall_mem_singleton.mpr (ih hc (htabled.mono (hrefl _) next.skipBlank_suffix))
  | @itemsCons _ _ first _ _ _ _ _ _ _ hitem h ht hitems ihitem ihitems =>
    intro hc hfirst htabled
    have hturn := InTurn.beforeBlanks first hitem.suffix h hitems.suffix
    have hnext := hturn.next_suffix.trans hc
    obtain ⟨htabledFirst, htabledMore⟩ :=
      htabled.cons hturn (hitem.sits hc).2 (hitems.sits hnext ht).2
    exact List.forall_mem_cons.mpr ⟨ihitem hc htabledFirst, ihitems hnext ht htabledMore⟩
  | @item _ first c _ _ _ ih =>
    intro hc htabled
    have hpast := c.pastText_suffix.trans (List.suffix_cons first c.unread)
    exact fresh_of_isAround (itemOf_isAround _ _ _) htabled hpast (ih (hpast.trans hc))
  | @attachedCons _ c t rest _ next _ last h ht hfirst hmore _ _ =>
    -- No table of the blocks behind the plus sign has it.
    intro hc htabled
    rw [h] at hc htabled
    have hrest := (List.suffix_cons t rest).trans hc
    have hturn : InTurn rest rest next.unread next.unread last.unread :=
      ⟨hrefl _, hfirst.suffix, hrefl _, hmore.suffix⟩
    have hsits := SitAll.append hturn (hfirst.sits hrest)
      (hmore.sits (hturn.next_suffix.trans hrest))
    exact absurd htabled (not_tabled_behind hc ht hsits (hturn.left_suffix.trans hturn.reading))
  | attachedList h ht hscope hlist hmore ihlist ihmore
  | attachedDescriptions h ht hscope hlist hmore ihlist ihmore =>
    intro hc htabled
    have hturn := InTurn.behindBlanks h hlist.suffix hmore.suffix
    have hline := hturn.first.trans hc
    have hnext := hturn.next_suffix.trans hc
    obtain ⟨htabledList, htabledMore⟩ :=
      htabled.cons hturn (hlist.sits hline ht) (hmore.sits hnext)
    exact List.forall_mem_cons.mpr
      ⟨ihlist hline ht hscope htabledList, ihmore hnext htabledMore⟩
  | descriptionList _ ih =>
    intro hc hfirst hnew htabled
    apply Element.Fresh.list rfl hnew
    intro x hx
    obtain ⟨entry, hentry, hx⟩ := List.mem_flatMap.mp hx
    exact ih hc hfirst (htabled.parts rfl) entry hentry x hx
  | @entriesLast _ _ _ _ _ e next _ _ ih =>
    intro hc _ htabled
    rw [List.flatMap_singleton] at htabled
    exact List.forall_mem_singleton.mpr (ih hc (htabled.mono (hrefl _) next.skipBlank_suffix))
  | @entriesCons _ _ _ first _ _ _ _ _ _ _ _ hentry h ht hentries ihentry ihentries =>
    intro hc hfirst htabled
    have hturn := InTurn.beforeBlanks first hentry.suffix h hentries.suffix
    have hnext := hturn.next_suffix.trans hc
    have hkind := kind_of_description? ht
    rw [List.flatMap_cons] at htabled
    obtain ⟨htabledFirst, htabledMore⟩ :=
      htabled.append hturn (hentry.sits hc hfirst).2 (hentries.sits hnext hkind).2
    exact List.forall_mem_cons.mpr ⟨ihentry hc htabledFirst, ihentries hnext hkind htabledMore⟩
  | @entry _ delimiter description first c _ _ _ ih =>
    intro hc htabled x hx
    have hpast := (c.entry_suffix delimiter first description).trans
      (List.suffix_cons first c.unread)
    have htabledBlocks := (htabled.blocks entryOf_isAround).mono hpast (hrefl _)
    exact (entryOf_isAround x hx).fresh (ih (hpast.trans hc) htabledBlocks)

end Reading

/-! ## Documents -/

section

variable {s : Source} {marker : Text} {c : Cursor}

/-- In a document that is read from the lines of a text, lists are on the lines of their marks. -/
theorem Cursor.readDocument_onMarks (env : Reading) (hc : c.unread <:+ s.tokens marker)
    (source : Text) : ∀ e ∈ (c.readDocument env true source).1.outside, e.OnMarks s marker := by
  have hblocks := (env.blocks_reads false (-1) none c.header.2).sits (c.header_keeps.1.trans hc)
  apply Element.forall_mem_outside
  · trivial
  · intro x hx
    obtain ⟨title, rfl⟩ := Element.exists_title_of_mem_titleLine hx
      (Element.preorder_eq x ▸ List.mem_cons_self)
    trivial
  · exact fun _ x hx y hy => (hblocks x hx y hy).marks

/-- Its lists have new marks, if every plus sign is in a table of it. -/
theorem Cursor.readDocument_fresh (env : Reading) (hc : c.unread <:+ s.tokens marker)
    (source : Text) (htables : ∀ u ∈ s.tokens marker, u.kind = .continuation →
      (c.readDocument env true source).1.HasInTable s marker u) :
    (c.readDocument env true source).1.Fresh [] := by
  have hblocks := (env.blocks_reads false (-1) none c.header.2).fresh (c.header_keeps.1.trans hc)
  exact .other rfl fun _ => hblocks fun u hmem hu _ => (htables u hmem hu).exists_part rfl

end

namespace Element

variable {s : Source} {marker mark : Text} {e : Element}

/-- A list on a line with its mark has one of the marks that there are. -/
theorem OnMarks.mem_marks (h : e.OnMarks s marker) (hmark : e.mark? = some mark) :
    mark ∈ Token.marks := by
  have hmem {t : Token} (htoken : s.token? marker (some t.line) = some t)
      (hkind : t.kind.mark? = some mark) : mark ∈ Token.marks := by
    obtain ⟨rest, hsuffix⟩ := Source.suffix_of_token? htoken
    obtain ⟨-, -, line, -, -, hline⟩ := Source.line_of_suffix hsuffix
    rw [hline] at hkind
    exact Token.ofLine_isMarked marker t.line line mark hkind
  cases e with
  | unorderedList line bullet items | orderedList line bullet items =>
    obtain rfl := Option.some.inj hmark
    obtain ⟨⟨t, -, htoken, hbullet⟩, -⟩ := h
    apply hmem htoken
    rcases Token.kind_of_marker? hbullet with ⟨checked, hkind⟩ | hkind
    all_goals
      rw [hkind]
      rfl
  | descriptionList line delimiter entries =>
    obtain rfl := Option.some.inj hmark
    obtain ⟨⟨t, description, -, htoken, hkind⟩, -⟩ := h
    apply hmem htoken
    rw [hkind]
    rfl
  | _ => cases hmark

/-- In a text that is read as a document, lists and their items and terms are on lines with their
marks. If every plus sign is a line of a table, the marks along a chain of lists, each nested in the
one before, are different, and the chain is no longer than there are marks. -/
theorem ofText_nesting {rules : Rules.Reading} {marker : Marker} {t : Text} {root : Element}
    (h : (ofText rules marker t).document = .ok root) :
    (∀ e ∈ root.outside, e.OnMarks (Source.ofText t) marker.textD) ∧
      ((∀ u ∈ (Source.ofText t).tokens marker.textD, u.kind = .continuation →
          root.HasInTable (Source.ofText t) marker.textD u) →
        ∀ chain : List Element, (∀ e ∈ chain, e ∈ root.outside ∧ e.mark?.isSome = true) →
          chain.IsChain Nests → (chain.map mark?).Nodup ∧ chain.length ≤ 18) := by
  have hstart : ((Source.ofText t).start marker.textD).unread
      <:+ (Source.ofText t).tokens marker.textD := List.suffix_refl _
  have hroot := ofText_eq_ok h
  have hmarks : ∀ e ∈ root.outside, e.OnMarks (Source.ofText t) marker.textD :=
    hroot ▸ Cursor.readDocument_onMarks ⟨rules, marker.textD⟩ hstart t
  refine ⟨hmarks, ?_⟩
  intro htables chain hlists hchain
  have hfresh : root.Fresh [] := by
    rw [← hroot] at htables ⊢
    exact Cursor.readDocument_fresh ⟨rules, marker.textD⟩ hstart t htables
  have hnodup := hfresh.nodup_of_chain hlists hchain
  have hknown : ∀ e ∈ chain, ∃ mark ∈ Token.marks, e.mark? = some mark := by
    intro e he
    obtain ⟨houtside, hsome⟩ := hlists e he
    obtain ⟨mark, hmark⟩ := Option.isSome_iff_exists.mp hsome
    exact ⟨mark, (hmarks e houtside).mem_marks hmark, hmark⟩
  exact ⟨hnodup, length_le_of_nodup hnodup hknown⟩

/-- Three lists, each in an item or a description of the one before, and a plus sign in a cell. -/
theorem ofText_nesting_three :
    ∃ root outer middle inner, (ofText {} (.text Marker.slashes)
        "* a\nt:: b\n. c\n* d\n\n|===\n|e\n+\n|===".toList).document = .ok root ∧
      (∀ e ∈ [outer, middle, inner], e ∈ root.outside ∧ e.mark?.isSome = true) ∧
      [outer, middle, inner].IsChain Nests ∧
      [outer, middle, inner].map mark? = [some ['*'], some [':', ':'], some ['.']] ∧
      ([outer, middle, inner].map mark?).Nodup ∧ [outer, middle, inner].length ≤ 18 := by
  let inner : Element := .orderedList (some 3) ['.'] [.item (some 3) (some ['c']) none []]
  let middle : Element := .descriptionList (some 2) [':', ':']
    [⟨[.item (some 2) (some ['t']) none []], some (.item (some 2) (some ['b']) none [inner])⟩]
  let outer : Element := .unorderedList (some 1) ['*']
    [.item (some 1) (some ['a']) none [middle], .item (some 4) (some ['d']) none []]
  let table : Element := .table (some 6) [] [[.cell (some 7) ['e', '\n', '+'] none none 1]]
  have hread : (ofText {} (.text Marker.slashes)
      "* a\nt:: b\n. c\n* d\n\n|===\n|e\n+\n|===".toList).document
        = .ok (.document (some 1) none [outer, table] []
          "* a\nt:: b\n. c\n* d\n\n|===\n|e\n+\n|===".toList) := by
    with_unfolding_all rfl
  refine ⟨_, outer, middle, inner, hread, ?_⟩
  have hlists : ∀ e ∈ [outer, middle, inner],
      e ∈ (Element.document (some 1) none [outer, table] []
        "* a\nt:: b\n. c\n* d\n\n|===\n|e\n+\n|===".toList).outside ∧ e.mark?.isSome = true := by
    simp [outside_eq, titleLine, parts, isTable, mark?, Entry.items, outer, middle, inner]
  have hchain : [outer, middle, inner].IsChain Nests := by
    simp [Nests, outside_eq, titleLine, parts, isTable, Entry.items, outer, middle, inner]
  refine ⟨hlists, hchain, rfl, (ofText_nesting hread).2 (fun u hmem hu => ?_) _ hlists hchain⟩
  refine ⟨table, by simp [outside_eq, titleLine, parts, isTable, table], rfl, 6, rfl, ?_⟩
  revert u
  with_unfolding_all decide

end Element

end Asciidoc
