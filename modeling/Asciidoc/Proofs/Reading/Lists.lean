import Asciidoc.Proofs.Reading.Progress
import Mathlib.Data.List.DropRight

/-!
# Texts of list lines

A text all of whose lines are list items, blank lines or comments is read as one list, and this
list has an item for every item line, in the order of the lines (`Cursor.readDocument_lists`).

Where an item goes is decided by its marker: into the innermost list with this marker, or into a
new list inside the item before. So reading a list inside others ends before an item that belongs
to one of those, and reading an item ends before an item that belongs to its own list or to one of
those. Around the outermost list there are none, and it leaves no item.
-/

namespace Asciidoc

open Text

/-! ## List lines -/

/-- An item of a list, a blank line or a comment. -/
def Token.isListed (t : Token) : Bool := t.isSkipped || t.marker?.isSome

/-- The items among lines. -/
def itemLines (ts : List Token) : List Token := ts.filter (·.marker?.isSome)

/-- A line that is passed over is no item. -/
theorem Token.marker?_of_isSkipped {t : Token} (h : t.isSkipped = true) : t.marker? = none := by
  unfold Token.isSkipped at h
  unfold Token.marker?
  split
  · simp_all
  · simp_all
  · rfl

theorem Token.kind_of_marker? {t : Token} {marker : Text} (h : t.marker? = some marker) :
    (∃ checked, t.kind = .unorderedItem marker checked) ∨ t.kind = .orderedItem marker := by
  unfold Token.marker? at h
  split at h
  · rename_i checked hkind
    obtain rfl := Option.some.inj h
    exact .inl ⟨checked, hkind⟩
  · rename_i hkind
    obtain rfl := Option.some.inj h
    exact .inr hkind
  · cases h

/-- A list line is of one of four kinds. -/
theorem Token.kind_of_isListed {t : Token} (h : t.isListed = true) :
    t.kind = .blank ∨ t.kind = .comment ∨ ∃ marker, t.marker? = some marker := by
  rw [Token.isListed, Bool.or_eq_true, Option.isSome_iff_exists, Token.isSkipped, Bool.or_eq_true,
    decide_eq_true_eq, decide_eq_true_eq, or_assoc] at h
  exact h

/-- Lines that are passed over have no items among them. -/
theorem itemLines_dropWhile {p : Token → Bool} (hp : ∀ t, p t = true → t.marker? = none)
    (ts : List Token) : itemLines (ts.dropWhile p) = itemLines ts := by
  induction ts with
  | nil => rfl
  | cons t rest ih =>
    by_cases ht : p t = true
    · rw [List.dropWhile_cons_of_pos ht, ih, itemLines, itemLines,
        List.filter_cons_of_neg (by simp [hp t ht])]
    · rw [List.dropWhile_cons_of_neg ht]

theorem itemLines_skipBlank (c : Cursor) :
    itemLines c.skipBlank.unread = itemLines c.unread :=
  itemLines_dropWhile (fun _ => Token.marker?_of_isSkipped) c.unread

/-- All lines that are left are list lines. -/
def Cursor.IsListed (c : Cursor) : Prop := ∀ t ∈ c.unread, t.isListed = true

theorem Cursor.IsListed.of_suffix {c last : Cursor} (h : c.IsListed)
    (hlast : last.unread <:+ c.unread) : last.IsListed :=
  fun t ht => h t (hlast.subset ht)

/-- The first line that is not passed over is an item. -/
theorem Cursor.IsListed.marker? {c : Cursor} (h : c.IsListed) {t : Token} {rest : List Token}
    (hnext : c.skipBlank.unread = t :: rest) : ∃ marker, t.marker? = some marker := by
  have hmem : t ∈ c.unread := c.skipBlank_suffix.subset (hnext ▸ List.mem_cons_self)
  obtain ⟨hblank, hcomment⟩ := Reading.kind_of_skipBlank hnext
  rcases Token.kind_of_isListed (h t hmem) with hkind | hkind | hmarker
  · exact absurd hkind hblank
  · exact absurd hkind hcomment
  · exact hmarker

/-! ## Lists of lines -/

namespace Element

mutual

/-- A list with an item for each of some lines, in their order. -/
inductive IsListOf : List Token → Element → Prop where
  | unordered {line : Hint} {marks : Text} {lines : List Token} {items : List Element}
      (hne : lines ≠ []) (hitems : AreItemsOf lines items) :
    IsListOf lines (.unorderedList line marks items)
  | ordered {line : Hint} {marks : Text} {lines : List Token} {items : List Element}
      (hne : lines ≠ []) (hitems : AreItemsOf lines items) :
    IsListOf lines (.orderedList line marks items)

/-- The items of a list, each with the lists inside it. -/
inductive AreItemsOf : List Token → List Element → Prop where
  | nil : AreItemsOf [] []
  | cons {t : Token} {checked : Option Bool} {below rest : List Token}
      {blocks items : List Element} (hblocks : AreListsOf below blocks)
      (hothers : AreItemsOf rest items) :
    AreItemsOf (t :: (below ++ rest)) (.item (some t.line) (some t.content) checked blocks :: items)

/-- Lists one after the other. -/
inductive AreListsOf : List Token → List Element → Prop where
  | nil : AreListsOf [] []
  | cons {first rest : List Token} {e : Element} {es : List Element}
      (hfirst : IsListOf first e) (hothers : AreListsOf rest es) :
    AreListsOf (first ++ rest) (e :: es)

end

theorem IsListOf.ne_nil {lines : List Token} {e : Element} (h : IsListOf lines e) : lines ≠ [] := by
  cases h <;> assumption

end Element

namespace Reading

open Element

/-- Between two places some items are taken and nothing is remarked, and what comes next is no item
or one that belongs to the lists around. -/
structure Took (outer : List Text) (c : Cursor) (taken : List Token) (last : Cursor) : Prop where
  /-- What is left is list lines. -/
  listed : last.IsListed
  /-- Nothing is remarked. -/
  remarks : last.remarks = c.remarks
  /-- The items are those that were taken and those that are left. -/
  lines : itemLines c.unread = taken ++ itemLines last.unread
  /-- What comes next. -/
  next : ∀ t rest, last.skipBlank.unread = t :: rest → ∀ marker, t.marker? = some marker →
    marker ∈ outer

/-- Without lists around nothing is left. -/
theorem Took.lines_eq {c last : Cursor} {taken : List Token} (h : Took [] c taken last) :
    itemLines c.unread = taken ∧ itemLines last.unread = [] := by
  have hnil : last.skipBlank.unread = [] := by
    cases hlast : last.skipBlank.unread with
    | nil => rfl
    | cons t rest =>
      obtain ⟨marker, hmarker⟩ := h.listed.marker? hlast
      cases h.next t rest hlast marker hmarker
  have hleft : itemLines last.unread = [] := by
    rw [← itemLines_skipBlank, hnil]
    rfl
  exact ⟨by rw [h.lines, hleft, List.append_nil], hleft⟩

/-- What a part of a text of list lines is read as. -/
def Part.IsOfLists : (part : Part) → Cursor → part.Value → Cursor → Prop
  | .blocks _ _ closing, c, es, last =>
    c.IsListed → closing = none → last.remarks = c.remarks ∧
      (es = [] ∧ itemLines c.unread = [] ∨ ∃ e, es = [e] ∧ IsListOf (itemLines c.unread) e)
  | .block _ _ t, c, e, last =>
    c.IsListed → t.marker?.isSome = true →
      ∃ taken list, Took [] c taken last ∧ e = some list ∧ IsListOf (t :: taken) list
  | .list outer marker first, c, e, last =>
    c.IsListed → first.marker? = some marker →
      ∃ taken, Took outer c taken last ∧ IsListOf (first :: taken) e
  | .items scope marker first, c, es, last =>
    c.IsListed → ∃ taken, Took scope c taken last ∧ AreItemsOf (first :: taken) es ∧
      ∀ t rest, last.skipBlank.unread = t :: rest → t.marker? ≠ some marker
  | .item scope first, c, e, last =>
    c.IsListed → ∃ taken, Took scope c taken last ∧ ∃ checked blocks,
      e = .item (some first.line) (some first.content) checked blocks ∧ AreListsOf taken blocks
  | .attached scope, c, es, last =>
    c.IsListed → ∃ taken, Took scope c taken last ∧ AreListsOf taken es
  | _, _, _, _ => True

theorem skipBlank_idem (c : Cursor) : c.skipBlank.skipBlank.unread = c.skipBlank.unread :=
  List.dropWhile_idempotent _ _

theorem isListed_skipBlank {c : Cursor} (h : c.IsListed) : c.skipBlank.IsListed :=
  h.of_suffix c.skipBlank_suffix

theorem isListed_rest {c : Cursor} (h : c.IsListed) {t : Token} {rest : List Token}
    (hnext : c.skipBlank.unread = t :: rest) (other : Cursor) : (other.moveTo rest).IsListed :=
  h.of_suffix (Cursor.suffix_of_skipBlank hnext)

/-- The items from a line that is one on. -/
theorem itemLines_eq_cons {c : Cursor} {t : Token} {rest : List Token} {marker : Text}
    (hnext : c.skipBlank.unread = t :: rest) (ht : t.marker? = some marker) :
    itemLines c.unread = t :: itemLines rest := by
  rw [← itemLines_skipBlank, hnext]
  exact List.filter_cons_of_pos (by simp [ht])

/-- No line goes on with the text of an item. -/
theorem itemSpan_of_isListed {unread : List Token} (h : ∀ t ∈ unread, t.isListed = true) :
    (itemSpan unread).1 = [] ∧ itemLines (itemSpan unread).2 = itemLines unread := by
  obtain ⟨run, hunread, hlines, hrun⟩ := itemSpan_eq unread
  have hcomment : ∀ t ∈ run, t.kind = .comment := by
    intro t ht
    refine (hrun t ht).resolve_right fun htext => ?_
    have hlisted := h t (hunread ▸ List.mem_append_left _ ht)
    simp [Token.isListed, Token.isSkipped, Token.marker?, htext] at hlisted
  refine ⟨?_, ?_⟩
  · rw [hlines, List.filter_eq_nil_iff]
    exact fun t ht => by simp [hcomment t ht]
  · have hnone : itemLines run = [] := by
      rw [itemLines, List.filter_eq_nil_iff]
      exact fun t ht => by simp [Token.marker?, hcomment t ht]
    conv_rhs => rw [hunread, itemLines, List.filter_append]
    rw [show run.filter (·.marker?.isSome) = [] from hnone, List.nil_append, itemLines]

/-- List lines are read as lists of them. -/
theorem Reads.isOfLists {env : Reading} {admits : Token → Cursor → Prop} {part : Part}
    {c last : Cursor} {value : part.Value} (h : env.Reads admits part c value last) :
    part.IsOfLists c value last := by
  have hkind {t : Token} (ht : t.marker?.isSome = true) :
      (∃ marker checked, t.kind = .unorderedItem marker checked) ∨
        ∃ marker, t.kind = .orderedItem marker := by
    obtain ⟨marker, hmarker⟩ := Option.isSome_iff_exists.mp ht
    exact (Token.kind_of_marker? hmarker).imp (fun h => ⟨marker, h⟩) fun h => ⟨marker, h⟩
  induction h with
  | @blocksEnd _ _ closing c h =>
    rintro hc rfl
    have hnone : itemLines c.unread = [] := by
      rw [← itemLines_skipBlank, h]
      rfl
    exact ⟨rfl, .inl ⟨rfl, hnone⟩⟩
  | blocksClosed _ hclosing _ =>
    rintro _ rfl
    cases hclosing
  | blocksHeading h ht =>
    intro hc _
    obtain ⟨marker, hmarker⟩ := hc.marker? h
    unfold Token.endsSection at ht
    rcases hkind (Option.isSome_iff_exists.mpr ⟨marker, hmarker⟩) with ⟨_, _, hk⟩ | ⟨_, hk⟩ <;>
      simp [hk] at ht
  | @blocksCons _ _ closing c t rest first next more last h _ _ _ _ ihfirst ihmore =>
    intro hc hclosing
    obtain ⟨marker, hmarker⟩ := hc.marker? h
    obtain ⟨taken, list, htook, rfl, hlist⟩ := ihfirst (isListed_rest hc h _) (by simp [hmarker])
    obtain ⟨htaken, hleft⟩ := htook.lines_eq
    obtain ⟨hremarks, hmore⟩ := ihmore htook.listed hclosing
    refine ⟨hremarks.trans htook.remarks, .inr ⟨list, ?_, ?_⟩⟩
    · rcases hmore with ⟨rfl, -⟩ | ⟨e, -, he⟩
      · rfl
      · exact absurd hleft he.ne_nil
    · rw [itemLines_eq_cons h hmarker]
      exact htaken ▸ hlist
  | listBlock ht _ ih =>
    intro hc _
    obtain ⟨taken, htook, hlist⟩ := ih hc ht
    exact ⟨taken, _, htook, rfl, hlist⟩
  | metadata ht _ =>
    intro _ hmarker
    rcases hkind hmarker with ⟨_, _, hk⟩ | ⟨_, hk⟩ <;> simp [Token.isMetadata, hk] at ht
  | lineBreak ht =>
    intro _ hmarker
    rcases hkind hmarker with ⟨_, _, hk⟩ | ⟨_, hk⟩ <;> simp [Token.breakName?, hk] at ht
  | headingAlone ht _ | heading ht _ | descriptionBlock ht _ | fence ht | table ht _ _ =>
    intro _ hmarker
    rcases hkind hmarker with ⟨_, _, hk⟩ | ⟨_, hk⟩ <;> simp [hk] at ht
  | framedLines ht _ | framedBlocks ht _ _ =>
    intro _ hmarker
    rcases hkind hmarker with ⟨_, _, hk⟩ | ⟨_, hk⟩ <;> simp [Token.opens?, hk] at ht
  | paragraph ht =>
    intro _ hmarker
    rcases hkind hmarker with ⟨_, _, hk⟩ | ⟨_, hk⟩ <;> simp [Token.startsParagraph, hk] at ht
  | @list outer marker first c es last _ ih =>
    intro hc hfirst
    obtain ⟨taken, htook, hitems, hother⟩ := ih hc
    refine ⟨taken, ⟨htook.listed, htook.remarks, htook.lines, fun t rest ht other hmarker => ?_⟩, ?_⟩
    · rcases List.mem_append.mp (htook.next t rest ht other hmarker) with hmem | hmem
      · exact hmem
      · exact absurd (List.mem_singleton.mp hmem ▸ hmarker) (hother t rest ht)
    · unfold listOf
      split
      · exact .ordered (List.cons_ne_nil _ _) hitems
      · exact .unordered (List.cons_ne_nil _ _) hitems
      · exact .unordered (List.cons_ne_nil _ _) hitems
  | @itemsLast scope marker first c e next _ hnext ih =>
    intro hc
    obtain ⟨taken, htook, checked, blocks, rfl, hblocks⟩ := ih hc
    refine ⟨taken, ⟨isListed_skipBlank htook.listed, htook.remarks, ?_, ?_⟩, ?_, ?_⟩
    · rw [itemLines_skipBlank]
      exact htook.lines
    · rw [skipBlank_idem]
      exact htook.next
    · have hitem : AreItemsOf (first :: (taken ++ []))
        [.item (some first.line) (some first.content) checked blocks] := .cons hblocks .nil
      rwa [List.append_nil] at hitem
    · rw [skipBlank_idem]
      exact hnext
  | @itemsCons scope marker first c e next t rest es last _ h ht _ ihitem ihitems =>
    intro hc
    obtain ⟨below, hbelow, checked, blocks, rfl, hblocks⟩ := ihitem hc
    obtain ⟨taken, htook, hitems, hother⟩ := ihitems (isListed_rest hbelow.listed h _)
    refine ⟨below ++ t :: taken, ⟨htook.listed, htook.remarks.trans hbelow.remarks, ?_, htook.next⟩,
      .cons hblocks hitems, hother⟩
    rw [hbelow.lines, itemLines_eq_cons h ht, show itemLines rest = _ from htook.lines,
      List.append_assoc, List.cons_append]
  | @item scope first c bs last _ ih =>
    intro hc
    obtain ⟨hnone, hlines⟩ := itemSpan_of_isListed hc
    obtain ⟨taken, htook, hblocks⟩ := ih (hc.of_suffix (itemSpan_suffix c.unread))
    refine ⟨taken, ⟨htook.listed, htook.remarks, ?_, htook.next⟩, ?_⟩
    · rw [← hlines]
      exact htook.lines
    · rw [itemOf, hnone]
      exact ⟨_, bs, by rw [List.map_nil, unlines_singleton], hblocks⟩
  | @attachedEnd scope c _ hnext =>
    intro hc
    exact ⟨[], ⟨hc, rfl, rfl, fun t rest ht marker hmarker => (hnext t rest ht).1 marker hmarker⟩, .nil⟩
  | @attachedCons scope c t rest first next more last h ht _ _ _ _ =>
    intro hc
    have hlisted := hc t (h ▸ List.mem_cons_self)
    simp [Token.isListed, Token.isSkipped, Token.marker?, ht] at hlisted
  | @attachedList scope c t rest marker e next more last h ht hscope _ _ ihlist ihmore =>
    intro hc
    obtain ⟨taken, htook, hlist⟩ := ihlist (isListed_rest hc h _) ht
    obtain ⟨others, hothers, hlists⟩ := ihmore htook.listed
    refine ⟨(t :: taken) ++ others, ⟨hothers.listed, hothers.remarks.trans htook.remarks, ?_,
      hothers.next⟩, .cons hlist hlists⟩
    rw [itemLines_eq_cons h ht, show itemLines rest = _ from htook.lines, hothers.lines,
      List.cons_append, List.cons_append, List.append_assoc]
  | @attachedDescriptions scope c t rest delimiter description e next more last h ht _ _ _ _ _ =>
    intro hc
    obtain ⟨marker, hmarker⟩ := hc.marker? h
    exact absurd ht (Token.kind_ne_term hmarker)
  | nothingAttached _ | metadataAttached _ _ _ _ _ | blockAttached _ _ _ _ => trivial
  | descriptionList _ | entriesLast _ _ | entriesCons _ _ _ _ | entry _ => trivial

end Reading

/-- A document of list lines has no title, and if there is an item among them it is one list with
an item for each of them, in their order; nothing is remarked. -/
theorem Cursor.readDocument_lists {c : Cursor} (hc : c.IsListed) (hne : itemLines c.unread ≠ [])
    (env : Reading) (source : Text) :
    (c.readDocument env true source).2.remarks = c.remarks ∧
      ∃ list attributes, (c.readDocument env true source).1
          = .document (some 1) none [list] attributes source ∧
        Element.IsListOf (itemLines c.unread) list := by
  have hpreamble (t : Token) (ht : (t.isSkipped || t.isAttribute) = true) : t.marker? = none := by
    rcases Bool.or_eq_true_iff.mp ht with ht | ht
    · exact Token.marker?_of_isSkipped ht
    · unfold Token.isAttribute at ht
      split at ht
      · rename_i hkind
        rw [Token.marker?, hkind]
      · cases ht
  have hstart : c.pastPreamble.IsListed := hc.of_suffix (List.dropWhile_suffix _)
  have hlines : itemLines c.pastPreamble.unread = itemLines c.unread :=
    itemLines_dropWhile hpreamble c.unread
  have hheader : c.header = (none, c.pastPreamble) := by
    rw [header]
    split
    · rfl
    · rename_i t rest hnext
      refine if_neg fun hkind => ?_
      have hlisted := hstart t (hnext ▸ List.mem_cons_self)
      simp [Token.isListed, Token.isSkipped, Token.marker?, hkind] at hlisted
  obtain ⟨hremarks, hblocks⟩ :=
    (env.blocks_reads false (-1) none c.pastPreamble).isOfLists hstart rfl
  rw [hlines] at hblocks
  obtain ⟨list, hlist, hof⟩ := hblocks.resolve_left fun h => hne h.2
  rw [readDocument, if_pos rfl, hheader]
  exact ⟨hremarks.trans (c.recordAll_keeps _).2, list,
    (env.blocks false (-1) none c.pastPreamble).cursor.attributes, by rw [← hlist], hof⟩

end Asciidoc
