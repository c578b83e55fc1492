import Asciidoc.Proofs.Element.Apart
import Asciidoc.Proofs.Node.Outermost
import Asciidoc.Proofs.Span.Search
import Asciidoc.Proofs.Token.Leads

/-!
# Where titles and items start

The marks of a title and the marker of an item are not part of their text, and the node of the text
is to start behind them. But a line keeps no columns, and the search for a text goes to the first
place at which it stands in its line: that is the place behind the marks exactly if the text does
not stand in the line from a column within the marks on already, as `-` does in `- -`. A text that
looks like a comment starts with its line in any case.
-/

namespace Asciidoc

open Text

namespace Element

/-- Whether an element is a title line, or a section under its title. -/
def isTitle : Element → Bool
  | .header _ | .sectionBlock .. => true
  | _ => false

/-- The items of a list with markers. -/
def bullets : Element → List Element
  | .unorderedList _ _ items | .orderedList _ _ items => items
  | _ => []

/-- An element is an item of a list with markers that stands outside cells. -/
def IsBulletOf (e root : Element) : Prop := ∃ list ∈ root.outside, e ∈ list.bullets

end Element

/-- A position is on a line, where what the line captures stands first or, if that looks like a
comment, where the line starts. It is where the line captured it exactly if what it captures looks
like a comment or does not stand anywhere before. -/
structure Token.StartsAt (t : Token) (s : Source) (marker : Text) (p : Position) : Prop where
  /-- The line. -/
  line : p.line = t.line
  /-- The column, and the column of what is captured behind what leads it. -/
  column : ∃ line before after, s.line? t.line = some line ∧
    line = before ++ (t.content ++ after) ∧ Token.Leads t.kind before ∧
      (∃ first : Nat, t.content.IsFirstFrom line 0 first ∧
        p.column = if marker.isPrefixOf t.content then 0 else (first : Int)) ∧
      (p.column = (if marker.isPrefixOf t.content then 0 else (before.length : Int)) ↔
        marker.isPrefixOf t.content = true ∨ ∀ k < before.length, ¬t.content.OccursAt line k)

/-- What is found on a line from what the line captures on starts there. -/
theorem Source.Locates.startsAt {s : Source} {marker : Text} {t : Token} {rest : List Token}
    (ht : t :: rest <:+ s.tokens marker) (hled : t.kind.isLed = true) {pieces : List Text}
    (hhead : pieces.head? = some t.content) {last : Int}
    (htakes : s.Takes marker t.line pieces last) {l : Location}
    (hlocates : s.Locates marker t.line pieces l) : t.StartsAt s marker l.start := by
  have hline := hlocates.start_line htakes
  refine ⟨hline, ?_⟩
  obtain ⟨line, before, after, htext, hwritten, hleads⟩ := Token.exists_leads ht hled
  obtain ⟨piece, entry, column, hpiece, hentry, hcolumn, hstart⟩ := hlocates.start
  obtain rfl : t.content = piece := Option.some.inj (hhead.symm.trans hpiece)
  have hfound := (s.numbers_taken marker t.line _).line?_eq (List.mem_of_head? hentry)
  rw [hstart] at hline
  dsimp only at hline
  rw [hline, htext] at hfound
  obtain rfl : line = entry.2 := Option.some.inj hfound
  have hfirst := (Text.find?_eq_some_iff (Int.le_refl 0)).mp hcolumn
  refine ⟨entry.2, before, after, htext, hwritten, hleads, ⟨column, hfirst, by rw [hstart]⟩, ?_⟩
  have hat : t.content.OccursAt entry.2 before.length := by
    rw [hwritten]
    exact ⟨by simp, by rw [List.drop_left]; exact List.prefix_append _ _⟩
  have hle : column ≤ before.length := hfirst.2 ⟨Int.natCast_nonneg _, hat⟩
  rw [hstart]
  dsimp only
  by_cases hcomment : marker.isPrefixOf t.content = true
  · simp [hcomment]
  · rw [if_neg hcomment, if_neg hcomment, or_iff_right hcomment]
    constructor
    · intro hsame k hk hoccurs
      have := hfirst.2 ⟨Int.natCast_nonneg _, hoccurs⟩
      omega
    · intro hnone
      have := hnone column
      by_contra hne
      exact hnone column (by omega) hfirst.1.2

namespace Locating

variable {env : Locating} {marker : Text} {w : Window} {e root : Element}

/-- A title is a header on its line, and starts where the title stands first. -/
theorem exists_titled_startsAt (hmarker : env.marker = .text marker) {t : Token}
    {rest : List Token} (ht : t :: rest <:+ env.source.tokens marker) (hled : t.kind.isLed = true)
    (what : Text) (depth : Int) (htakes : env.source.Takes marker t.line [t.content] t.line)
    (hw : w.IsWide) (hmin : w.minLine = t.line) (hmax : t.line ≤ w.maxLine) (hint : Hint) :
    ∃ n, (env.titled what hint t.content depth w).nodes = [n] ∧ n.kind = .header depth ∧
      t.StartsAt env.source marker n.loc.start := by
  obtain ⟨loc, hfind, hlocates⟩ := exists_find_eq_ok hmarker what hint htakes hw hmin hmax
  obtain ⟨n, -, hnodes, hkind, rfl, -⟩ := exists_textNode_eq hfind (.header depth) t.content
  exact ⟨n, hnodes, hkind, hlocates.startsAt ht hled rfl htakes⟩

/-- Only titles become headers. -/
theorem Becomes.isTitle {nodes : List (Node Text)} (hbecomes : env.Becomes marker e nodes)
    {n : Node Text} (hn : n ∈ nodes) {depth : Int} (hkind : n.kind = .header depth) :
    e.isTitle = true := by
  have hown {w : Window} (hn : n ∈ env.own w e) : e.isTitle = true := by
    have h := hasKind_of_mem_own hn
    rw [hkind] at h
    cases h with
    | header | sectionBlock => rfl
  cases hbecomes with
  | document => cases hn
  | title => rfl
  | block => exact hown hn

/-- A title becomes a header that starts where the title stands first in its line. -/
theorem Becomes.title_startsAt (hmarker : env.marker = .text marker) {nodes : List (Node Text)}
    (hbecomes : env.Becomes marker e nodes) (horigin : e.OriginIn env.source marker)
    (htitle : e.isTitle = true) :
    ∃ t n depth, env.source.token? marker e.line = some t ∧ nodes = [n] ∧
      n.kind = .header depth ∧ t.StartsAt env.source marker n.loc.start := by
  cases hbecomes with
  | document => cases htitle
  | @title title w hw hline htakes hmax =>
    obtain ⟨t, htoken, hkind, hcontent⟩ := horigin
    rw [hline] at htoken
    obtain ⟨rest, ht⟩ := Source.suffix_of_token? htoken
    have hsame := Source.line_of_token? htoken htakes.bounds.1
    rw [← hsame, hcontent] at htakes
    obtain ⟨n, hnodes, hnode, hstarts⟩ := exists_titled_startsAt hmarker ht (by rw [hkind]; rfl)
      "header".toList 1 htakes hw hsame.symm (hsame ▸ hmax) title.line
    refine ⟨t, n, 1, ?_, ?_, hnode, hstarts⟩
    · rw [Element.line, hline, htoken]
    · rw [own, hcontent, hnodes]
  | @block e w low high hw hline hspans hmax =>
    cases e with
    | header title => cases hspans
    | sectionBlock line title level blocks =>
      obtain ⟨t, m, htoken, hkind, rfl, -⟩ := horigin
      obtain rfl : line = some w.minLine := hline
      obtain ⟨rest, ht⟩ := Source.suffix_of_token? htoken
      cases hspans with
      | sectionBlock hlow hhigh htakes hblocks =>
        have hsame := Source.line_of_token? htoken htakes.bounds.1
        rw [← hsame] at htakes
        obtain ⟨n, hnodes, hnode, hstarts⟩ := exists_titled_startsAt hmarker ht
          (by rw [hkind]; rfl) "section".toList (level + 1) htakes hw hsame.symm (by omega)
          (some w.minLine)
        exact ⟨t, n, level + 1, htoken, hnodes, hnode, hstarts⟩
    | _ => cases htitle

/-- The text of an item of a list with markers becomes a paragraph that starts where the text that
the line of the item captures stands first. -/
theorem Becomes.item_startsAt (hmarker : env.marker = .text marker) {nodes : List (Node Text)}
    (hbecomes : env.Becomes marker e nodes) (hitem : e.IsListItem env.source marker) :
    ∃ t n, env.source.token? marker e.line = some t ∧ nodes = [n] ∧ n.kind = .paragraph ∧
      t.StartsAt env.source marker n.loc.start := by
  obtain ⟨t, text, checked, blocks, rfl, htoken, hmarked, hfirst⟩ := hitem
  obtain ⟨rest, ht⟩ := Source.suffix_of_token? htoken
  have hled : t.kind.isLed = true := by
    unfold Token.marker? at hmarked
    unfold Token.Kind.isLed
    split at hmarked <;> simp_all
  cases hbecomes with
  | @block _ w low high hw hline hspans hmax =>
    have hsame : t.line = w.minLine := Option.some.inj hline
    cases hspans with
    | item hlow hhigh htext hne hblocks =>
      have := hblocks.le
      obtain ⟨c, more, rfl⟩ := List.exists_cons_of_ne_nil hne
      obtain ⟨loc, hfind, hlocates⟩ := exists_find_eq_ok hmarker "list_item".toList (some t.line)
        htext hw hsame.symm (by omega)
      obtain ⟨n, -, hnodes, hkind, rfl, -⟩ := exists_textNode_eq hfind .paragraph (c :: more)
      exact ⟨t, n, htoken, hnodes, hkind, hlocates.startsAt ht hled hfirst htext⟩

end Locating

/-- What elements outside cells are said to become, as far as titles and the texts of items are
concerned: a title becomes a header and nothing else does, the text of an item becomes a paragraph,
and both start where their line has what it captures of them first. -/
structure Element.StartsIn (s : Source) (marker : Text) (root e : Element)
    (nodes : List (Node Text)) : Prop where
  /-- Headers come from titles. -/
  isTitle : ∀ n ∈ nodes, ∀ depth, n.kind = .header depth → e.isTitle = true
  /-- Titles. -/
  title : e.isTitle = true → ∃ t n depth, s.token? marker e.line = some t ∧ nodes = [n] ∧
    n.kind = .header depth ∧ t.StartsAt s marker n.loc.start
  /-- Items. -/
  item : e.IsBulletOf root → ∃ t n, s.token? marker e.line = some t ∧ nodes = [n] ∧
    n.kind = .paragraph ∧ t.StartsAt s marker n.loc.start

/-- Titles and the texts of items start where they stand first in their lines. Whenever a text is
read without a fault, under any rules that step over comments and any comment marker without a
carriage return, it is converted, and the outermost nodes of the tree fall into those of each element
outside cells; every header among them is that of a title, and for each title and each item of a list
with markers there is one node, on the line of its token, behind the marks of that line exactly if the
text does not stand in the line before. -/
theorem convert_columns_iff {rules : Rules} {marker t : Text} (hskip : rules.skipComments = true)
    (hmarker : rules.marker = .text marker) (hreturn : '\r' ∉ marker) {root : Element}
    (hread : (Element.ofText rules.reading rules.marker t).document = .ok root) :
    ∃ (tree : Node Text) (found : List (List (Node Text))),
      (Conversion.ofText rules t).result = .ok tree ∧ found.flatten.Perm tree.outermost ∧
        List.Forall₂ (Element.StartsIn (Source.ofText t) marker root) root.outside found := by
  obtain ⟨tree, found, hresult, hfound, hbecomes, horigin⟩ :=
    Conversion.accounts_ofText hskip hmarker hreturn hread
  refine ⟨tree, found, hresult, hfound, ?_⟩
  have hboth := (List.forall₂_and_left root.outside found).mpr ⟨horigin, hbecomes⟩
  refine hboth.imp fun e nodes h => ⟨fun n hn depth hkind => h.2.isTitle hn hkind,
    fun htitle => h.2.title_startsAt hmarker h.1 htitle, ?_⟩
  rintro ⟨list, hlist, hx⟩
  have hitem : e.IsListItem (Source.ofText t) marker := by
    have hlisted := horigin list hlist
    unfold Element.bullets at hx
    split at hx
    · exact hlisted e hx
    · exact hlisted e hx
    · cases hx
  exact h.2.item_startsAt hmarker hitem

/-- The text of the item `- -` is found in its marker. -/
theorem convert_columns_in_marker :
    ∃ (tree n : Node Text), (Conversion.ofText {} "- -".toList).result = .ok tree ∧
      n ∈ tree.outermost ∧ n.kind = .paragraph ∧ n.loc.start = ⟨1, 0⟩ := by
  have hread : (Element.ofText (Rules.reading {}) (Rules.marker {}) "- -".toList).document
      = .ok (.document (some 1) none [.unorderedList (some 1) ['-']
          [.item (some 1) (some ['-']) none []]] [] "- -".toList) := by
    with_unfolding_all rfl
  obtain ⟨tree, found, hresult, hfound, hstarts⟩ :=
    convert_columns_iff rfl rfl (by decide) hread
  have houtside : (Element.document (some 1) none [.unorderedList (some 1) ['-']
      [.item (some 1) (some ['-']) none []]] [] "- -".toList).outside
        = [.document (some 1) none [.unorderedList (some 1) ['-']
            [.item (some 1) (some ['-']) none []]] [] "- -".toList,
          .unorderedList (some 1) ['-'] [.item (some 1) (some ['-']) none []],
          .item (some 1) (some ['-']) none []] := by
    rw [Element.outside_of_not_isTable rfl, Element.parts, List.flatMap_singleton,
      Element.outside_of_not_isTable rfl, Element.parts, List.flatMap_singleton,
      Element.outside_of_not_isTable rfl]
    rfl
  rw [houtside] at hstarts
  obtain ⟨_, _, -, hrest, rfl⟩ := List.forall₂_cons_left_iff.mp hstarts
  obtain ⟨_, _, -, hlast, rfl⟩ := List.forall₂_cons_left_iff.mp hrest
  obtain ⟨nodes, _, hitem, -, rfl⟩ := List.forall₂_cons_left_iff.mp hlast
  obtain ⟨t, n, htoken, hn, hkind, hstart⟩ := hitem.item
    ⟨.unorderedList (some 1) ['-'] [.item (some 1) (some ['-']) none []],
      by rw [houtside]; simp, List.mem_singleton_self _⟩
  obtain rfl : (⟨.unorderedItem ['-'] none, ['-'], 1, "- -".toList, 0⟩ : Token) = t :=
    Option.some.inj (Eq.trans (by with_unfolding_all rfl) htoken)
  refine ⟨tree, n, hresult, hfound.subset (by simp [hn]), hkind, ?_⟩
  obtain ⟨line, _, _, hline, -, -, ⟨first, hfirst, hcolumn⟩, -⟩ := hstart.column
  obtain rfl : "- -".toList = line :=
    Option.some.inj (Eq.trans (by with_unfolding_all rfl) hline)
  have hzero : first = 0 := Nat.le_zero.mp (hfirst.2 ⟨Int.le_refl _, by decide⟩)
  have hposition (p : Position) (h : p.line = 1) (h' : p.column = 0) : p = ⟨1, 0⟩ := by
    obtain ⟨_, _⟩ := p
    rw [← h, ← h']
  refine hposition _ hstart.line ?_
  rw [hcolumn, hzero]
  rfl

end Asciidoc
