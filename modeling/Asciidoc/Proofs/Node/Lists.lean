import Asciidoc.Proofs.Node.Valid
import Asciidoc.Proofs.Reading.Lists
import Asciidoc.Proofs.Span.Covered

/-!
# Texts of list lines, item for item

The tree of a text all of whose lines are list items, blank lines or comments is a document around
one list, with an item and a piece of text for every item line, in the order of the lines and each
on its line; the validator finds nothing wrong with it (`convert_lists`).

What reading such a text comes to is a tree of lists, and the proof follows that tree: the items
of a list and the lists of an item stand on lines after one another, so that every item is searched
in a window that starts with its line, and nothing has to be put in another order.
-/

namespace Asciidoc

open Text

namespace Node

variable {α : Type}

/-! ## Nodes with a tag -/

/-- The nodes with a tag in trees. -/
def tagged (tag : Text) (ns : List (Node α)) : List (Node α) :=
  (preorderAll ns).filter fun n => n.name.toList == tag

theorem findAll_eq_tagged (tag : Text) (n : Node α) : n.findAll tag = tagged tag [n] := by
  rw [findAll, walk, walkFrom_eq_preorderAll, tagged]

theorem tagged_append (tag : Text) (ms ns : List (Node α)) :
    tagged tag (ms ++ ns) = tagged tag ms ++ tagged tag ns := by
  rw [tagged, preorderAll_append, List.filter_append, tagged, tagged]

theorem tagged_around {n : Node α} {kind : Kind α} {ns : List (Node α)} (hkind : n.kind = kind)
    (hchildren : n.children = ns) (tag : Text) :
    tagged tag [n] = if kind.name.toList == tag then n :: tagged tag ns else tagged tag ns := by
  rw [tagged, preorderAll, preorderAll, List.append_nil, preorder_eq, List.filter_cons, name, hkind,
    hchildren]
  rfl

end Node

/-! ## Items of lists -/

/-- A piece of text is the content of a line, on that line. -/
structure Node.IsTextOf (t : Token) (n : Node Text) : Prop where
  kind_eq : n.kind = .str t.content
  start_eq : n.loc.start.line = t.line
  stop_eq : n.loc.stop.line = t.line

/-- What elements became has an item and a piece of text for each of some lines. -/
structure Converted.ShowsItems (lines : List Token) (c : Converted) : Prop where
  /-- As many items as lines. -/
  items : (Node.tagged "ListItem".toList c.nodes).length = lines.length
  /-- The pieces of text, in the order of the lines. -/
  texts : List.Forall₂ Node.IsTextOf lines (Node.tagged "Str".toList c.nodes)

namespace Converted

theorem ShowsItems.nothing : ShowsItems [] {} := ⟨rfl, .nil⟩

theorem ShowsItems.append {a b : Converted} {lines others : List Token}
    (ha : a.ShowsItems lines) (hb : b.ShowsItems others) : (a ++ b).ShowsItems (lines ++ others) := by
  refine ⟨?_, ?_⟩
  · rw [nodes_append, Node.tagged_append, List.length_append, List.length_append, ha.items,
      hb.items]
  · rw [nodes_append, Node.tagged_append]
    exact List.rel_append ha.texts hb.texts

theorem ShowsItems.nodes_ne_nil {c : Converted} {lines : List Token} (h : c.ShowsItems lines)
    (hne : lines ≠ []) : c.nodes ≠ [] := by
  intro hnil
  have hitems := h.items
  rw [hnil] at hitems
  exact hne (List.length_eq_zero_iff.mp hitems.symm)

end Converted

/-! ## Trees of lists -/

namespace Element

/-- Lists and their items. -/
def isOfList : Element → Bool
  | .unorderedList .. | .orderedList .. | .item .. => true
  | _ => false

mutual

/-- What holds of lists and of items holds throughout a list of lines. -/
theorem IsListOf.every {Q : Element → Prop} (hQ : ∀ e, e.isOfList = true → Q e) :
    {lines : List Token} → {e : Element} → IsListOf lines e → e.Every Q
  | _, _, .unordered _ hitems | _, _, .ordered _ hitems => .intro (hQ _ rfl) (hitems.every hQ)

theorem AreItemsOf.every {Q : Element → Prop} (hQ : ∀ e, e.isOfList = true → Q e) :
    {lines : List Token} → {es : List Element} → AreItemsOf lines es → ∀ x ∈ es, x.Every Q
  | _, _, .nil => nofun
  | _, _, .cons hblocks hothers =>
    List.forall_mem_cons.mpr ⟨.intro (hQ _ rfl) (hblocks.every hQ), hothers.every hQ⟩

theorem AreListsOf.every {Q : Element → Prop} (hQ : ∀ e, e.isOfList = true → Q e) :
    {lines : List Token} → {es : List Element} → AreListsOf lines es → ∀ x ∈ es, x.Every Q
  | _, _, .nil => nofun
  | _, _, .cons hfirst hothers => List.forall_mem_cons.mpr ⟨hfirst.every hQ, hothers.every hQ⟩

end

/-- Nothing in lists and items is searched where it does not stand. -/
theorem isPlain_of_isOfList (s : Source) (marker : Text) (e : Element)
    (h : e.isOfList = true) : e.IsPlain s marker := by
  cases e <;> trivial

/-- There is no description list. -/
theorem termsFirst_of_isOfList (s : Source) (marker : Text) (e : Element)
    (h : e.isOfList = true) : e.TermsFirst s marker := by
  cases e <;> trivial

end Element

/-! ## What lists become -/

namespace Locating

variable {env : Locating} {marker : Text} {w : Window} {low high : Int} {lines : List Token}

/-- A container around something is one node. -/
theorem exists_gather_eq (env : Locating) (kind : Node.Kind Text) {inside : Converted}
    (hplaced : inside.Every (Node.PlacedIn env.source)) (hne : inside.nodes ≠ []) :
    ∃ n, (env.gather kind inside).nodes = [n] ∧ n.kind = kind ∧ n.children = inside.nodes := by
  obtain ⟨n, hn, hchildren⟩ := exists_around?_eq_some env kind hne
    fun m hm => hplaced m hm m m.mem_preorder_self
  obtain ⟨_, _, -, -, hnode⟩ := around?_eq_some hn
  exact ⟨n, by rw [gather, hn, Option.toList_some], (node?_eq_some hnode).1, hchildren⟩

/-- The text of an item of a single line is a piece of text on that line. -/
theorem itemText_showsText (hmarker : env.marker = .text marker) (hw : w.IsWide) {t : Token}
    (hfeed : '\n' ∉ t.content) {last : Int}
    (htakes : env.source.Takes marker t.line t.content.lines last) (hne : t.content ≠ [])
    (hmin : w.minLine = t.line) (hmax : last ≤ w.maxLine) :
    ∃ n leaf, (env.itemText (some t.line) (some t.content) w).nodes = [n] ∧
      n.kind = .paragraph ∧ n.children = [leaf] ∧ leaf.children = [] ∧ leaf.IsTextOf t := by
  have hlines : t.content.lines = [t.content] := split_of_not_mem hfeed
  obtain ⟨c, rest, hcontent⟩ := List.exists_cons_of_ne_nil hne
  obtain ⟨loc, hfind, hlocates⟩ :=
    exists_find_eq_ok hmarker "list_item".toList (some t.line) htakes hw hmin hmax
  obtain ⟨n, leaf, hnodes, hkind, -, hchildren, hleaf, hnone, rfl, -⟩ :=
    exists_textNode_eq hfind .paragraph t.content
  refine ⟨n, leaf, ?_, hkind, hchildren, hnone, hleaf, hlocates.start_line htakes, ?_⟩
  · rw [← hnodes, hcontent]
    rfl
  · rw [hlocates.stop_line htakes]
    -- A single piece is on one line.
    rw [hlines] at htakes
    have hfirst := htakes.first
    have hlast := htakes.last
    cases htaken : env.source.taken marker t.line 1 with
    | nil => simp [htaken] at hfirst
    | cons entry others =>
      have hlength : (env.source.taken marker t.line 1).length ≤ 1 := List.length_take_le _ _
      rw [htaken] at hlength
      obtain rfl : others = [] := List.length_eq_zero_iff.mp (by simpa using hlength)
      simp [htaken] at hfirst hlast
      omega

/-- An item is around its text and then what its blocks became. -/
theorem item_showsItems (hmarker : env.marker = .text marker) (hreturn : '\r' ∉ marker)
    (hw : w.IsWide) {t : Token} (hfeed : '\n' ∉ t.content) {checked : Option Bool}
    {blocks : List Element} (hlists : Element.AreListsOf lines blocks) (hlow : 1 ≤ low)
    (hspans : env.source.Spans marker low high
      (.item (some t.line) (some t.content) checked blocks))
    (hmin : w.minLine = t.line) (hmax : high ≤ w.maxLine + 1)
    (hblocks : ∀ low, 1 ≤ low → env.source.SpansAll marker low high blocks →
      (env.convertAll w none blocks).ShowsItems lines) :
    (env.convert w (.item (some t.line) (some t.content) checked blocks)).ShowsItems
      (t :: lines) := by
  cases hspans with
  | @item _ _ _ last _ _ _ hlowLine _ htakes hne hinside =>
    have hle := hinside.le
    have hline := htakes.line_le
    obtain ⟨n, leaf, hnodes, hkind, hchildren, hnone, htext⟩ :=
      itemText_showsText hmarker hw hfeed htakes hne hmin (by omega)
    have hplaced := itemText_placed env (some t.line) (some t.content) w
    have hblocksPlaced := convertAll_placed env w none blocks
    have hkindLeaf : (Node.Kind.paragraph : Node.Kind Text).isLeaf = false := rfl
    have htextLies : (env.itemText (some t.line) (some t.content) w).Lies w.minLine (last + 1)
        True := by
      obtain ⟨c, rest, hcontent⟩ := List.exists_cons_of_ne_nil hne
      have hlies := taken_lies hmarker hkindLeaf "list_item".toList (some t.line)
        t.content (hmin ▸ htakes) hw (by omega) (show last < last + 1 by omega)
      rw [hcontent] at hlies ⊢
      exact hlies
    have hblocksLies := convertAll_lies hmarker hreturn hw (by omega) none blocks hinside hmax
      (by simp) (hlists.every (Element.isPlain_of_isOfList _ _))
    have hlies := htextLies.append hplaced hblocksPlaced hblocksLies (by omega) (by omega)
    have hne : ((env.itemText (some t.line) (some t.content) w)
        ++ env.convertAll w none blocks).nodes ≠ [] := by
      simp [hnodes]
    obtain ⟨item, hitem, hitemKind, hitemChildren⟩ :=
      exists_gather_eq env .listItem (hplaced.append hblocksPlaced) hne
    have hbelow := hblocks (last + 1) (by omega) hinside
    rw [convert, itemAround_eq hlies]
    have hleaf : leaf.kind = .str t.content := htext.kind_eq
    refine ⟨?_, ?_⟩ <;>
      rw [hitem, Node.tagged_around hitemKind hitemChildren, Converted.nodes_append, hnodes,
        Node.tagged_append, Node.tagged_around hkind hchildren, Node.tagged_around hleaf hnone]
    · simpa [Node.Kind.name, Node.tagged, Node.preorderAll] using hbelow.items
    · simpa [Node.Kind.name, Node.tagged, Node.preorderAll] using
        (show List.Forall₂ Node.IsTextOf (t :: lines) (leaf :: _) from .cons htext hbelow.texts)

/-- A list is one node around what its items became. -/
theorem list_showsItems {items : List Element} (hlines : lines ≠ [])
    (hitems : (env.convertAll w none items).ShowsItems lines) :
    (env.gather .list (env.convertAll w none items)).ShowsItems lines ∧
      ∃ n, (env.gather .list (env.convertAll w none items)).nodes = [n] ∧ n.kind = .list := by
  obtain ⟨n, hn, hkind, hchildren⟩ := exists_gather_eq env .list
    (convertAll_placed env w none items) (hitems.nodes_ne_nil hlines)
  refine ⟨⟨?_, ?_⟩, n, hn, hkind⟩
  · rw [hn, Node.tagged_around hkind hchildren]
    exact hitems.items
  · rw [hn, Node.tagged_around hkind hchildren]
    exact hitems.texts

-- Along the tree of lists: a list goes on with its items, the items with the lists inside them.
mutual

/-- A list becomes one node, which shows its items. -/
theorem convert_list (hmarker : env.marker = .text marker) (hreturn : '\r' ∉ marker)
    {w : Window} (hw : w.IsWide) {low high : Int} (hlow : 1 ≤ low) {lines : List Token}
    (hfeed : ∀ t ∈ lines, '\n' ∉ t.content) : (e : Element) → Element.IsListOf lines e →
      env.source.Spans marker low high e → high ≤ w.maxLine + 1 →
        (env.convert w e).ShowsItems lines ∧ ∃ n, (env.convert w e).nodes = [n] ∧ n.kind = .list
  | .unorderedList _ _ items, .unordered hne hitems, hspans, hmax => by
    cases hspans with
    | unorderedList hlowLine _ hinside =>
      rw [convert]
      exact list_showsItems hne
        (convertAll_items hmarker hreturn hw (by omega) hfeed items hitems hinside hmax)
  | .orderedList _ _ items, .ordered hne hitems, hspans, hmax => by
    cases hspans with
    | orderedList hlowLine _ hinside =>
      rw [convert]
      exact list_showsItems hne
        (convertAll_items hmarker hreturn hw (by omega) hfeed items hitems hinside hmax)

/-- The items of a list are shown. -/
theorem convertAll_items (hmarker : env.marker = .text marker) (hreturn : '\r' ∉ marker)
    {w : Window} (hw : w.IsWide) {low high : Int} (hlow : 1 ≤ low) {lines : List Token}
    (hfeed : ∀ t ∈ lines, '\n' ∉ t.content) : (es : List Element) →
      Element.AreItemsOf lines es → env.source.SpansAll marker low high es →
        high ≤ w.maxLine + 1 → (env.convertAll w none es).ShowsItems lines
  | [], .nil, _, _ => .nothing
  | _, @Element.AreItemsOf.cons t checked below others blocks rest hblocks hothers, hspans,
      hmax => by
    obtain ⟨hfeedItem, hfeedLists⟩ := List.forall_mem_cons.mp hfeed
    obtain ⟨hfeedBelow, hfeedOthers⟩ := List.forall_mem_append.mp hfeedLists
    cases hspans with
    | @cons _ middle _ _ _ hfirst hrest =>
      have hlt := hfirst.lt
      have hreach : middle ≤ (w.narrowed (some t.line) (following none rest)).maxLine + 1 :=
        le_following _ hrest hmax (by simp)
      rw [convertAll_cons, ← List.cons_append]
      refine Converted.ShowsItems.append ?_ (convertAll_items hmarker hreturn hw (by omega)
        hfeedOthers rest hothers hrest hmax)
      refine item_showsItems hmarker hreturn (hw.narrowed _ _) hfeedItem hblocks hlow hfirst rfl
        hreach fun low hlow hinside => ?_
      exact convertAll_lists hmarker hreturn (hw.narrowed _ _) hlow hfeedBelow blocks hblocks
        hinside hreach

/-- Lists after one another are shown. -/
theorem convertAll_lists (hmarker : env.marker = .text marker) (hreturn : '\r' ∉ marker)
    {w : Window} (hw : w.IsWide) {low high : Int} (hlow : 1 ≤ low) {lines : List Token}
    (hfeed : ∀ t ∈ lines, '\n' ∉ t.content) : (es : List Element) →
      Element.AreListsOf lines es → env.source.SpansAll marker low high es →
        high ≤ w.maxLine + 1 → (env.convertAll w none es).ShowsItems lines
  | [], .nil, _, _ => .nothing
  | e :: rest, .cons hfirst hothers, hspans, hmax => by
    obtain ⟨hfeedFirst, hfeedOthers⟩ := List.forall_mem_append.mp hfeed
    cases hspans with
    | @cons _ middle _ _ _ hspan hrest =>
      have hlt := hspan.lt
      have hreach : middle ≤ (w.narrowed e.line (following none rest)).maxLine + 1 :=
        le_following _ hrest hmax (by simp)
      rw [convertAll_cons]
      exact (convert_list hmarker hreturn (hw.narrowed _ _) hlow hfeedFirst e hfirst hspan
        hreach).1.append
          (convertAll_lists hmarker hreturn hw (by omega) hfeedOthers rest hothers hrest hmax)

end

/-- A document of one list is one node around one node, which shows the items of the list. -/
theorem document_showsItems (hmarker : env.marker = .text marker) (hreturn : '\r' ∉ marker)
    (hlow : 1 ≤ low) (hfeed : ∀ t ∈ lines, '\n' ∉ t.content) {list : Element}
    (hlist : Element.IsListOf lines list) (hspans : env.source.SpansAll marker low high [list])
    (hhigh : high ≤ env.source.count + 1) (attributes : List (Text × Text)) (source : Text) :
    let root : Element := .document (some 1) none [list] attributes source
    ∃ node, (env.convert ⟨1, env.source.count, true, 0⟩ root).nodes = [(env.document true root).1] ∧
      (env.document true root).1.kind = .document ∧ (env.document true root).1.children = [node] ∧
      node.kind = .list ∧ (⟨[node], []⟩ : Converted).ShowsItems lines := by
  intro root
  let w : Window := ⟨1, env.source.count, true, 0⟩
  have hw : w.IsWide := ⟨rfl, rfl⟩
  obtain ⟨hshown, node, hnode, hkind⟩ : (env.convertAll w none [list]).ShowsItems lines ∧
      ∃ n, (env.convertAll w none [list]).nodes = [n] ∧ n.kind = .list := by
    cases hspans with
    | @cons _ middle _ _ _ hspan hrest =>
      have hreach : middle ≤ (w.narrowed list.line (following none [])).maxLine + 1 :=
        le_following _ hrest hhigh (by simp)
      obtain ⟨hshown, node, hnode, hkind⟩ :=
        convert_list hmarker hreturn (hw.narrowed _ _) hlow hfeed list hlist hspan hreach
      rw [convertAll_cons, convertAll]
      exact ⟨lines.append_nil ▸ hshown.append .nothing, node, by simp [hnode], hkind⟩
  obtain ⟨tree, htree, htreeKind, hchildren⟩ :=
    exists_gather_eq env .document (convertAll_placed env w none [list]) (by simp [hnode])
  have hnodes : (env.convert w root).nodes = [tree] := by
    rw [convert_document, Option.elim_none, ← htree]
    rfl
  obtain rfl : (env.document true root).1 = tree := by
    rcases env.document_eq true (some 1) none [list] attributes source with ⟨hnone, -⟩ | hone
    · exact absurd (hnodes.symm.trans hnone) (by simp)
    · exact (List.singleton_inj.mp (hnodes.symm.trans hone)).symm
  refine ⟨node, hnodes, htreeKind, hchildren.trans hnode, hkind, ?_, ?_⟩
  · rw [← hnode]
    exact hshown.items
  · rw [← hnode]
    exact hshown.texts

end Locating

/-! ## Texts of list lines -/

/-- The values of a tree are those of its pieces of text. -/
theorem Node.values_eq_map {lines : List Token} {n : Node Text}
    (h : List.Forall₂ Node.IsTextOf lines (n.findAll "Str".toList)) :
    n.values = lines.map (·.content) := by
  rw [Node.findAll] at h
  rw [Node.values]
  generalize n.walk = nodes at h ⊢
  induction nodes generalizing lines with
  | nil =>
    cases h
    rfl
  | cons m rest ih =>
    cases hname : m.name.toList == "Str".toList with
    | true =>
      rw [List.filter_cons, hname, if_pos rfl] at h
      cases h with
      | cons hfirst hothers => simp only [List.filterMap_cons, hfirst.kind_eq, ih hothers, List.map]
    | false =>
      rw [List.filter_cons, hname, if_neg Bool.false_ne_true] at h
      rw [List.filterMap_cons, ih h]
      rcases hkind : m.kind <;> simp_all [Node.name, Node.Kind.name]

/-- What a list line has behind its marker is on one line. -/
theorem not_mem_content_of_mem_itemLines {s : Source} {marker : Text} {t : Token}
    (h : t ∈ itemLines (s.tokens marker)) : '\n' ∉ t.content := by
  obtain ⟨hmem, hmarker⟩ := List.mem_filter.mp h
  obtain ⟨before, after, hsplit⟩ := List.append_of_mem hmem
  have hsuffix : t :: after <:+ s.tokens marker := ⟨before, hsplit.symm⟩
  have hcaptures := Token.captures_of_suffix hsuffix
  obtain ⟨-, -, line, hline, -, htoken⟩ := Source.line_of_suffix hsuffix
  have hcontent : t.content <:+: t.text := by
    obtain ⟨marker, hmarker⟩ := Option.isSome_iff_exists.mp hmarker
    rcases Token.kind_of_marker? hmarker with ⟨checked, hkind⟩ | hkind <;>
      rw [hkind] at hcaptures <;> exact hcaptures.2
  have htext : t.text <:+: line := by
    rw [htoken]
    exact (dropReturns_isPrefix line).isInfix
  exact fun hfeed => Source.not_mem_line hline ((hcontent.trans htext).subset hfeed)

/-- A text all of whose lines are list items, blank lines or comments, and one of them an item,
becomes a document around one list. It has an item for every item line, and a piece of text that
is what the line has behind its marker: in the order of the lines, each on its line. Nothing is
wrong with it. -/
theorem convert_lists (t : Text)
    (hlisted : ∀ token ∈ (Tokens.ofText Marker.slashes t).list, token.isListed = true)
    (hitem : itemLines (Tokens.ofText Marker.slashes t).list ≠ []) :
    ∃ tree list, (Conversion.ofText {} t).result = .ok tree ∧
      tree.kind = .document ∧ tree.children = [list] ∧ list.kind = .list ∧
      (tree.findAll "ListItem".toList).length
        = (itemLines (Tokens.ofText Marker.slashes t).list).length ∧
      List.Forall₂ Node.IsTextOf (itemLines (Tokens.ofText Marker.slashes t).list)
        (tree.findAll "Str".toList) ∧
      tree.values = (itemLines (Tokens.ofText Marker.slashes t).list).map (·.content) ∧
      tree.ofTexts.violations? (Source.ofText t) = some [] := by
  have hreturn : '\r' ∉ Marker.slashes := by decide
  let c := (Source.ofText t).start Marker.slashes
  let env := Rules.locating {} t
  -- Reading comes to one list, which stands on lines of the text.
  obtain ⟨hremarks, list, attributes, hroot, hlist⟩ :=
    Cursor.readDocument_lists (c := c) hlisted hitem ⟨{}, Marker.slashes⟩ t
  obtain ⟨top, blocks, _, low, high, hroot', htitle, hlow, hblocks, hhigh⟩ :=
    Cursor.readDocument_onLines hreturn ⟨{}, Marker.slashes⟩ (List.suffix_refl c.unread) t
  obtain ⟨-, rfl, rfl, -, -⟩ := Element.document.inj (hroot'.symm.trans hroot)
  have hlevels := c.readDocument_hasLevels ⟨{}, Marker.slashes⟩ true t
  have hread : (Element.ofText {} (.text Marker.slashes) t).document
      = .ok (.document (some 1) none [list] attributes t) := by
    rw [Element.document_ofText]
    dsimp only
    rw [Cursor.fault?, hremarks, hroot]
    rfl
  have hresult : (Conversion.ofText {} t).result
      = .ok (env.document true (.document (some 1) none [list] attributes t)).1 :=
    Conversion.result_ofText rfl hread
  -- The list becomes one node, and the document a node around it.
  obtain ⟨node, hone, htree, hchildren, hnode, hshown⟩ :=
    env.document_showsItems rfl hreturn hlow (fun _ => not_mem_content_of_mem_itemLines) hlist
      hblocks hhigh attributes t
  have htagged (tag : Text) (htag : (Node.Kind.document : Node.Kind Text).name.toList ≠ tag) :
      (env.document true (.document (some 1) none [list] attributes t)).1.findAll tag
        = Node.tagged tag [node] := by
    rw [Node.findAll_eq_tagged, Node.tagged_around htree hchildren, if_neg (by simpa using htag)]
  have htexts : List.Forall₂ Node.IsTextOf (itemLines c.unread)
      ((env.document true (.document (some 1) none [list] attributes t)).1.findAll
        "Str".toList) := by
    rw [htagged _ (by decide)]
    exact hshown.texts
  refine ⟨_, node, hresult, htree, hchildren, hnode, ?_, htexts, Node.values_eq_map htexts, ?_⟩
  · rw [htagged _ (by decide)]
    exact hshown.items
  · -- There is no description list, so the leaves are in order.
    have hsound := env.convert_sound ⟨1, env.source.count, true, 0⟩ (hroot ▸ hlevels)
    have hevery {Q : Element → Prop} (hQ : ∀ e, e.isOfList = true → Q e)
        (hdocument : Q (.document (some 1) none [list] attributes t)) :
        (Element.document (some 1) none [list] attributes t).Every Q :=
      .intro hdocument fun x hx => by
        obtain rfl := List.mem_singleton.mp hx
        exact hlist.every hQ
    have hleaves := (env.document_inOrder_iff rfl hreturn (some 1) attributes t htitle hlow
      hblocks hhigh (hevery (Element.isPlain_of_isOfList _ _) trivial)).mpr
        (hevery (Element.termsFirst_of_isOfList _ _) trivial)
    rw [Converted.LeavesInOrder, Converted.leaves, hone, List.flatMap_singleton] at hleaves
    exact (hsound _ (hone ▸ List.mem_singleton_self _)).violations?_eq_nil hleaves

/-- Items of three lists and a comment, the text of the first item twice. -/
theorem convert_lists_nested :
    (∀ token ∈ (Tokens.ofText Marker.slashes "* a\n** b\n\n// c\n. a".toList).list,
      token.isListed = true) ∧
    ∃ tree, (Conversion.ofText {} "* a\n** b\n\n// c\n. a".toList).result = .ok tree ∧
      (tree.findAll "ListItem".toList).length = 3 ∧ tree.values = [['a'], ['b'], ['a']] ∧
      tree.ofTexts.violations? (Source.ofText "* a\n** b\n\n// c\n. a".toList) = some [] := by
  have hlisted : ∀ token ∈ (Tokens.ofText Marker.slashes "* a\n** b\n\n// c\n. a".toList).list,
      token.isListed = true := by
    with_unfolding_all decide
  have hvalues : (itemLines (Tokens.ofText Marker.slashes
      "* a\n** b\n\n// c\n. a".toList).list).map (·.content) = [['a'], ['b'], ['a']] := by
    with_unfolding_all rfl
  have hlength := congrArg List.length hvalues
  rw [List.length_map] at hlength
  obtain ⟨tree, _, hresult, -, -, -, hitems, -, htexts, hvalid⟩ :=
    convert_lists "* a\n** b\n\n// c\n. a".toList hlisted
      (List.ne_nil_of_length_eq_add_one hlength)
  exact ⟨hlisted, tree, hresult, hitems.trans hlength, htexts.trans hvalues, hvalid⟩

end Asciidoc
