import Asciidoc.Proofs.Element.Apart
import Asciidoc.Proofs.Node.InOrder
import Asciidoc.Proofs.Node.Shown

/-!
# What elements become lies apart

An element that stands on some lines becomes leaves on these lines, and siblings stand on
different lines, so that their leaves are in order when those of each of them are. What is left
is a description on the line of its term: the leaves of a plain element are in order exactly when
every description in it is found behind its term (`convert_lies`).

On the way the children of an item turn out to be in the order of their starts already.
-/

namespace Asciidoc

open Text

namespace Node

variable {s : Source} {a b : Node Text}

/-- What ends on one line is before what starts on a later line. -/
theorem PlacedIn.stop_le_start (ha : a.PlacedIn s) (hb : b.PlacedIn s)
    (h : a.loc.stop.line < b.loc.start.line) : a.range.stop ≤ b.range.start :=
  Source.offset_mono ha.hasLocation.2 hb.hasLocation.1 (Source.range?_eq_some ha.range_eq).2
    (Source.range?_eq_some hb.range_eq).1 (.inl h)

/-- On one line the columns decide. -/
theorem PlacedIn.stop_le_start_iff (ha : a.PlacedIn s) (hb : b.PlacedIn s)
    (h : a.loc.stop.line = b.loc.start.line) :
    a.range.stop ≤ b.range.start ↔ a.loc.stop.column ≤ b.loc.start.column := by
  obtain ⟨-, hstop⟩ := Source.range?_eq_some ha.range_eq
  obtain ⟨hstart, -⟩ := Source.range?_eq_some hb.range_eq
  obtain ⟨first, hat, hstop⟩ := Option.map_eq_some_iff.mp hstop
  obtain ⟨second, hat', hstart⟩ := Option.map_eq_some_iff.mp hstart
  rw [h, hat'] at hat
  obtain rfl := Option.some.inj hat
  omega

end Node

namespace Converted

variable {s : Source} {a b c : Converted} {low middle high : Int} {Q R : Prop}

/-- The pieces of text and the listings of what elements became, in preorder. -/
def leaves (c : Converted) : List (Node Text) := c.nodes.flatMap Node.leaves

@[simp] theorem leaves_append (a b : Converted) : (a ++ b).leaves = a.leaves ++ b.leaves := by
  rw [leaves, nodes_append, List.flatMap_append, leaves, leaves]

theorem leaves_of_nodes_eq_nil (h : c.nodes = []) : c.leaves = [] := by
  rw [leaves, h, List.flatMap_nil]

/-- A property of every node is one of the leaves. -/
theorem Every.leaf {P : Node Text → Prop} (h : c.Every P) {m : Node Text} (hm : m ∈ c.leaves) :
    P m := by
  obtain ⟨n, hn, hm⟩ := List.mem_flatMap.mp hm
  exact h n hn m (List.mem_filter.mp hm).1

/-- The leaves are on the lines from one on and before another. -/
def Between (low high : Int) (c : Converted) : Prop :=
  ∀ m ∈ c.leaves, low ≤ m.loc.start.line ∧ m.loc.stop.line < high

/-- The leaves stand one after the other. -/
def LeavesInOrder (c : Converted) : Prop :=
  c.leaves.Pairwise fun a b => a.range.stop ≤ b.range.start

/-- What elements on some lines became: its leaves are on these lines, its nodes in the order of
their starts, and its leaves in order exactly under a condition. -/
structure Lies (low high : Int) (Q : Prop) (c : Converted) : Prop where
  /-- The leaves are on the lines. -/
  between : c.Between low high
  /-- The nodes are in the order of their starts. -/
  sorted : c.nodes.Pairwise fun a b => a.range.start ≤ b.range.start
  /-- The condition. -/
  inOrder_iff : c.LeavesInOrder ↔ Q

theorem Between.mono {low' high' : Int} (h : c.Between low high) (hlow : low' ≤ low)
    (hhigh : high ≤ high') : c.Between low' high' := by
  intro m hm
  have := h m hm
  omega

theorem Between.append (ha : a.Between low high) (hb : b.Between low high) :
    (a ++ b).Between low high := by
  intro m hm
  rw [leaves_append, List.mem_append] at hm
  exact hm.elim (ha m) (hb m)

theorem Lies.mono {low' : Int} (h : c.Lies low high Q) (hlow : low' ≤ low) : c.Lies low' high Q :=
  ⟨h.between.mono hlow (Int.le_refl _), h.sorted, h.inOrder_iff⟩

theorem Lies.congr (h : c.Lies low high Q) (hQ : Q ↔ R) : c.Lies low high R :=
  ⟨h.between, h.sorted, h.inOrder_iff.trans hQ⟩

theorem leavesInOrder_of_nodes_eq_nil (h : c.nodes = []) : c.LeavesInOrder := by
  rw [LeavesInOrder, leaves_of_nodes_eq_nil h]
  exact .nil

theorem Lies.nothing (h : c.nodes = []) : c.Lies low high True := by
  refine ⟨?_, by rw [h]; exact .nil, iff_of_true (leavesInOrder_of_nodes_eq_nil h) trivial⟩
  rw [Between, leaves_of_nodes_eq_nil h]
  exact nofun

/-- Leaves on earlier lines are before leaves on later ones. -/
theorem stop_le_start (ha : a.Every (Node.PlacedIn s)) (hb : b.Every (Node.PlacedIn s))
    (hfirst : a.Between low middle) (hothers : b.Between middle high) :
    ∀ x ∈ a.leaves, ∀ y ∈ b.leaves, x.range.stop ≤ y.range.start := by
  intro x hx y hy
  have := hfirst x hx
  have := hothers y hy
  exact (ha.leaf hx).stop_le_start (hb.leaf hy) (by omega)

/-- Nodes on earlier lines start before nodes on later ones. -/
theorem start_le_start (ha : a.Every (Node.PlacedIn s)) (hb : b.Every (Node.PlacedIn s))
    (hfirst : a.Between low middle) (hothers : b.Between middle high) :
    ∀ m ∈ a.nodes, ∀ n ∈ b.nodes, m.range.start ≤ n.range.start := by
  intro m hm n hn
  obtain ⟨x, -, hx, -, hmx, -⟩ := Node.AllPlaced.leafEnds (ha m hm)
  obtain ⟨y, -, hy, -, hny, -⟩ := Node.AllPlaced.leafEnds (hb n hn)
  have hordered := Node.AllPlaced.leaf_ordered (ha m hm) (List.mem_of_head? hx)
  have hapart := stop_le_start ha hb hfirst hothers x
    (List.mem_flatMap.mpr ⟨m, hm, List.mem_of_head? hx⟩) y
    (List.mem_flatMap.mpr ⟨n, hn, List.mem_of_head? hy⟩)
  omega

/-- What stands on earlier lines and what stands on later ones is in order if both are. -/
theorem leavesInOrder_append_iff (ha : a.Every (Node.PlacedIn s)) (hb : b.Every (Node.PlacedIn s))
    (hfirst : a.Between low middle) (hothers : b.Between middle high) :
    (a ++ b).LeavesInOrder ↔ a.LeavesInOrder ∧ b.LeavesInOrder := by
  have hapart := stop_le_start ha hb hfirst hothers
  rw [LeavesInOrder, leaves_append, List.pairwise_append]
  exact ⟨fun h => ⟨h.1, h.2.1⟩, fun h => ⟨h.1, h.2, hapart⟩⟩

/-- What stands on earlier lines and what stands on later ones lie on the lines of both. -/
theorem Lies.append (ha : a.Every (Node.PlacedIn s)) (hb : b.Every (Node.PlacedIn s))
    (hfirst : a.Lies low middle Q) (hothers : b.Lies middle high R) (hlow : low ≤ middle)
    (hhigh : middle ≤ high) : (a ++ b).Lies low high (Q ∧ R) := by
  refine ⟨?_, ?_, ?_⟩
  · exact (hfirst.between.mono (Int.le_refl _) hhigh).append
      (hothers.between.mono hlow (Int.le_refl _))
  · rw [nodes_append, List.pairwise_append]
    exact ⟨hfirst.sorted, hothers.sorted,
      start_le_start ha hb hfirst.between hothers.between⟩
  · rw [← hfirst.inOrder_iff, ← hothers.inOrder_iff]
    exact leavesInOrder_append_iff ha hb hfirst.between hothers.between

end Converted

namespace Locating

variable {env : Locating} {marker : Text} {w : Window} {low high : Int} {Q : Prop}

/-! ## The constructions -/

/-- A container has the leaves of what is inside it. -/
theorem leaves_gather {kind : Node.Kind Text} (hkind : kind.isLeaf = false) {inside : Converted}
    (hplaced : inside.Every (Node.PlacedIn env.source)) :
    (env.gather kind inside).leaves = inside.leaves := by
  by_cases hne : inside.nodes = []
  · have hnone : env.around? kind inside.nodes = none := by
      rw [hne]
      rfl
    rw [Converted.leaves_of_nodes_eq_nil hne, gather, hnone]
    rfl
  · obtain ⟨n, hn, hchildren⟩ := exists_around?_eq_some env kind hne
      fun n hn => hplaced n hn n n.mem_preorder_self
    obtain ⟨_, _, -, -, hnode⟩ := around?_eq_some hn
    have hleaf : n.kind.isLeaf = false := (node?_eq_some hnode).1 ▸ hkind
    rw [gather, hn, Option.toList_some, Converted.leaves, List.flatMap_singleton,
      Node.leaves_of_not_isLeaf hleaf, hchildren, Converted.leaves]

/-- A container lies where what is inside it lies. -/
theorem gather_lies {kind : Node.Kind Text} (hkind : kind.isLeaf = false) {inside : Converted}
    (hplaced : inside.Every (Node.PlacedIn env.source)) (hbetween : inside.Between low high)
    (hinOrder : inside.LeavesInOrder ↔ Q) : (env.gather kind inside).Lies low high Q := by
  have hleaves := leaves_gather hkind hplaced
  refine ⟨?_, ?_, ?_⟩
  · rwa [Converted.Between, hleaves]
  · rw [gather]
    cases env.around? kind inside.nodes with
    | none => exact .nil
    | some n => exact List.pairwise_singleton _ _
  · rwa [Converted.LeavesInOrder, hleaves]

/-- A container around all that is directly inside an element lies where that lies. -/
theorem gathered_lies {kind : Node.Kind Text} (hkind : kind.isLeaf = false) {e : Element}
    {parts : List Element} (hself : e.TermsFirst env.source marker) (hparts : e.parts = parts)
    (hinside : (env.convertAll w none parts).Lies low high
      (∀ x ∈ parts, x.Every (Element.TermsFirst env.source marker))) :
    (env.gather kind (env.convertAll w none parts)).Lies low high
      (e.Every (Element.TermsFirst env.source marker)) :=
  (gather_lies hkind (convertAll_placed env w none parts) hinside.between
    hinside.inOrder_iff).congr (Element.forall_iff_every hself hparts)

/-- The nodes inside an item are in order before they are put in order. -/
theorem itemAround_eq {inside : Converted} (h : inside.Lies low high Q) :
    env.itemAround inside = env.gather .listItem inside := by
  have hsorted : (inside.nodes.mergeSort fun a b => a.range.start ≤ b.range.start)
      = inside.nodes :=
    List.mergeSort_of_pairwise (h.sorted.imp fun hab => by simpa using hab)
  rw [itemAround, hsorted]

theorem itemAround_lies {inside : Converted} (hplaced : inside.Every (Node.PlacedIn env.source))
    (h : inside.Lies low high Q) : (env.itemAround inside).Lies low high Q := by
  rw [itemAround_eq h]
  exact gather_lies rfl hplaced h.between h.inOrder_iff

/-- A node around a piece of text that is found has one leaf, where it is found. -/
theorem exists_leaves_textNode {outer : Node.Kind Text} (houter : outer.isLeaf = false)
    {what : Text} {line : Hint} {expected : List Text} {loc : Location}
    (hfind : env.find what line expected w = .ok loc) (value : Text) :
    ∃ n leaf, (env.textNode outer what line value expected w).nodes = [n] ∧
      n.leaves = [leaf] ∧ leaf.loc = loc := by
  obtain ⟨n, leaf, hnodes, hkind, -, hchildren, hleaf, hnone, hloc, -⟩ :=
    exists_textNode_eq hfind outer value
  refine ⟨n, leaf, hnodes, ?_, hloc⟩
  rw [Node.leaves_of_not_isLeaf (hkind ▸ houter), hchildren, List.flatMap_singleton,
    Node.leaves, Node.preorder_eq, hnone]
  simp [hleaf, Node.preorderAll, Node.Kind.isLeaf]

/-- A single leaf lies where it was found. -/
theorem lies_of_leaf {c : Converted} {n leaf : Node Text} (hnodes : c.nodes = [n])
    (hleaves : n.leaves = [leaf])
    (h : low ≤ leaf.loc.start.line ∧ leaf.loc.stop.line < high) : c.Lies low high True := by
  have hc : c.leaves = [leaf] := by
    rw [Converted.leaves, hnodes, List.flatMap_singleton, hleaves]
  refine ⟨fun m hm => ?_, ?_, ?_⟩
  · rw [hc] at hm
    obtain rfl := List.mem_singleton.mp hm
    exact h
  · rw [hnodes]
    exact List.pairwise_singleton _ _
  · rw [Converted.LeavesInOrder, hc, iff_true]
    exact List.pairwise_singleton _ _

/-- A node around a piece of text lies where the text is found. -/
theorem textNode_lies {outer : Node.Kind Text} (houter : outer.isLeaf = false) {what : Text}
    {line : Hint} {value : Text} {expected : List Text}
    (h : ∀ loc, env.source.find? env.marker.textD expected w = some loc →
      low ≤ loc.start.line ∧ loc.stop.line < high) :
    (env.textNode outer what line value expected w).Lies low high True := by
  cases hfind : env.find what line expected w with
  | error loss =>
    rw [textNode, hfind]
    exact .nothing rfl
  | ok loc =>
    obtain ⟨n, leaf, hnodes, hleaves, hloc⟩ := exists_leaves_textNode houter hfind value
    exact lies_of_leaf hnodes hleaves (hloc ▸ h loc (find_eq_ok hfind))

/-- A listing lies where it is found. -/
theorem listing_lies {line : Hint} {lines : List Text} {language : Option Text}
    (h : ∀ loc, env.source.find? env.marker.textD lines { w with skipComments := false }
      = some loc → low ≤ loc.start.line ∧ loc.stop.line < high) :
    (env.listing line lines language w).Lies low high True := by
  rw [listing]
  split
  · exact .nothing rfl
  · rename_i loc hfind
    cases hn : env.node? (.codeBlock language (unlines lines)) loc [] with
    | none => exact .nothing rfl
    | some n =>
      obtain ⟨hkind, hloc, hchildren, -⟩ := node?_eq_some hn
      have hleaves : n.leaves = [n] := by
        rw [Node.leaves, Node.preorder_eq, hchildren]
        simp [hkind, Node.preorderAll, Node.Kind.isLeaf]
      exact lies_of_leaf rfl hleaves (hloc ▸ h loc (find_eq_ok hfind))

/-! ## Texts on their lines -/

/-- A piece of text lies on the lines it was taken from. -/
theorem taken_lies (hmarker : env.marker = .text marker) {outer : Node.Kind Text}
    (houter : outer.isLeaf = false) (what : Text) (line : Hint) (value : Text)
    {pieces : List Text} {last : Int} (htakes : env.source.Takes marker w.minLine pieces last)
    (hw : w.IsWide) (hmax : last ≤ w.maxLine) (hhigh : last < high) :
    (env.textNode outer what line value pieces w).Lies w.minLine high True := by
  refine textNode_lies houter fun loc hloc => ?_
  rw [hmarker] at hloc
  obtain ⟨hstart, hstop⟩ := htakes.lines_of_find? hw.skips hw.whole rfl hmax hloc
  omega

/-- Lines between delimiters lie between the delimiters, if none of them looks like a comment, or
on the line of the first. -/
theorem delimited_lies (hmarker : env.marker = .text marker) (hreturn : '\r' ∉ marker)
    {outer : Node.Kind Text} (houter : outer.isLeaf = false) (what : Text) (line : Hint)
    (value : Text) {lines : List Text} (hline : 1 ≤ w.minLine) (hw : w.IsWide)
    (hopens : env.source.opensLiteral marker w.minLine = true)
    (hplain : ∀ text ∈ lines, marker.isPrefixOf text = false)
    (hstands : env.source.Stands (w.minLine + 1) lines) (hmax : high ≤ w.maxLine + 1)
    (hhigh : w.minLine + lines.length < high) :
    (env.textNode outer what line value lines w).Lies w.minLine high True := by
  refine textNode_lies houter fun loc hloc => ?_
  rw [hmarker, Marker.textD] at hloc
  obtain ⟨hstart, hstop⟩ := Source.find?_within hw.whole hline 1
    (fun _ => hstands.isKept hreturn hline hopens hplain) (hstands.inLines_behind hline)
    (by omega) hloc
  omega

/-- A listing lies on the lines it stands on, or on that of the delimiter before them. -/
theorem listed_lies (line : Hint) {lines : List Text} (language : Option Text)
    (hline : 1 ≤ w.minLine) (hw : w.IsWide)
    (hstands : env.source.Stands w.minLine lines ∨ env.source.Stands (w.minLine + 1) lines)
    (hmax : high ≤ w.maxLine + 1) (hhigh : w.minLine + lines.length < high) :
    (env.listing line lines language w).Lies w.minLine high True := by
  refine listing_lies fun loc hloc => ?_
  rcases hstands with hstands | hstands
  · have := Source.find?_listed hw.whole hline 0 hstands.inLines (by omega) hloc
    omega
  · have := Source.find?_listed hw.whole hline 1 (hstands.inLines_behind hline) (by omega) hloc
    omega

/-- A paragraph that is a listing by its style lies on its lines, if they stand one after the
other. -/
theorem styled_lies (line : Hint) {lines : List Text} (language : Option Text) {last : Int}
    (hw : w.IsWide) (htakes : env.source.Takes marker w.minLine lines last)
    (hstands : env.source.Stands w.minLine lines ∨ env.source.Stands (w.minLine + 1) lines)
    (hmax : high ≤ w.maxLine + 1) (hhigh : last < high) :
    (env.listing line lines language w).Lies w.minLine high True := by
  obtain ⟨hline, hspan, -⟩ := htakes.bounds
  by_cases hlast : last + 1 ≤ w.minLine + lines.length
  · refine listing_lies fun loc hloc => ?_
    have := Source.find?_listed hw.whole hline 0 (htakes.inLines_of_last hlast) (by omega) hloc
    omega
  · exact listed_lies line language hline hw hstands hmax (by omega)

/-! ## Items -/

/-- The leaves of an item with a text are that of its text, and behind it those of its blocks. -/
theorem item_leaves (hmarker : env.marker = .text marker) (hw : w.IsWide) {text : Text}
    {line last : Int} (hmin : w.minLine = line)
    (htakes : env.source.Takes marker line text.lines last) (hne : text ≠ [])
    (hmax : last ≤ w.maxLine) (hhigh : last < high) {blocks : List Element}
    (hblocks : (env.convertAll w none blocks).Lies (last + 1) high Q) (checked : Option Bool) :
    (env.convert w (.item (some line) (some text) checked blocks)).Lies line high Q ∧
      ∃ leaf, (env.convert w (.item (some line) (some text) checked blocks)).leaves
          = leaf :: (env.convertAll w none blocks).leaves ∧
        env.source.Locates marker line text.lines leaf.loc := by
  obtain ⟨c, rest, rfl⟩ := List.exists_cons_of_ne_nil hne
  subst hmin
  have hline := htakes.line_le
  have hplaced := itemText_placed env (some w.minLine) (some (c :: rest)) w
  have hblocksPlaced := convertAll_placed env w none blocks
  obtain ⟨loc, hfind, hlocates⟩ :=
    exists_find_eq_ok hmarker "list_item".toList (some w.minLine) htakes hw rfl hmax
  have hkind : (Node.Kind.paragraph : Node.Kind Text).isLeaf = false := rfl
  obtain ⟨n, leaf, hnodes, hleaves, rfl⟩ := exists_leaves_textNode hkind hfind (c :: rest)
  have htext : (env.itemText (some w.minLine) (some (c :: rest)) w).Lies w.minLine (last + 1)
      True := taken_lies hmarker rfl _ _ _ htakes hw hmax (by omega)
  have hinside := (htext.append hplaced hblocksPlaced hblocks (by omega) (by omega)).congr
    (Iff.of_eq (true_and Q))
  rw [convert]
  refine ⟨itemAround_lies (hplaced.append hblocksPlaced) hinside, leaf, ?_, hlocates⟩
  rw [itemAround_eq hinside, leaves_gather rfl (hplaced.append hblocksPlaced),
    Converted.leaves_append]
  have hleaf : (env.itemText (some w.minLine) (some (c :: rest)) w).leaves = [leaf] := by
    rw [itemText, paragraph, Converted.leaves, hnodes, List.flatMap_singleton, hleaves]
  rw [hleaf, List.singleton_append]

/-- A term has one leaf, which ends where the term is found to end. -/
def EndsAt (s : Source) (term : Element) (leaf : Node Text) : Prop :=
  ∃ (line : Int) (text : Text) (stop : Nat), term = .item (some line) (some text) none [] ∧
    s.stopOf? line text = some stop ∧ leaf.loc.stop = ⟨line, stop⟩

/-- The first leaf is a text that is found in a line, and all others are on later lines. -/
def StartsAt (s : Source) (marker : Text) (line : Int) (text : Text) (c : Converted) : Prop :=
  ∃ (leaf : Node Text) (rest : List (Node Text)) (start : Nat), c.leaves = leaf :: rest ∧
    s.startOf? marker line (text.lines.headD []) = some start ∧
      leaf.loc.start = ⟨line, start⟩ ∧ ∀ m ∈ rest, line < m.loc.start.line

/-- Terms have one leaf each. -/
theorem terms_leaves (hmarker : env.marker = .text marker) (hw : w.IsWide) (next : Hint)
    {terms : List Element} (hterms : ∀ e ∈ terms, env.source.IsTerm marker e)
    (h : env.source.SpansAll marker low high terms) (hmax : high ≤ w.maxLine + 1)
    (hnext : ∀ line, next = some line → high ≤ line + 1) :
    List.Forall₂ (EndsAt env.source) terms (env.convertAll w next terms).leaves := by
  induction terms generalizing low with
  | nil => exact .nil
  | cons e rest ih =>
    obtain ⟨line, text, rfl, htakes⟩ := hterms e List.mem_cons_self
    have hlines : text.lines = [text] := htakes.lines_eq
    cases h with
    | @cons _ middle _ _ _ hfirst hothers =>
      have hreach := le_following (some line) hothers hmax hnext
      have hnarrowed := hw.narrowed (some line) (following next rest)
      rw [convertAll_cons, Converted.leaves_append]
      cases hfirst with
      | @item _ _ _ last _ _ _ hlow hhigh htext hne hblocks =>
        have hfinal := hblocks.le
        rw [Element.line]
        have hnone : (env.convertAll (w.narrowed (some line) (following next rest)) none []).Lies
            (last + 1) middle True := .nothing rfl
        have hmin : (w.narrowed (some line) (following next rest)).minLine = line := rfl
        obtain ⟨-, leaf, hleaves, hlocates⟩ := item_leaves hmarker hnarrowed hmin htext hne
          (by omega) (by omega) hnone none
        rw [hlines] at hlocates
        obtain ⟨stop, hstop, hend⟩ := hlocates.stopOf? htakes
        rw [hleaves]
        exact .cons ⟨line, text, stop, rfl, hstop, hend⟩
          (ih (fun e he => hterms e (List.mem_cons_of_mem _ he)) hothers)

/-- What holds of all leaves of terms and what holds of all terms is the same if it is for each
term and its leaf. -/
theorem forall_mem_iff_of_forall₂ {α β : Type} {R : α → β → Prop} {P : α → Prop} {Q : β → Prop}
    {as : List α} {bs : List β} (h : List.Forall₂ R as bs)
    (hiff : ∀ b ∈ bs, ∀ a, R a b → (Q b ↔ P a)) : (∀ b ∈ bs, Q b) ↔ ∀ a ∈ as, P a := by
  induction h with
  | nil => exact iff_of_true nofun nofun
  | cons hfirst _ ih =>
    rw [List.forall_mem_cons, List.forall_mem_cons, hiff _ List.mem_cons_self _ hfirst,
      ih fun b hb => hiff b (List.mem_cons_of_mem _ hb)]

/-- What a description became is behind a term exactly when it is found behind it. -/
theorem stop_le_start_iff_isBehind {s : Source} {term : Element} {leaf : Node Text}
    {c : Converted} {line : Int} {text : Text} (hleaf : leaf.PlacedIn s)
    (hc : c.Every (Node.PlacedIn s)) (hends : EndsAt s term leaf)
    (hline : leaf.loc.stop.line ≤ line) (hstarts : StartsAt s marker line text c)
    (checked : Option Bool) (blocks : List Element) :
    (∀ y ∈ c.leaves, leaf.range.stop ≤ y.range.start) ↔
      s.IsBehind marker term (.item (some line) (some text) checked blocks) := by
  obtain ⟨number, word, stop, rfl, hstop, hend⟩ := hends
  obtain ⟨first, rest, start, hleaves, hstart, hbegin, hrest⟩ := hstarts
  have hfirst : first ∈ c.leaves := hleaves ▸ List.mem_cons_self
  have hnumber : leaf.loc.stop.line = number := by rw [hend]
  rw [Source.IsBehind]
  constructor
  · rintro hbefore rfl
    rw [hstop, hstart]
    have hcolumns := (hleaf.stop_le_start_iff (hc.leaf hfirst) (by rw [hend, hbegin])).mp
      (hbefore first hfirst)
    rw [hend, hbegin] at hcolumns
    exact Int.ofNat_le.mp hcolumns
  · intro hbehind y hy
    rw [hleaves] at hy
    rcases List.mem_cons.mp hy with rfl | hy
    · by_cases hsame : number = line
      · subst hsame
        have hcolumns := hbehind rfl
        rw [hstop, hstart] at hcolumns
        refine (hleaf.stop_le_start_iff (hc.leaf hfirst) (by rw [hend, hbegin])).mpr ?_
        rw [hend, hbegin]
        exact Int.ofNat_le.mpr hcolumns
      · refine hleaf.stop_le_start (hc.leaf hfirst) ?_
        rw [hbegin]
        dsimp only
        omega
    · have := hrest y hy
      exact hleaf.stop_le_start (hc.leaf (hleaves ▸ List.mem_cons_of_mem _ hy)) (by omega)

/-- What a description became that starts on the line of the last term or later: it lies there, and
starts with its text if it has one, as it must on the line of the term. -/
structure Describes (s : Source) (marker : Text) (behind middle : Int) (d : Element)
    (c : Converted) (line : Int) : Prop where
  line_eq : d.line = some line
  behind_le : behind - 1 ≤ line
  lies : c.Lies line middle (d.Every (Element.TermsFirst s marker))
  starts : ∀ text checked blocks, d = .item (some line) (some text) checked blocks →
    StartsAt s marker line text c
  hasText : line = behind - 1 → ∃ text checked blocks, d = .item (some line) (some text) checked blocks

/-- Terms are before a description exactly when it is found behind each of them; a description
that is not on the line of the last always is. -/
theorem terms_before_iff {s : Source} {terms : List Element} {a b : Converted}
    {behind middle line : Int} {d : Element} (ha : a.Every (Node.PlacedIn s))
    (hb : b.Every (Node.PlacedIn s)) (hleaves : List.Forall₂ (EndsAt s) terms a.leaves)
    (hterms : a.Between low behind) (hd : Describes s marker behind middle d b line) :
    (∀ x ∈ a.leaves, ∀ y ∈ b.leaves, x.range.stop ≤ y.range.start) ↔
      ∀ term ∈ terms, s.IsBehind marker term d := by
  have hbehind := hd.behind_le
  refine forall_mem_iff_of_forall₂ hleaves fun x hx term hends => ?_
  have hbefore := hterms x hx
  by_cases hsame : line = behind - 1
  · obtain ⟨text, checked, blocks, rfl⟩ := hd.hasText hsame
    exact stop_le_start_iff_isBehind (ha.leaf hx) hb hends (by omega)
      (hd.starts text checked blocks rfl) checked blocks
  · have hafter : b.Between behind middle := hd.lies.between.mono (by omega) (Int.le_refl _)
    refine iff_of_true (Converted.stop_le_start ha hb hterms hafter x hx)
      (Source.isBehind_of_ne ?_)
    obtain ⟨number, word, stop, rfl, -, hend⟩ := hends
    rw [hend] at hbefore
    rw [hd.line_eq]
    rintro ⟨⟩
    simp only at hbefore
    omega

/-- What an entry became lies on its lines. -/
theorem entry_lies {s : Source} {a b : Converted} {behind middle : Int} {terms : List Element}
    {description : Option Element} (ha : a.Every (Node.PlacedIn s))
    (hb : b.Every (Node.PlacedIn s)) (hleaves : List.Forall₂ (EndsAt s) terms a.leaves)
    (hterms : a.Lies low behind (∀ x ∈ terms, x.Every (Element.TermsFirst s marker)))
    (hlow : low < behind) (hmiddle : behind ≤ middle) (hnone : description = none → b.nodes = [])
    (hsome : ∀ d, description = some d → ∃ line, Describes s marker behind middle d b line) :
    (a ++ b).Between low middle ∧
      ((a ++ b).LeavesInOrder ↔
        (∀ term ∈ terms, ∀ d ∈ description, s.IsBehind marker term d) ∧
          ∀ x ∈ (⟨terms, description⟩ : Entry Element).items,
            x.Every (Element.TermsFirst s marker)) := by
  have hfirst := hterms.between.mono (Int.le_refl low) hmiddle
  cases description with
  | none =>
    have hnil := Converted.leaves_of_nodes_eq_nil (hnone rfl)
    have hall : (a ++ b).leaves = a.leaves := by
      rw [Converted.leaves_append, hnil, List.append_nil]
    rw [Converted.Between, Converted.LeavesInOrder, hall]
    refine ⟨hfirst, hterms.inOrder_iff.trans ?_⟩
    simp [Entry.items]
  | some d =>
    obtain ⟨line, hd⟩ := hsome d rfl
    have hbehind := hd.behind_le
    refine ⟨hfirst.append (hd.lies.between.mono (by omega) (Int.le_refl _)), ?_⟩
    have hbefore := terms_before_iff ha hb hleaves hterms.between hd
    have hall := hterms.inOrder_iff
    have hown := hd.lies.inOrder_iff
    rw [Converted.LeavesInOrder] at hall hown
    rw [Converted.LeavesInOrder, Converted.leaves_append, List.pairwise_append, hbefore, hall,
      hown]
    simp only [Entry.items, Option.toList_some, List.forall_mem_append, Option.mem_def,
      Option.some.injEq, forall_eq', List.mem_singleton, forall_eq]
    constructor
    · rintro ⟨hitems, hitem, hbehinds⟩
      exact ⟨hbehinds, hitems, hitem⟩
    · rintro ⟨hbehinds, hitems, hitem⟩
      exact ⟨hitems, hitem, hbehinds⟩

/-! ## Elements -/

-- One case for each kind of element; the runs of siblings and entries go along.
mutual

/-- What a plain element becomes lies on the lines of the element, and its leaves are in order
exactly when all descriptions are found behind their terms. An item with a text starts with it. -/
theorem convert_lies (hmarker : env.marker = .text marker) (hreturn : '\r' ∉ marker) {w : Window}
    (hw : w.IsWide) {low high : Int} (hlow : 1 ≤ low) :
    (e : Element) → env.source.Spans marker low high e → e.line = some w.minLine →
      high ≤ w.maxLine + 1 → e.Every (Element.IsPlain env.source marker) →
        (env.convert w e).Lies w.minLine high (e.Every (Element.TermsFirst env.source marker)) ∧
          ∀ text checked blocks, e = .item (some w.minLine) (some text) checked blocks →
            StartsAt env.source marker w.minLine text (env.convert w e)
  | .sectionBlock line title level blocks, h, hmin, hmax, hplain => by
    obtain rfl : line = some w.minLine := hmin
    cases h with
    | sectionBlock hlow' hhigh htitle hblocks =>
      refine ⟨?_, nofun⟩
      have hne := (titled_shows hmarker (level + 1) "section".toList htitle hw (by omega)).1
      have htop : (env.titled "section".toList (some w.minLine) title (level + 1) w).Lies
          w.minLine (w.minLine + 1) True :=
        taken_lies hmarker rfl _ _ _ htitle hw (by omega) (by omega)
      have hdepth : (Node.Kind.header (level + 1) : Node.Kind Text).HoldsText fun _ => True :=
        .header trivial
      have htopPlaced := env.keeps_placed.textNode hdepth "section".toList (some w.minLine)
        title [title] w
      have hbelow := convertAll_lies hmarker hreturn hw (by omega) none blocks hblocks hmax
        (by simp) fun x hx => hplain.part hx
      rw [convert, if_neg (by simpa using hne)]
      refine (htop.append htopPlaced (convertAll_placed env w none blocks) hbelow (by omega)
        hblocks.le).congr ?_
      rw [true_and]
      exact Element.forall_iff_every trivial rfl
  | .paragraph line lines, h, hmin, hmax, _ => by
    obtain rfl : line = some w.minLine := hmin
    cases h with
    | paragraph hlow' hhigh hlines htrims =>
      refine ⟨?_, nofun⟩
      have hback : (unlines lines).lines = lines :=
        lines_unlines hlines.pieces_ne_nil hlines.not_mem
      rw [convert, if_neg (by simpa using hlines.pieces_ne_nil), paragraph, hback]
      refine (taken_lies hmarker rfl _ _ _ hlines hw (by omega) hhigh).congr ?_
      exact Element.true_iff_every trivial rfl
  | .literal line lines, h, hmin, hmax, hplain => by
    obtain rfl : line = some w.minLine := hmin
    refine ⟨.congr (Q := True) ?_ ?_, nofun⟩
    · rw [convert]
      split
      · exact .nothing rfl
      · rename_i hne
        cases h with
        | literal hlow' hhigh hopens hlines =>
          have hback : (unlines lines).lines = lines :=
            lines_unlines hlines.pieces_ne_nil hlines.not_mem
          rw [paragraph, hback]
          exact taken_lies hmarker rfl _ _ _ hlines hw (by omega) hhigh
        | delimited hlow' hhigh hopens hlines =>
          have hback : (unlines lines).lines = lines :=
            lines_unlines (by simpa using hne) hlines.not_mem
          rw [paragraph, hback]
          exact delimited_lies hmarker hreturn rfl _ _ _ (by omega) hw hopens
            (hplain.self (by simpa using hopens)) hlines hmax hhigh
    · exact Element.true_iff_every trivial rfl
  | .listing line lines language, h, hmin, hmax, hplain => by
    obtain rfl : line = some w.minLine := hmin
    have hstands := hplain.self w.minLine rfl
    refine ⟨.congr (Q := True) ?_ ?_, nofun⟩
    · rw [convert]
      cases h with
      | listing hlow' hhigh hopens hlines =>
        exact listed_lies _ language (by omega) hw hstands hmax hhigh
      | styledListing hlow' hhigh hopens hlines =>
        exact styled_lies _ language hw hlines hstands hmax hhigh
    · exact Element.true_iff_every trivial rfl
  | .unorderedList line marks items, h, hmin, hmax, hplain => by
    obtain rfl : line = some w.minLine := hmin
    cases h with
    | unorderedList hlow' hhigh hitems =>
      refine ⟨?_, nofun⟩
      have hinside := convertAll_lies hmarker hreturn hw (by omega) none items hitems hmax
        (by simp) fun x hx => hplain.part hx
      rw [convert]
      exact gathered_lies rfl trivial rfl hinside
  | .orderedList line marks items, h, hmin, hmax, hplain => by
    obtain rfl : line = some w.minLine := hmin
    cases h with
    | orderedList hlow' hhigh hitems =>
      refine ⟨?_, nofun⟩
      have hinside := convertAll_lies hmarker hreturn hw (by omega) none items hitems hmax
        (by simp) fun x hx => hplain.part hx
      rw [convert]
      exact gathered_lies rfl trivial rfl hinside
  | .item line text checked blocks, h, hmin, hmax, hplain => by
    obtain rfl : line = some w.minLine := hmin
    have hiff : (∀ x ∈ blocks, x.Every (Element.TermsFirst env.source marker)) ↔
        (Element.item (some w.minLine) text checked blocks).Every
          (Element.TermsFirst env.source marker) := by
      exact Element.forall_iff_every trivial rfl
    cases h with
    | item hlow' hhigh htext hne hblocks =>
      have hline := htext.line_le
      have hfinal := hblocks.le
      have hbelow := convertAll_lies hmarker hreturn hw (by omega) none blocks hblocks hmax
        (by simp) fun x hx => hplain.part hx
      obtain ⟨hlies, leaf, hleaves, hlocates⟩ := item_leaves hmarker hw rfl htext hne (by omega)
        (by omega) hbelow checked
      refine ⟨hlies.congr hiff, ?_⟩
      rintro text' checked' blocks' ⟨⟩
      obtain ⟨start, hstart, hbegin⟩ := hlocates.startOf? htext
      refine ⟨leaf, _, start, hleaves, hstart, hbegin, fun m hm => ?_⟩
      have := hbelow.between m hm
      omega
    | bareItem hlow' hhigh hblocks =>
      refine ⟨?_, nofun⟩
      have hbelow := convertAll_lies hmarker hreturn hw (by omega) none blocks hblocks hmax
        (by simp) fun x hx => hplain.part hx
      rw [convert]
      exact (itemAround_lies (convertAll_placed env w none blocks) hbelow).congr hiff
  | .descriptionList line delimiter entries, h, hmin, hmax, hplain => by
    obtain rfl : line = some w.minLine := hmin
    cases h with
    | descriptionList hlow' hhigh hentries =>
      refine ⟨?_, nofun⟩
      obtain ⟨hbetween, hinOrder⟩ := convertEntries_lies hmarker hreturn hw (by omega) entries
        hentries hmax fun entry hentry x hx =>
          hplain.part (List.mem_flatMap.mpr ⟨entry, hentry, hx⟩)
      rw [convert]
      refine (gather_lies rfl (convertEntries_placed env w entries) hbetween hinOrder).congr
        ⟨fun he => .intro (fun entry hentry => (he entry hentry).1) fun x hx => ?_,
          fun he entry hentry => ⟨he.self entry hentry, fun x hx => ?_⟩⟩
      · obtain ⟨entry, hentry, hx⟩ := List.mem_flatMap.mp hx
        exact (he entry hentry).2 x hx
      · exact he.part (List.mem_flatMap.mpr ⟨entry, hentry, hx⟩)
  | .quoteBlock line blocks, h, hmin, hmax, hplain => by
    obtain rfl : line = some w.minLine := hmin
    cases h with
    | quoteBlock hlow' hhigh hblocks =>
      refine ⟨?_, nofun⟩
      have hinside := convertAll_lies hmarker hreturn hw (by omega) none blocks hblocks hmax
        (by simp) fun x hx => hplain.part hx
      rw [convert]
      exact gathered_lies rfl trivial rfl hinside
  | .compound line kind blocks, h, hmin, hmax, hplain => by
    obtain rfl : line = some w.minLine := hmin
    cases h with
    | compound hlow' hhigh hblocks =>
      refine ⟨?_, nofun⟩
      have hinside := convertAll_lies hmarker hreturn hw (by omega) none blocks hblocks hmax
        (by simp) fun x hx => hplain.part hx
      rw [convert]
      refine hinside.congr ?_
      exact Element.forall_iff_every trivial rfl
  | .unsupported line kind, _, _, _, _ => by
    refine ⟨.congr (Q := True) (.nothing (by rw [convert])) ?_, nofun⟩
    exact Element.true_iff_every trivial rfl
  | .table .., _, _, _, hplain => hplain.self.elim
  | .cell .., _, _, _, hplain => hplain.self.elim
  | .document .., h, _, _, _ | .header _, h, _, _, _ | .bare _, h, _, _, _ => nomatch h

/-- What plain siblings become lies on their lines. -/
theorem convertAll_lies (hmarker : env.marker = .text marker) (hreturn : '\r' ∉ marker)
    {w : Window} (hw : w.IsWide) {low high : Int} (hlow : 1 ≤ low) (next : Hint) :
    (es : List Element) → env.source.SpansAll marker low high es → high ≤ w.maxLine + 1 →
      (∀ line, next = some line → high ≤ line + 1) →
        (∀ x ∈ es, x.Every (Element.IsPlain env.source marker)) →
          (env.convertAll w next es).Lies low high
            (∀ x ∈ es, x.Every (Element.TermsFirst env.source marker))
  | [], _, _, _, _ => .congr (.nothing rfl) (iff_of_true trivial nofun)
  | e :: rest, h, hmax, hnext, hplain => by
    rw [convertAll_cons]
    cases h with
    | @cons _ middle _ _ _ hfirst hothers =>
      obtain ⟨line, hline, hlow', hhigh, -⟩ := hfirst.exists_line
      have hreach := le_following e.line hothers hmax hnext
      have hmin : e.line = some (w.narrowed e.line (following next rest)).minLine := by
        rw [hline]
        rfl
      obtain ⟨hlies, -⟩ := convert_lies hmarker hreturn (hw.narrowed e.line _) hlow e hfirst hmin
        hreach (hplain e List.mem_cons_self)
      have hfirstLies : (env.convert (w.narrowed e.line (following next rest)) e).Lies low middle
          (e.Every (Element.TermsFirst env.source marker)) := by
        refine hlies.mono ?_
        rw [hline]
        exact hlow'
      have hothersLies := convertAll_lies hmarker hreturn hw (by omega) next rest hothers hmax hnext
        fun x hx => hplain x (List.mem_cons_of_mem _ hx)
      exact (hfirstLies.append (convert_placedIn env _ e) (convertAll_placed env w next rest)
        hothersLies (by omega) hothers.le).congr (List.forall_mem_cons).symm

/-- What a plain description becomes lies on its lines. -/
theorem convertOption_lies (hmarker : env.marker = .text marker) (hreturn : '\r' ∉ marker)
    {w : Window} (hw : w.IsWide) {behind middle : Int} (hlow : 1 ≤ behind - 1) (next : Hint) :
    (description : Option Element) →
      (∀ d, description = some d → env.source.Spans marker (behind - 1) middle d) →
      (∀ d, description = some d → d.line = some (behind - 1) →
        ∃ line text checked blocks, d = .item line (some text) checked blocks) →
      middle ≤ w.maxLine + 1 → (∀ line, next = some line → middle ≤ line + 1) →
        (∀ d, description = some d → d.Every (Element.IsPlain env.source marker)) →
          ∀ d, description = some d → ∃ line,
            Describes env.source marker behind middle d (env.convertOption w next description) line
  | none, _, _, _, _, _ => nofun
  | some e, hspans, htext, hmax, hnext, hplain => by
    rintro d ⟨⟩
    have hspans := hspans e rfl
    obtain ⟨line, hline, hbehind, -, hfrom⟩ := hspans.exists_line
    have hmin : e.line = some (w.narrowed e.line next).minLine := by
      rw [hline]
      rfl
    have hreach : middle ≤ (w.narrowed e.line next).maxLine + 1 := by
      cases next with
      | none => exact hmax
      | some line => exact hnext line rfl
    obtain ⟨hlies, hstarts⟩ := convert_lies hmarker hreturn (hw.narrowed e.line next) hlow e hspans
      hmin hreach (hplain e rfl)
    have hnumber : (w.narrowed e.line next).minLine = line :=
      Option.some.inj (hmin.symm.trans hline)
    rw [hnumber] at hlies hstarts
    refine ⟨line, hline, hbehind, hlies, hstarts, fun hsame => ?_⟩
    obtain ⟨number, text, checked, blocks, rfl⟩ := htext e rfl (hsame ▸ hline)
    obtain rfl : number = some line := hline
    exact ⟨text, checked, blocks, rfl⟩

/-- What plain entries become is on their lines, and in order exactly when in all of them the
description is found behind the terms. -/
theorem convertEntries_lies (hmarker : env.marker = .text marker) (hreturn : '\r' ∉ marker)
    {w : Window} (hw : w.IsWide) {low high : Int} (hlow : 1 ≤ low) :
    (entries : List (Entry Element)) → env.source.SpansEntries marker low high entries →
      high ≤ w.maxLine + 1 →
        (∀ entry ∈ entries, ∀ x ∈ entry.items,
          x.Every (Element.IsPlain env.source marker)) →
          (env.convertEntries w entries).Between low high ∧
            ((env.convertEntries w entries).LeavesInOrder ↔
              ∀ entry ∈ entries,
                (∀ term ∈ entry.terms, ∀ d ∈ entry.description,
                  env.source.IsBehind marker term d) ∧
                ∀ x ∈ entry.items, x.Every (Element.TermsFirst env.source marker))
  | [], _, _, _ => ⟨(Converted.Lies.nothing rfl).between, iff_of_true .nil nofun⟩
  | ⟨terms, description⟩ :: rest, h, hmax, hplain => by
    rw [convertEntries_cons]
    cases h with
    | @cons _ behind middle _ _ _ _ hne hterms hterm hbehind hdescription htext hothers =>
      have hmiddle := hothers.le
      have hlt : low < behind := by
        obtain ⟨e, others, rfl⟩ := List.exists_cons_of_ne_nil hne
        cases hterms with
        | cons hfirst hrest =>
          have := hfirst.lt
          have := hrest.le
          omega
      obtain ⟨hrestBetween, hrestInOrder⟩ := convertEntries_lies hmarker hreturn hw (by omega)
        rest hothers hmax fun entry hentry => hplain entry (List.mem_cons_of_mem _ hentry)
      have hitems (x : Element) (hx : x ∈ terms ∨ description = some x) :=
        hplain ⟨terms, description⟩ List.mem_cons_self x (Entry.mem_items.mpr hx)
      have hreach (line : Int) (hline : description.elim
          ((rest.flatMap Entry.items).head?.bind Element.line) Element.line = some line) :
          behind ≤ line + 1 :=
        le_behindTerms hbehind hdescription hothers hline
      have htermsLies := convertAll_lies hmarker hreturn hw hlow _ terms hterms (by omega) hreach
        fun x hx => hitems x (.inl hx)
      have htermsLeaves := terms_leaves hmarker hw _ hterm hterms (by omega) hreach
      have htermsPlaced := convertAll_placed env w (description.elim
        ((rest.flatMap Entry.items).head?.bind Element.line) Element.line) terms
      have hdescriptionPlaced : (env.convertOption w
          ((rest.flatMap Entry.items).head?.bind Element.line) description).Every
            (Node.PlacedIn env.source) :=
        convertOption_closedFor (env.keeps_placed.closedFor w.skipComments) trivial w rfl _
          description fun x _ => x.every_titledBy_true
      have hdescriptionLies := convertOption_lies hmarker hreturn hw (by omega)
        ((rest.flatMap Entry.items).head?.bind Element.line) description hdescription htext
        (by omega) (fun line hline => le_entries hothers hline) fun d hd => hitems d (.inr hd)
      obtain ⟨hbetween, hinOrder⟩ := entry_lies htermsPlaced hdescriptionPlaced htermsLeaves
        htermsLies hlt hbehind (by rintro rfl; rfl) hdescriptionLies
      refine ⟨(hbetween.mono (Int.le_refl _) hmiddle).append
        (hrestBetween.mono (by omega) (Int.le_refl _)), ?_⟩
      rw [Converted.leavesInOrder_append_iff (htermsPlaced.append hdescriptionPlaced)
        (convertEntries_placed env w rest) hbetween hrestBetween, hinOrder, hrestInOrder,
        List.forall_mem_cons]

end

end Locating

end Asciidoc
