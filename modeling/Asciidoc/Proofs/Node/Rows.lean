import Asciidoc.Proofs.Node.Cells
import Asciidoc.Proofs.Table.Rows
import Asciidoc.Proofs.Table.Single
import Mathlib.Data.List.Chain

/-!
# Cells of a row stay apart

Each cell of a row is searched behind the one before it, if that ended on the line of its bar. The
text of a cell may come earlier in its line, in a specifier or in the cell before, and may be found
there; but what is found of a cell ends no later than the cell does, so the search for the next one
never starts behind it (`convertRow_apart`). Where every line of a table starts cells, no cell goes
on behind its line, and each is found on it: the row becomes one node with a cell for each of its
cells, one behind the other, however often their texts repeat (`convert_rows_apart`).

A text that begins with the comment marker is reported from the start of its line, and a cell that
holds a document is searched from there; rows with such cells are left out.
-/

namespace Asciidoc

open Text

/-! ## Rows and their cells -/

/-- A cell that holds no document, with a text that does not look like a comment. -/
def Element.IsPlainCell (marker : Text) : Element → Prop
  | .cell _ text style _ _ => style ≠ some asciidocStyle ∧ ¬marker <+: text
  | _ => False

/-- A node shows a cell: it is one with the same text, on the line of the cell. -/
def Element.IsShownBy (n : Node Text) : Element → Prop
  | .cell line text _ _ _ => n.kind = .tableCell ∧
      (∃ leaf, n.children = [leaf] ∧ leaf.kind = .str text) ∧
        line = some n.loc.start.line ∧ n.loc.stop.line = n.loc.start.line
  | _ => False

/-- A node starts where another ends or behind that. -/
def Node.Follows (m n : Node Text) : Prop := ¬n.loc.start.before m.loc.stop

/-- A row becomes one node, with a node for each of its cells, one behind the other. -/
def Element.StaysApart (row : List Element) (nodes : List (Node Text)) : Prop :=
  ∃ n, nodes = [n] ∧ n.kind = .tableRow ∧
    List.Forall₂ (fun e cell => e.IsShownBy cell) row n.children ∧ n.children.IsChain Node.Follows

namespace Locating

variable {env : Locating} {marker : Text} {opening : Token} {body after : List Token} {w : Window}

section Row

variable (hmarker : env.marker = .text marker)
  (h : opening :: (body ++ after) <:+ env.source.tokens marker) (hskip : w.skipComments = true)
  (hmax : opening.line + body.length ≤ w.maxLine)

include hmarker h hskip hmax

/-- A cell on a line of its own is found there, behind the last one that was, and ends before what
comes after it. -/
theorem convertCell_single (hreturn : '\r' ∉ marker) {p : Table.PendingCell} {e : Element}
    {before : List (Node Text)} (he : e.IsCellOf p) (hp : p ∈ Table.cells body)
    (hsingle : p.IsSingle body) (hplain : e.IsPlainCell marker)
    (hplaced : ∀ n ∈ before, n.PlacedIn env.source) {own : List Table.Spot}
    (hown : Table.StandAt env.source [p] own)
    (hbefore : ∀ n, before.getLast? = some n → ∀ a ∈ own, a.NotBefore n.loc.stop) :
    ∃ n, (env.convertCell (cellWindow w e.line (before.getLast?.map fun n => n.loc.stop)) e).nodes
        = [n] ∧ e.IsShownBy n ∧ (∀ m, before.getLast? = some m → m.Follows n) ∧
      ∀ b : Table.Spot, (∀ a ∈ own, a.Before b) → b.NotBefore n.loc.stop := by
  have htable := Table.inTable_of_mem_cells h hp
  obtain ⟨inner, rfl⟩ := he
  have hnot : p.isAsciidoc = false := decide_eq_false hplain.1
  obtain ⟨text, hlines⟩ := hsingle.lines hnot
  have hunbroken := hsingle.isUnbroken hreturn h hnot
  obtain ⟨n, hnodes, hfind, hstart, hends⟩ := convertCell_unbroken hmarker h hskip hmax ⟨inner, rfl⟩
    hp hunbroken hplaced hown hbefore
  have hcell := convertCell_eq hmarker ⟨inner, rfl⟩ hnot w before
  rw [hfind] at hcell
  obtain ⟨_, leaf, hsame, hkind, -, hchildren, hleaf⟩ := hcell
  obtain rfl := List.singleton_inj.mp (hnodes.symm.trans hsame)
  rw [htable.lines_text_single hlines] at hfind
  obtain ⟨hstop, hcolumn⟩ := Source.find?_single (p.column_nonneg hplaced) hfind
  refine ⟨n, hnodes, ⟨hkind, ⟨leaf, hchildren, hleaf⟩, by rw [hstart], hstop⟩, fun m hm => ?_,
    hends⟩
  obtain ⟨a, rfl, ha⟩ := List.map_eq_singleton_iff.mp
    (hown.entries.trans ((List.flatMap_singleton _ p).trans hlines))
  have hline : a.entry.1 = p.line := congrArg Prod.fst ha
  rintro (hearlier | ⟨hsame, hearlier⟩)
  · rcases hbefore m hm a (List.mem_singleton_self a) with hbehind | ⟨hbehind, -⟩ <;> omega
  · -- On one line the search started where the last cell was found to end.
    have hfrom : p.column before = m.loc.stop.column := by
      rw [Table.PendingCell.column, hm]
      exact if_pos (by omega)
    have := hcolumn hplain.2
    rw [Table.PendingCell.window, hfrom] at this
    dsimp only at this
    omega

/-- The cells of a row are found one behind the other. -/
theorem convertRow_apart (hreturn : '\r' ∉ marker) (before : List (Node Text))
    {pending : List Table.PendingCell} {row : List Element}
    (hrow : List.Forall₂ Element.IsCellOf pending row)
    (hcells : ∀ p ∈ pending, p ∈ Table.cells body) (hsingle : ∀ p ∈ pending, p.IsSingle body)
    (hplain : ∀ e ∈ row, e.IsPlainCell marker) {spots : List Table.Spot}
    (hspots : Table.StandAt env.source pending spots)
    (hplaced : ∀ n ∈ before, n.PlacedIn env.source)
    (hbefore : ∀ n, before.getLast? = some n → ∀ a ∈ spots, a.NotBefore n.loc.stop) :
    let nodes := (env.convertRow w (before.getLast?.map fun n => n.loc.stop) row).nodes
    List.Forall₂ (fun e n => e.IsShownBy n) row nodes ∧
      (before.getLast?.toList ++ nodes).IsChain Node.Follows := by
  induction hrow generalizing before spots with
  | nil =>
    refine ⟨.nil, ?_⟩
    cases before.getLast? with
    | none => exact .nil
    | some n => exact .singleton n
  | @cons p e pending row he hrow ih =>
    obtain ⟨hp, hcells⟩ := List.forall_mem_cons.mp hcells
    obtain ⟨hpSingle, hsingle⟩ := List.forall_mem_cons.mp hsingle
    obtain ⟨heplain, hplain⟩ := List.forall_mem_cons.mp hplain
    obtain ⟨own, others, rfl, hown, hothers, hapart⟩ := hspots.cons
    obtain ⟨n, hn, hshown, hfollows, hends⟩ := convertCell_single hmarker h hskip hmax hreturn he hp
      hpSingle heplain hplaced hown fun m hm a ha =>
        hbefore m hm a (List.mem_append_left _ ha)
    have hnPlaced : n.PlacedIn env.source :=
      convertCell_placed env _ e n (hn ▸ List.mem_singleton_self n) n n.mem_preorder_self
    obtain ⟨hrest, hchain⟩ := ih [n] hcells hsingle hplain hothers
      (List.forall_mem_singleton.mpr hnPlaced) (by
        rintro _ ⟨⟩ b hb
        exact hends b fun a ha => hapart a ha b hb)
    have hnodes : (env.convertRow w (before.getLast?.map fun n => n.loc.stop) (e :: row)).nodes
        = n :: (env.convertRow w (some n.loc.stop) row).nodes := by
      rw [convertRow, Converted.nodes_append, hn]
      rfl
    dsimp only
    rw [hnodes]
    refine ⟨.cons hshown hrest, ?_⟩
    cases hlast : before.getLast? with
    | none => exact hchain
    | some m =>
      refine List.IsChain.cons hchain ?_
      rintro _ ⟨⟩
      exact hfollows m hlast

/-- Rows of cells on lines of their own, each row by itself. -/
theorem convertRows_apart (hreturn : '\r' ∉ marker) {pending : List (List Table.PendingCell)}
    {rows : List (List Element)} (hrows : List.Forall₂ (List.Forall₂ Element.IsCellOf) pending rows)
    (hcells : ∀ row ∈ pending, ∀ p ∈ row, p ∈ Table.cells body)
    (hsingle : ∀ p ∈ Table.cells body, p.IsSingle body) {spots : List Table.Spot}
    (hspots : Table.StandAt env.source pending.flatten spots) :
    ∃ found : List (List (Node Text)), (env.convertRows w rows).nodes = found.flatten ∧
      List.Forall₂ (fun row nodes => row ≠ [] → (∀ e ∈ row, e.IsPlainCell marker) →
        Element.StaysApart row nodes) rows found := by
  induction hrows generalizing spots with
  | nil => exact ⟨[], rfl, .nil⟩
  | @cons row cells pending rows hrow hrows ih =>
    obtain ⟨hown, hcells⟩ := List.forall_mem_cons.mp hcells
    obtain ⟨first, rest, rfl, hfirst, hrest, -⟩ := hspots.append
    obtain ⟨found, hfound, hapart⟩ := ih hcells hrest
    refine ⟨(env.gather .tableRow (env.convertRow (w.narrowed (cells.head?.bind Element.line) none)
      none cells)).nodes :: found, ?_, .cons (fun hne hplain => ?_) hapart⟩
    · rw [convertRows, Converted.nodes_append, hfound, List.flatten_cons]
    · obtain ⟨hshown, hchain⟩ := convertRow_apart
        (w := w.narrowed (cells.head?.bind Element.line) none) hmarker h hskip hmax hreturn [] hrow
        hown (fun p hp => hsingle p (hown p hp)) hplain hfirst nofun nofun
      have hinside : (env.convertRow (w.narrowed (cells.head?.bind Element.line) none) none
          cells).nodes ≠ [] := fun hnone => hne (List.forall₂_nil_right_iff.mp (hnone ▸ hshown))
      obtain ⟨n, hn, hchildren⟩ := exists_around?_eq_some env .tableRow hinside fun n hn =>
        convertRow_placed _ _ none cells n hn n n.mem_preorder_self
      have hgather : (env.gather .tableRow (env.convertRow
          (w.narrowed (cells.head?.bind Element.line) none) none cells)).nodes = [n] := by
        rw [gather, hn]
        rfl
      exact ⟨n, hgather, (kind_of_mem_gather (hgather ▸ List.mem_singleton_self n)).1,
        hchildren ▸ hshown, hchildren ▸ hchain⟩

end Row

end Locating

/-! ## Tables -/

/-- The rows of a table that is read are not empty. -/
theorem Cursor.readDocument_rows (c : Cursor) (env : Reading) (allowHeader : Bool) (source : Text) :
    (c.readDocument env allowHeader source).1.Every fun e =>
      ∀ row ∈ e.shownRows true, row ≠ [] := by
  refine c.readDocument_every env allowHeader source (fun e he _ => ?_) fun _ _ => ?_
  · cases e with
    | table => cases he
    | _ => exact nofun
  · rw [Cursor.tableAt]
    dsimp only [Cursor.closeTable]
    obtain ⟨headerRows, bodyRows, htable, hrows, -⟩ := tableOf_rows env.rules _ _ _ _
    rw [htable]
    intro row hrow
    rw [Element.shownRows, if_pos rfl, hrows] at hrow
    exact Table.ne_nil_of_mem_rowsFrom hrow

/-- The rows of a table that become nodes are among all its rows. -/
theorem Element.shownRows_subset (e : Element) (headers : Bool) :
    e.shownRows headers ⊆ e.shownRows true := by
  cases e with
  | table line headerRows bodyRows =>
    cases headers with
    | true => exact List.Subset.refl _
    | false => exact List.subset_append_right headerRows bodyRows
  | _ => exact List.Subset.refl _

/-- The cells of the rows of an element stay apart, if it is a table in which every line that is
neither blank nor a comment only starts cells: it becomes at most one node, which is a table of what
its rows become, and each row of plain cells becomes a row of nodes that are apart. -/
def Element.KeepsCellsApart (s : Source) (marker : Text) (headers : Bool) (nodes : List (Node Text))
    (e : Element) : Prop :=
  e.isTable = true → ∀ line, e.line = some line →
    (∀ t ∈ s.tableBody marker line, Table.OnlyStarts t) →
      nodes.length ≤ 1 ∧ (∀ n ∈ nodes, n.kind = .table) ∧
        ∃ found : List (List (Node Text)), nodes.flatMap Node.children = found.flatten ∧
          List.Forall₂ (fun row became => (∀ cell ∈ row, cell.IsPlainCell marker) →
            Element.StaysApart row became) (e.shownRows headers) found

theorem Locating.Becomes.keepsCellsApart {env : Locating} {marker : Text} {e : Element}
    {nodes : List (Node Text)} (hmarker : env.marker = .text marker) (hreturn : '\r' ∉ marker)
    (hbecomes : env.Becomes marker e nodes) (horigin : e.OriginIn env.source marker)
    (hrows : ∀ row ∈ e.shownRows true, row ≠ []) :
    e.KeepsCellsApart env.source marker env.includeTableHeader nodes := by
  intro htable line hline hstarts
  obtain ⟨w, opening, after, pending, h⟩ := hbecomes.exists_convertsTable horigin htable
  obtain rfl := Option.some.inj (h.line.symm.trans hline)
  obtain ⟨spots, hspots⟩ := Table.exists_standAt_of_isInfix h.lines h.isInfix
  obtain ⟨found, hfound, hapart⟩ := convertRows_apart hmarker h.lines h.skips h.room hreturn h.cells
    h.mem_cells (Table.cells_single hstarts) hspots
  refine ⟨h.length_le, fun n hn => (h.kinds n hn).1, found, h.children.trans hfound, ?_⟩
  have hne : ∀ row ∈ e.shownRows env.includeTableHeader, row ≠ [] := fun row hrow =>
    hrows row (e.shownRows_subset _ hrow)
  exact ((List.forall₂_and_left _ found).mpr ⟨hne, hapart⟩).imp fun row became hboth hplain =>
    hboth.2 hboth.1 hplain

/-- Cells of a row stay apart. Whenever a text is read without a fault, under any rules that step
over comments and any comment marker without a carriage return, it is converted, and the outermost
nodes of the tree fall into those of each element outside cells. Those of a table in which every line
that is neither blank nor a comment has a bar, and before it no more than blanks and a specifier,
hold one row for each row of cells without documents whose texts do not begin with the marker: with a
node for each cell, with its text, on its line, and none starting before the one before it ends. -/
theorem convert_rows_apart {rules : Rules} {marker t : Text} (hskip : rules.skipComments = true)
    (hmarker : rules.marker = .text marker) (hreturn : '\r' ∉ marker) {root : Element}
    (hread : (Element.ofText rules.reading rules.marker t).document = .ok root) :
    ∃ (tree : Node Text) (found : List (List (Node Text))),
      (Conversion.ofText rules t).result = .ok tree ∧ found.flatten.Perm tree.outermost ∧
        List.Forall₂ (fun e nodes => e.KeepsCellsApart (Source.ofText t) marker
          rules.includeTableHeader nodes) root.outside found := by
  obtain ⟨tree, found, hresult, hfound, hbecomes, horigin⟩ :=
    Conversion.accounts_ofText hskip hmarker hreturn hread
  have hevery : root.Every fun e => ∀ row ∈ e.shownRows true, row ≠ [] := by
    rw [← Element.ofText_eq_ok hread]
    exact Cursor.readDocument_rows _ _ true t
  have hrows : ∀ e ∈ root.outside, e.OriginIn (Source.ofText t) marker ∧
      ∀ row ∈ e.shownRows true, row ≠ [] := fun e he =>
    ⟨horigin e he, hevery.of_mem_preorder (fun _ => nofun) (root.outside_subset_preorder he)⟩
  have hboth := (List.forall₂_and_left root.outside found).mpr ⟨hrows, hbecomes⟩
  exact ⟨tree, found, hresult, hfound, hboth.imp fun e nodes h =>
    h.2.keepsCellsApart hmarker hreturn h.1.1 h.1.2⟩

/-- A text that comes again in the next cell and in a specifier, an empty cell, and a row whose cells
are on two lines. -/
theorem convert_rows_apart_repeated :
    let t := "|===\n|2 2+|2 2|\n|2\n3+|2\n|===".toList
    let rows : List (List Element) := [[.cell (some 2) "2".toList none none 1,
        .cell (some 2) "2 2".toList none none 2, .cell (some 2) [] none none 1],
      [.cell (some 3) "2".toList none none 1, .cell (some 4) "2".toList none none 3]]
    (Element.ofText {} (.text Marker.slashes) t).document
        = .ok (.document (some 1) none [.table (some 1) [] rows] [] t) ∧
      ∃ (tree n : Node Text), (Conversion.ofText {} t).result = .ok tree ∧ n ∈ tree.outermost ∧
        n.kind = .table ∧ List.Forall₂ (fun row became => Element.StaysApart row [became]) rows
          n.children := by
  intro t rows
  have hread : (Element.ofText (Rules.reading {}) (Rules.marker {}) t).document
      = .ok (.document (some 1) none [.table (some 1) [] rows] [] t) := by
    with_unfolding_all rfl
  obtain ⟨tree, found, hresult, hfound, hapart⟩ := convert_rows_apart rfl rfl (by decide) hread
  refine ⟨hread, tree, ?_⟩
  have houtside : (Element.document (some 1) none [.table (some 1) [] rows] [] t).outside
      = [.document (some 1) none [.table (some 1) [] rows] [] t, .table (some 1) [] rows] := by
    rw [Element.outside_of_not_isTable rfl, Element.parts, List.flatMap_singleton,
      Element.outside_of_isTable rfl]
    rfl
  rw [houtside] at hapart
  obtain ⟨_, _, -, hrest, rfl⟩ := List.forall₂_cons_left_iff.mp hapart
  obtain ⟨nodes, _, htable, -, rfl⟩ := List.forall₂_cons_left_iff.mp hrest
  have hstarts : ∀ u ∈ (Source.ofText t).tableBody Marker.slashes 1, Table.OnlyStarts u := by
    have hbody : (Source.ofText t).tableBody Marker.slashes 1
        = [(2, "|2 2+|2 2|".toList), (3, "|2".toList), (4, "3+|2".toList)].map
          (Token.ofEntry Marker.slashes) := by
      with_unfolding_all rfl
    rw [hbody]
    simp only [List.map_cons, List.map_nil, List.forall_mem_cons]
    exact ⟨.inr (.inr ⟨_, _, _, rfl, rfl⟩), .inr (.inr ⟨_, _, _, rfl, rfl⟩),
      .inr (.inr ⟨_, _, _, rfl, rfl⟩), nofun⟩
  obtain ⟨hlength, hkinds, became, hchildren, hrows⟩ := htable rfl 1 rfl hstarts
  obtain ⟨_, _, hfirst, hmore, rfl⟩ := List.forall₂_cons_left_iff.mp hrows
  obtain ⟨_, _, hsecond, hnone, rfl⟩ := List.forall₂_cons_left_iff.mp hmore
  obtain rfl := List.forall₂_nil_left_iff.mp hnone
  have hfirst := hfirst (by simp [Element.IsPlainCell, Marker.slashes])
  have hsecond := hsecond (by simp [Element.IsPlainCell, Marker.slashes])
  obtain ⟨first, rfl, -⟩ := id hfirst
  obtain ⟨second, rfl, -⟩ := id hsecond
  have hne : nodes ≠ [] := by
    rintro rfl
    cases hchildren
  obtain ⟨n, rfl⟩ := List.length_eq_one_iff.mp
    (Nat.le_antisymm hlength (List.length_pos_iff.mpr hne))
  refine ⟨n, hresult, hfound.subset (by simp), hkinds n (List.mem_singleton_self n), ?_⟩
  rw [List.flatMap_singleton] at hchildren
  rw [hchildren]
  exact .cons hfirst (.cons hsecond .nil)

end Asciidoc
