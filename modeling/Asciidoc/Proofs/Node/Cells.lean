import Asciidoc.Proofs.Node.Outermost
import Asciidoc.Proofs.Table.InPlace

/-!
# Where cells are found

The cells of a row are searched one after the other, each from the line of its bar on and behind the
last that was found, if that ended on this line. A cell that holds no document becomes one node with
its text, on the line that the text was gathered from, exactly if its text stands there as the
search expects it; and it does if neither the cell nor those before it in its row have gaps
(`convert_cells_iff`). Tables are outside cells, so this is said of all cells of a document.
-/

namespace Asciidoc

open Text

namespace Table

/-! ## Cells among those before them -/

namespace PendingCell

/-- The column from which a cell is searched, given the nodes of the cells before it in its row. -/
def column (p : PendingCell) (before : List (Node Text)) : Int :=
  match before.getLast? with
  | some n => if n.loc.stop.line = p.line then n.loc.stop.column else 0
  | none => 0

/-- The window through which a cell is searched, given that of its row. -/
def window (p : PendingCell) (w : Window) (before : List (Node Text)) : Window :=
  ⟨p.line, w.maxLine, w.skipComments, p.column before⟩

/-- Nodes are a single cell with a text, on the line that the text was gathered from. -/
def StandsAs (p : PendingCell) (nodes : List (Node Text)) : Prop :=
  ∃ n leaf, nodes = [n] ∧ n.kind = .tableCell ∧ n.children = [leaf] ∧ leaf.kind = .str p.text ∧
    p.content.head?.map Prod.fst = some n.loc.start.line

/-- What is said of a cell and the nodes it becomes, given the cells before it in its row and the
nodes that these became. -/
structure Located (p : PendingCell) (s : Source) (marker : Text) (earlier : List PendingCell)
    (before nodes : List (Node Text)) : Prop where
  /-- There is no more than one node. -/
  length_le : nodes.length ≤ 1
  /-- It is a cell with the text. -/
  text : ∀ n ∈ nodes, n.kind = .tableCell ∧ ∃ leaf, n.children = [leaf] ∧ leaf.kind = .str p.text
  /-- It is in place exactly if the text stands there as the search expects it. -/
  standsAs_iff : p.StandsAs nodes ↔ p.IsOffered s marker (p.column before)
  /-- It is in place if there are no gaps. -/
  standsAs : (∀ q ∈ earlier, q.IsUnbroken s marker) → p.IsUnbroken s marker → p.StandsAs nodes

end PendingCell

/-- What is said of the cells of a row and the nodes they become, one after the other: of those that
hold no document and have a text. -/
inductive LocatesRow (s : Source) (marker : Text) : List PendingCell → List (Node Text) →
    List PendingCell → List (List (Node Text)) → Prop where
  | nil {earlier : List PendingCell} {before : List (Node Text)} :
    LocatesRow s marker earlier before [] []
  | cons {earlier rest : List PendingCell} {before nodes : List (Node Text)} {p : PendingCell}
      {others : List (List (Node Text))}
      (hcell : p.isAsciidoc = false → p.text ≠ [] → p.Located s marker earlier before nodes)
      (hothers : LocatesRow s marker (earlier ++ [p]) (before ++ nodes) rest others) :
    LocatesRow s marker earlier before (p :: rest) (nodes :: others)

/-- What is said of the rows of a table that are shown, of the number of cells before them that are
not, and of the nodes the table becomes, with the cells that were gathered for each row and what each
of them became. -/
structure Locates (s : Source) (marker : Text) (line : Hint) (hidden : Nat)
    (rows : List (List Element)) (nodes : List (Node Text)) (pending : List (List PendingCell))
    (found : List (List (List (Node Text)))) : Prop where
  /-- The cells were gathered one after the other from the lines between the delimiters. -/
  gathered : ∃ n, line = some n ∧
    pending.flatten <+: (Table.cells (s.tableBody marker n)).drop hidden
  cells : List.Forall₂ (List.Forall₂ Element.IsCellOf) pending rows
  /-- The nodes are tables of rows. -/
  kinds : ∀ n ∈ nodes, n.kind = .table ∧ ∀ row ∈ n.children, row.kind = .tableRow
  /-- A row holds what its cells became, and is left out if none became anything. -/
  children : (nodes.flatMap Node.children).map Node.children
    = (found.map List.flatten).filter (!·.isEmpty)
  located : List.Forall₂ (LocatesRow s marker [] []) pending found

theorem PendingCell.StandsAs.line {p : PendingCell} {nodes : List (Node Text)} (h : p.StandsAs nodes)
    {n : Node Text} (hn : n ∈ nodes) : p.content.head?.map Prod.fst = some n.loc.start.line := by
  obtain ⟨m, -, rfl, -, -, -, hline⟩ := h
  obtain rfl := List.mem_singleton.mp hn
  exact hline

/-- What a cell becomes is in place if any of it is on the line of its text. -/
theorem PendingCell.Located.standsAs_of_mem {s : Source} {marker : Text} {p : PendingCell}
    {earlier : List PendingCell} {before nodes : List (Node Text)}
    (h : p.Located s marker earlier before nodes) {n : Node Text} (hn : n ∈ nodes)
    (hline : p.content.head?.map Prod.fst = some n.loc.start.line) : p.StandsAs nodes := by
  obtain ⟨hkind, leaf, hchildren, hleaf⟩ := h.text n hn
  have hlength := h.length_le
  obtain ⟨m, rfl⟩ := List.length_eq_one_iff.mp
    (Nat.le_antisymm hlength (List.length_pos_of_mem hn))
  obtain rfl := List.mem_singleton.mp hn
  exact ⟨n, leaf, rfl, hkind, hchildren, hleaf, hline⟩

/-- A row of a single cell. -/
theorem LocatesRow.single {s : Source} {marker : Text} {p : PendingCell}
    {found : List (List (Node Text))} (h : LocatesRow s marker [] [] [p] found)
    (hplain : p.isAsciidoc = false) (hne : p.text ≠ []) :
    ∃ nodes, found = [nodes] ∧ p.Located s marker [] [] nodes := by
  cases h with
  | cons hcell hothers =>
    cases hothers
    exact ⟨_, rfl, hcell hplain hne⟩

/-- A spot does not begin before a position. -/
def Spot.NotBefore (a : Spot) (q : Position) : Prop :=
  q.line < a.entry.1 ∨ q.line = a.entry.1 ∧ q.column ≤ a.column

namespace PendingCell

variable {p : PendingCell} {before : List (Node Text)}

theorem column_nonneg {s : Source} (p : PendingCell) (h : ∀ n ∈ before, n.PlacedIn s) :
    0 ≤ p.column before := by
  unfold column
  split
  next n hn =>
    split
    · exact (h n (List.mem_of_getLast? hn)).hasLocation.2.column_nonneg
    · exact Int.le_refl 0
  next => exact Int.le_refl 0

/-- A cell is searched from where it begins or before, if the last node does not end behind that. -/
theorem column_le {a : Spot} (hline : a.entry.1 = p.line)
    (h : ∀ n, before.getLast? = some n → a.NotBefore n.loc.stop) : p.column before ≤ a.column := by
  unfold column
  split
  next n hn =>
    split
    next hsame =>
      rcases h n hn with hlt | ⟨-, hle⟩
      · omega
      · exact hle
    next => omega
  next => omega

end PendingCell

end Table

namespace Locating

variable {env : Locating} {marker : Text} {opening : Token} {body after : List Token} {w : Window}

/-- Around nodes, if there are any, there is one container. -/
theorem gather_children (kind : Node.Kind Text) {inside : Converted}
    (hplaced : inside.Every (Node.PlacedIn env.source)) :
    (env.gather kind inside).nodes.map Node.children = [inside.nodes].filter (!·.isEmpty) := by
  by_cases hne : inside.nodes = []
  · rw [gather, hne]
    rfl
  · obtain ⟨n, hn, hchildren⟩ := exists_around?_eq_some env kind hne
      fun n hn => hplaced n hn n n.mem_preorder_self
    rw [gather, hn, List.filter_cons_of_pos (by simpa using hne), ← hchildren]
    rfl

theorem length_gather_le (kind : Node.Kind Text) (inside : Converted) :
    (env.gather kind inside).nodes.length ≤ 1 := by
  rw [gather]
  cases env.around? kind inside.nodes <;> simp

theorem convertCell_placed (env : Locating) (w : Window) (e : Element) :
    (env.convertCell w e).Every (Node.PlacedIn env.source) :=
  convertCell_closedFor (env.keeps_placed.closedFor _) trivial w rfl e e.every_titledBy_true

theorem convertRow_placed (env : Locating) (w : Window) (last : Option Position)
    (row : List Element) : (env.convertRow w last row).Every (Node.PlacedIn env.source) :=
  convertRow_closedFor (env.keeps_placed.closedFor _) trivial w rfl last row
    fun x _ => x.every_titledBy_true

/-- The window of a cell. -/
theorem cellWindow_eq (w : Window) (p : Table.PendingCell) (before : List (Node Text)) :
    cellWindow w (some p.line) (before.getLast?.map fun n => n.loc.stop) = p.window w before := by
  unfold cellWindow Table.PendingCell.window Table.PendingCell.column
  cases before.getLast? <;> rfl

/-- A cell that holds no document becomes a node where its text is found, and nothing if it is
not. -/
theorem convertCell_eq (hmarker : env.marker = .text marker) {p : Table.PendingCell} {e : Element}
    (he : e.IsCellOf p) (hplain : p.isAsciidoc = false) (w : Window) (before : List (Node Text)) :
    let nodes :=
      (env.convertCell (cellWindow w e.line (before.getLast?.map fun n => n.loc.stop)) e).nodes
    match env.source.find? marker p.text.lines (p.window w before) with
    | none => nodes = []
    | some l => ∃ n leaf, nodes = [n] ∧ n.kind = .tableCell ∧ n.loc = l ∧ n.children = [leaf] ∧
        leaf.kind = .str p.text := by
  have hstyle : p.style ≠ some Element.asciidocStyle := of_decide_eq_false hplain
  have hfind := find_eq hmarker "table_cell".toList (some p.line) p.text.lines (p.window w before)
  obtain ⟨inner, rfl⟩ := he
  rw [Element.line, cellWindow_eq, convertCell, if_neg hstyle]
  cases hfound : env.source.find? marker p.text.lines (p.window w before) with
  | none =>
    rw [hfound] at hfind
    dsimp only
    rw [textNode, hfind]
  | some l =>
    rw [hfound] at hfind
    obtain ⟨n, leaf, hnodes, hkind, hloc, hchildren, hleaf, -⟩ :=
      exists_textNode_eq hfind .tableCell p.text
    exact ⟨n, leaf, hnodes, hkind, hloc, hchildren, hleaf⟩

/-- It is in place exactly if it is found on the line that its text was gathered from. -/
theorem convertCell_standsAs_iff (hmarker : env.marker = .text marker) {p : Table.PendingCell}
    {e : Element} (he : e.IsCellOf p) (hplain : p.isAsciidoc = false) (w : Window)
    (before : List (Node Text)) :
    p.StandsAs
        (env.convertCell (cellWindow w e.line (before.getLast?.map fun n => n.loc.stop)) e).nodes ↔
      ∃ l, env.source.find? marker p.text.lines (p.window w before) = some l ∧
        p.content.head?.map Prod.fst = some l.start.line := by
  have hcell := convertCell_eq hmarker he hplain w before
  cases hfound : env.source.find? marker p.text.lines (p.window w before) with
  | none =>
    rw [hfound] at hcell
    constructor
    · rintro ⟨_, _, hnodes, -⟩
      cases hcell.symm.trans hnodes
    · rintro ⟨_, hnone, -⟩
      cases hnone
  | some l =>
    rw [hfound] at hcell
    obtain ⟨n, leaf, hnodes, hkind, rfl, hchildren, hleaf⟩ := hcell
    constructor
    · rintro ⟨m, -, hm, -, -, -, hline⟩
      obtain rfl := List.singleton_inj.mp (hnodes.symm.trans hm)
      exact ⟨_, rfl, hline⟩
    · rintro ⟨_, hsame, hline⟩
      obtain rfl := Option.some.inj hsame
      exact ⟨n, leaf, hnodes, hkind, hchildren, hleaf, hline⟩

section Row

variable (hmarker : env.marker = .text marker)
  (h : opening :: (body ++ after) <:+ env.source.tokens marker) (hskip : w.skipComments = true)
  (hmax : opening.line + body.length ≤ w.maxLine)

include hmarker h hskip hmax

/-- A cell with a text among those before it in its row. -/
theorem convertCell_located (hreturn : '\r' ∉ marker) {p : Table.PendingCell} {e : Element}
    {earlier : List Table.PendingCell} {before : List (Node Text)} (he : e.IsCellOf p)
    (hp : p ∈ Table.cells body) (hplain : p.isAsciidoc = false) (hne : p.text ≠ [])
    (hplaced : ∀ n ∈ before, n.PlacedIn env.source)
    (hstands : (∀ q ∈ earlier, q.IsUnbroken env.source marker) → p.IsUnbroken env.source marker →
      ∃ l, env.source.find? marker p.text.lines (p.window w before) = some l ∧
        l.start.line = p.line) :
    p.Located env.source marker earlier before
      (env.convertCell (cellWindow w e.line (before.getLast?.map fun n => n.loc.stop)) e).nodes := by
  have htable := Table.inTable_of_mem_cells h hp
  have hcontent : p.content ≠ [] := fun hnil => hne (p.text_eq_nil_iff.mpr hnil)
  have hcell := convertCell_eq hmarker he hplain w before
  have hstandsAs := convertCell_standsAs_iff hmarker he hplain w before
  refine ⟨?_, ?_, hstandsAs.trans ?_, fun hearlier hunbroken => hstandsAs.mpr ?_⟩
  · split at hcell
    · simp [hcell]
    · obtain ⟨n, _, hnodes, -⟩ := hcell
      simp [hnodes]
  · split at hcell
    · simp [hcell]
    · obtain ⟨n, leaf, hnodes, hkind, -, hchildren, hleaf⟩ := hcell
      rw [hnodes]
      exact List.forall_mem_singleton.mpr ⟨hkind, leaf, hchildren, hleaf⟩
  · exact htable.find?_iff (w := p.window w before) hreturn h hplain hcontent hskip
      (p.column_nonneg hplaced) rfl hmax
  · obtain ⟨l, hl, hline⟩ := hstands hearlier hunbroken
    obtain ⟨text, rest, hlines, -⟩ := htable.gathered.bar
    refine ⟨l, hl, ?_⟩
    rw [hunbroken.whole.resolve_right hcontent, hlines, hline]
    rfl

/-- A cell without gaps becomes a node on the line of its bar, if the last node does not end behind
where it begins; and this node does not end behind what comes after the cell. -/
theorem convertCell_unbroken {p : Table.PendingCell} {e : Element} {before : List (Node Text)}
    (he : e.IsCellOf p) (hp : p ∈ Table.cells body) (hunbroken : p.IsUnbroken env.source marker)
    (hplaced : ∀ n ∈ before, n.PlacedIn env.source) {own : List Table.Spot}
    (hown : Table.StandAt env.source [p] own)
    (hbefore : ∀ n, before.getLast? = some n → ∀ a ∈ own, a.NotBefore n.loc.stop) :
    ∃ n, (env.convertCell (cellWindow w e.line (before.getLast?.map fun n => n.loc.stop)) e).nodes
        = [n] ∧ env.source.find? marker p.text.lines (p.window w before) = some n.loc ∧
      n.loc.start.line = p.line ∧
        ∀ b : Table.Spot, (∀ a ∈ own, a.Before b) → b.NotBefore n.loc.stop := by
  have htable := Table.inTable_of_mem_cells h hp
  obtain ⟨text, more, hlines, -⟩ := htable.gathered.bar
  obtain ⟨first, rest, rfl, hfirst, -⟩ := List.map_eq_cons_iff.mp
    (hown.entries.trans ((List.flatMap_singleton _ p).trans hlines))
  obtain ⟨l, hl, hline, a, ha, hstop, hcolumn⟩ := htable.find?_unbroken (w := p.window w before) h
    hunbroken hown hskip (p.column_nonneg hplaced) rfl
    (p.column_le (by rw [hfirst]) fun n hn => hbefore n hn first List.mem_cons_self) hmax
  have hcell := convertCell_eq hmarker he hunbroken.plain w before
  rw [hl] at hcell
  obtain ⟨n, -, hnodes, -, rfl, -⟩ := hcell
  refine ⟨n, hnodes, hl, hline, fun b hb => ?_⟩
  rcases hb a ha with hlt | ⟨heq, hle⟩
  · exact .inl (by omega)
  · exact .inr ⟨by omega, by omega⟩

/-- The cells of a row, one after the other. -/
theorem convertRow_located (hreturn : '\r' ∉ marker) (earlier : List Table.PendingCell)
    (before : List (Node Text)) {pending : List Table.PendingCell} {row : List Element}
    (hrow : List.Forall₂ Element.IsCellOf pending row)
    (hcells : ∀ p ∈ pending, p ∈ Table.cells body) {spots : List Table.Spot}
    (hspots : Table.StandAt env.source pending spots)
    (hplaced : ∀ n ∈ before, n.PlacedIn env.source)
    (hbefore : (∀ q ∈ earlier, q.IsUnbroken env.source marker) →
      ∀ n, before.getLast? = some n → ∀ a ∈ spots, a.NotBefore n.loc.stop) :
    ∃ found : List (List (Node Text)),
      found.flatten = (env.convertRow w (before.getLast?.map fun n => n.loc.stop) row).nodes ∧
        Table.LocatesRow env.source marker earlier before pending found := by
  induction hrow generalizing earlier before spots with
  | nil => exact ⟨[], rfl, .nil⟩
  | @cons p e pending row he hrow ih =>
    obtain ⟨hp, hcells⟩ := List.forall_mem_cons.mp hcells
    obtain ⟨own, others, rfl, hown, hothers, hapart⟩ := hspots.cons
    have hunbroken (hearlier : ∀ q ∈ earlier, q.IsUnbroken env.source marker)
        (hp' : p.IsUnbroken env.source marker) :=
      convertCell_unbroken hmarker h hskip hmax he hp hp' hplaced hown
        fun n hn a ha => hbefore hearlier n hn a (List.mem_append_left _ ha)
    generalize hnodes : (env.convertCell
      (cellWindow w e.line (before.getLast?.map fun n => n.loc.stop)) e).nodes = nodes at hunbroken
    have hcellPlaced : ∀ n ∈ nodes, n.PlacedIn env.source := by
      intro n hn
      rw [← hnodes] at hn
      exact convertCell_placed _ _ e n hn n n.mem_preorder_self
    have hbehind : (∀ q ∈ earlier ++ [p], q.IsUnbroken env.source marker) →
        ∀ n, (before ++ nodes).getLast? = some n → ∀ a ∈ others, a.NotBefore n.loc.stop := by
      intro hall n hn b hb
      obtain ⟨hearlier, hlast⟩ := List.forall_mem_append.mp hall
      obtain ⟨m, rfl, -, -, hends⟩ := hunbroken hearlier (hlast p (List.mem_singleton_self p))
      rw [List.getLast?_concat] at hn
      obtain rfl := Option.some.inj hn
      exact hends b fun a ha => hapart a ha b hb
    obtain ⟨found, hfound, hlocates⟩ := ih (earlier ++ [p]) (before ++ nodes) hcells hothers
      (List.forall_mem_append.mpr ⟨hplaced, hcellPlaced⟩) hbehind
    refine ⟨nodes :: found, ?_, .cons (fun hplain hne => ?_) hlocates⟩
    · rw [convertRow, List.flatten_cons, hfound, Converted.nodes_append, hnodes,
        List.getLast?_append]
      cases nodes.getLast? <;> rfl
    · rw [← hnodes]
      refine convertCell_located hmarker h hskip hmax hreturn he hp hplain hne hplaced
        fun hearlier hp' => ?_
      obtain ⟨n, -, hl, hline, -⟩ := hunbroken hearlier hp'
      exact ⟨n.loc, hl, hline⟩

/-- The cells of rows, each row by itself. -/
theorem convertRows_located (hreturn : '\r' ∉ marker) {pending : List (List Table.PendingCell)}
    {rows : List (List Element)} (hrows : List.Forall₂ (List.Forall₂ Element.IsCellOf) pending rows)
    (hcells : ∀ row ∈ pending, ∀ p ∈ row, p ∈ Table.cells body) {spots : List Table.Spot}
    (hspots : Table.StandAt env.source pending.flatten spots) :
    ∃ found : List (List (List (Node Text))),
      (env.convertRows w rows).nodes.map Node.children
          = (found.map List.flatten).filter (!·.isEmpty) ∧
        List.Forall₂ (Table.LocatesRow env.source marker [] []) pending found := by
  induction hrows generalizing spots with
  | nil => exact ⟨[], rfl, .nil⟩
  | @cons row cells pending rows hrow hrows ih =>
    obtain ⟨hown, hcells⟩ := List.forall_mem_cons.mp hcells
    obtain ⟨first, rest, rfl, hfirst, hrest, -⟩ := hspots.append
    obtain ⟨found, hfound, hlocates⟩ :=
      convertRow_located (w := w.narrowed (cells.head?.bind Element.line) none) hmarker h hskip hmax
        hreturn [] [] hrow hown hfirst nofun nofun
    obtain ⟨others, hothers, hall⟩ := ih hcells hrest
    refine ⟨found :: others, ?_, .cons hlocates hall⟩
    rw [convertRows, Converted.nodes_append, List.map_append, hothers,
      gather_children .tableRow (convertRow_placed _ _ none cells), List.map_cons, hfound]
    exact (List.filter_append [_] _).symm

end Row

end Locating

/-! ## Tables -/

/-- The rows of a table that become nodes. -/
def Element.shownRows (headers : Bool) : Element → List (List Element)
  | .table _ headerRows bodyRows => if headers then headerRows ++ bodyRows else bodyRows
  | _ => []

/-- How many cells of a table are in rows that become nothing. -/
def Element.hiddenCells (headers : Bool) : Element → Nat
  | .table _ headerRows _ => if headers then 0 else headerRows.flatten.length
  | _ => 0

/-- The cells of an element that is a table are located among the nodes it becomes. -/
def Element.LocatesCells (s : Source) (marker : Text) (headers : Bool) (nodes : List (Node Text))
    (e : Element) : Prop :=
  e.isTable = true → ∃ pending found, Table.Locates s marker e.line (e.hiddenCells headers)
    (e.shownRows headers) nodes pending found

/-- What is related to rows one after the other falls into rows. -/
theorem exists_groups {α β : Type} {R : α → β → Prop} {xs : List α} {rows : List (List β)}
    (h : List.Forall₂ R xs rows.flatten) :
    ∃ groups : List (List α), groups.flatten = xs ∧ List.Forall₂ (List.Forall₂ R) groups rows := by
  induction rows generalizing xs with
  | nil =>
    obtain rfl := List.forall₂_nil_right_iff.mp h
    exact ⟨[], rfl, .nil⟩
  | cons row rest ih =>
    obtain ⟨groups, hgroups, hrest⟩ := ih (List.forall₂_drop_append xs row rest.flatten h)
    refine ⟨xs.take row.length :: groups, ?_, .cons (List.forall₂_take_append xs row _ h) hrest⟩
    rw [List.flatten_cons, hgroups, List.take_append_drop]

/-- The cells of the rows that become nodes are those behind the hidden ones, row by row. -/
theorem Element.exists_shownRows {α : Type} {R : α → Element → Prop} {xs : List α} (line : Hint)
    {headerRows bodyRows : List (List Element)} {left : List Element} (headers : Bool)
    (h : List.Forall₂ R xs ((headerRows.flatten ++ bodyRows.flatten) ++ left)) :
    let e : Element := .table line headerRows bodyRows
    ∃ groups : List (List α), groups.flatten <+: xs.drop (e.hiddenCells headers) ∧
      List.Forall₂ (List.Forall₂ R) groups (e.shownRows headers) := by
  cases headers with
  | true =>
    rw [← List.flatten_append] at h
    obtain ⟨groups, hgroups, hrows⟩ := exists_groups (List.forall₂_take_append xs _ left h)
    exact ⟨groups, hgroups ▸ List.take_prefix _ _, hrows⟩
  | false =>
    rw [List.append_assoc] at h
    have hbehind := List.forall₂_drop_append xs headerRows.flatten _ h
    obtain ⟨groups, hgroups, hrows⟩ := exists_groups (List.forall₂_take_append _ _ left hbehind)
    exact ⟨groups, hgroups ▸ List.take_prefix _ _, hrows⟩

namespace Locating

variable {env : Locating} {marker : Text}

theorem convertRows_append (w : Window) (rows others : List (List Element)) :
    (env.convertRows w (rows ++ others)).nodes
      = (env.convertRows w rows).nodes ++ (env.convertRows w others).nodes := by
  induction rows with
  | nil => rfl
  | cons row rest ih =>
    rw [List.cons_append, convertRows, convertRows, Converted.nodes_append, Converted.nodes_append,
      ih, List.append_assoc]

theorem kind_of_mem_convertRows {w : Window} {rows : List (List Element)} {n : Node Text}
    (h : n ∈ (env.convertRows w rows).nodes) : n.kind = .tableRow := by
  induction rows with
  | nil => cases h
  | cons row rest ih =>
    rw [convertRows, Converted.nodes_append] at h
    rcases List.mem_append.mp h with h | h
    · exact (kind_of_mem_gather h).1
    · exact ih h

/-- A table is around its rows that are shown. -/
theorem own_table (env : Locating) (w : Window) (line : Hint)
    (headerRows bodyRows : List (List Element)) :
    let e : Element := .table line headerRows bodyRows
    (∀ n ∈ env.own w e, n.kind = .table ∧ ∀ row ∈ n.children, row.kind = .tableRow) ∧
      (env.own w e).flatMap Node.children
        = (env.convertRows w (e.shownRows env.includeTableHeader)).nodes := by
  intro e
  have hown : ∃ inside : Converted, env.own w e = (env.gather .table inside).nodes ∧
      inside.nodes = (env.convertRows w (e.shownRows env.includeTableHeader)).nodes ∧
        inside.Every (Node.PlacedIn env.source) := by
    have hplaced (rows : List (List Element)) :
        (env.convertRows w rows).Every (Node.PlacedIn env.source) :=
      convertRows_closedFor (env.keeps_placed.closedFor _) trivial w rfl rows
        fun _ _ x _ => x.every_titledBy_true
    rw [own, convert, Element.shownRows]
    cases env.includeTableHeader with
    | false => exact ⟨_, rfl, rfl, hplaced bodyRows⟩
    | true =>
      refine ⟨_, rfl, ?_, (hplaced headerRows).append (hplaced bodyRows)⟩
      exact (convertRows_append w headerRows bodyRows).symm
  obtain ⟨inside, hown, hinside, hplaced⟩ := hown
  rw [hown, ← hinside]
  refine ⟨fun n hn => ?_, ?_⟩
  · obtain ⟨hkind, hchildren⟩ := kind_of_mem_gather hn
    refine ⟨hkind, fun row hrow => ?_⟩
    rw [hchildren, hinside] at hrow
    exact kind_of_mem_convertRows hrow
  · rw [List.flatMap_def, gather_children .table hplaced, List.flatten_filter_not_isEmpty,
      List.flatten_singleton]

/-- What is known of a table that is converted through a window: it stands between other lines of
the text, the rows that become nodes hold cells that were gathered from its lines one after the
other, and its nodes are around what these rows become. -/
structure ConvertsTable (env : Locating) (marker : Text) (e : Element) (nodes : List (Node Text))
    (w : Window) (opening : Token) (after : List Token)
    (pending : List (List Table.PendingCell)) : Prop where
  line : e.line = some opening.line
  lines : opening :: (env.source.tableBody marker opening.line ++ after)
    <:+ env.source.tokens marker
  skips : w.skipComments = true
  room : opening.line + (env.source.tableBody marker opening.line).length ≤ w.maxLine
  gathered : pending.flatten
    <+: (Table.cells (env.source.tableBody marker opening.line)).drop
      (e.hiddenCells env.includeTableHeader)
  cells : List.Forall₂ (List.Forall₂ Element.IsCellOf) pending
    (e.shownRows env.includeTableHeader)
  length_le : nodes.length ≤ 1
  kinds : ∀ n ∈ nodes, n.kind = .table ∧ ∀ row ∈ n.children, row.kind = .tableRow
  children : nodes.flatMap Node.children
    = (env.convertRows w (e.shownRows env.includeTableHeader)).nodes

/-- A table that becomes nodes is converted so. -/
theorem Becomes.exists_convertsTable {e : Element} {nodes : List (Node Text)}
    (hbecomes : env.Becomes marker e nodes) (horigin : e.OriginIn env.source marker)
    (htable : e.isTable = true) :
    ∃ w opening after pending, env.ConvertsTable marker e nodes w opening after pending := by
  cases hbecomes with
  | document => cases htable
  | title => cases htable
  | @block _ w low high hw hline hspans hmax =>
    cases hspans with
    | @table _ _ _ headerRows bodyRows _ hhigh =>
      obtain ⟨t, left, hsame, htoken, hcells⟩ := horigin
      obtain rfl := Option.some.inj hsame
      obtain ⟨rest, ht⟩ := Source.suffix_of_token? htoken
      obtain ⟨closing, hrest⟩ := Reading.tableSpan_eq t.content rest
      have hbody : env.source.tableBody marker t.line = (tableSpan t.content rest).1 := by
        rw [Source.tableBody, Source.tokensFrom_of_suffix ht]
      rw [← hbody] at hrest
      rw [hrest] at ht
      obtain ⟨hkinds, hchildren⟩ := own_table env w (some t.line) headerRows bodyRows
      obtain ⟨pending, hpending, hrows⟩ :=
        Element.exists_shownRows (some t.line) env.includeTableHeader hcells
      have hmin : t.line = w.minLine := Option.some.inj hline
      exact ⟨w, t, _, pending, rfl, ht, hw.skips, by omega, hpending, hrows,
        length_gather_le _ _, hkinds, hchildren⟩
    | _ => cases htable

variable {e : Element} {nodes : List (Node Text)} {w : Window} {opening : Token}
  {after : List Token} {pending : List (List Table.PendingCell)}

/-- The cells of the rows follow one another among those of the table. -/
theorem ConvertsTable.isInfix (h : env.ConvertsTable marker e nodes w opening after pending) :
    pending.flatten <:+: Table.cells (env.source.tableBody marker opening.line) :=
  h.gathered.isInfix.trans (List.drop_suffix _ _).isInfix

theorem ConvertsTable.mem_cells (h : env.ConvertsTable marker e nodes w opening after pending) :
    ∀ row ∈ pending, ∀ p ∈ row,
      p ∈ Table.cells (env.source.tableBody marker opening.line) := fun _ hrow _ hp =>
  h.isInfix.subset (List.mem_flatten_of_mem hrow hp)

/-- The cells of a table are located among the nodes it becomes. -/
theorem Becomes.locatesCells (hmarker : env.marker = .text marker) (hreturn : '\r' ∉ marker)
    (hbecomes : env.Becomes marker e nodes) (horigin : e.OriginIn env.source marker) :
    e.LocatesCells env.source marker env.includeTableHeader nodes := by
  intro htable
  obtain ⟨w, t, _, pending, h⟩ := hbecomes.exists_convertsTable horigin htable
  obtain ⟨spots, hspots⟩ := Table.exists_standAt_of_isInfix h.lines h.isInfix
  obtain ⟨found, hfound, hlocates⟩ := convertRows_located hmarker h.lines h.skips h.room hreturn
    h.cells h.mem_cells hspots
  exact ⟨pending, found, ⟨t.line, h.line, h.gathered⟩, h.cells, h.kinds, by rw [h.children, hfound],
    hlocates⟩

end Locating

/-- Cells of tables stand where they were gathered from exactly if their text stands there as the
search expects it. Whenever a text is read without a fault, under any rules that step over comments
and any comment marker without a carriage return, it is converted, and the outermost nodes of the
tree fall into those of each element outside cells: those of a table hold the nodes of its cells row
by row, for a cell that holds no document and has a text at most one, with the text. The tables
among these elements are all tables of the document. -/
theorem convert_cells_iff {rules : Rules} {marker t : Text} (hskip : rules.skipComments = true)
    (hmarker : rules.marker = .text marker) (hreturn : '\r' ∉ marker) {root : Element}
    (hread : (Element.ofText rules.reading rules.marker t).document = .ok root) :
    ∃ (tree : Node Text) (found : List (List (Node Text))),
      (Conversion.ofText rules t).result = .ok tree ∧ found.flatten.Perm tree.outermost ∧
        List.Forall₂ (fun e nodes => e.LocatesCells (Source.ofText t) marker
          rules.includeTableHeader nodes) root.outside found ∧
        ∀ e, e.isTable = true → (e ∈ root.outside ↔ e ∈ root.preorder) := by
  obtain ⟨tree, found, hresult, hfound, hbecomes, horigin⟩ :=
    Conversion.accounts_ofText hskip hmarker hreturn hread
  have hboth := (List.forall₂_and_left root.outside found).mpr ⟨horigin, hbecomes⟩
  refine ⟨tree, found, hresult, hfound, hboth.imp fun e nodes h => ?_, ?_⟩
  · exact h.2.locatesCells hmarker hreturn h.1
  · rw [hmarker, Element.document_ofText] at hread
    dsimp only at hread
    split at hread
    · obtain rfl := Except.ok.inj hread
      refine fun e htable => ⟨fun he => Element.outside_subset_preorder _ he, fun he => ?_⟩
      exact Cursor.mem_outside_of_isTable ⟨rules.reading, marker⟩
        (Reading.areLines_tokens (Source.ofText t) marker) t he htable
    · cases hread


/-- The text of a cell that begins behind the line of its bar is found on that line, in the cell
before it. -/
theorem convert_cells_on_line_before :
    let t := "|===\n|x\n|c|\nc\n|===".toList
    ∃ (tree n : Node Text) (p : Table.PendingCell), (Conversion.ofText {} t).result = .ok tree ∧
      p ∈ Table.cells ((Source.ofText t).tableBody Marker.slashes 1) ∧ p.isAsciidoc = false ∧
      p.text = "c".toList ∧ p.content.head?.map Prod.fst = some 4 ∧
      n ∈ tree.outermost ∧ n.kind = .table ∧
        ∀ row ∈ n.children, ∀ cell ∈ row.children, cell.loc.start.line ≠ 4 := by
  intro t
  let rows : List (List Element) := [[.cell (some 2) "x".toList none none 1],
    [.cell (some 3) "c".toList none none 1], [.cell (some 3) "c".toList none none 1]]
  have hread : (Element.ofText (Rules.reading {}) (Rules.marker {}) t).document
      = .ok (.document (some 1) none [.table (some 1) [] rows] [] t) := by
    with_unfolding_all rfl
  obtain ⟨tree, found, hresult, hfound, hlocated, -⟩ := convert_cells_iff rfl rfl (by decide) hread
  have houtside : (Element.document (some 1) none [.table (some 1) [] rows] [] t).outside
      = [.document (some 1) none [.table (some 1) [] rows] [] t, .table (some 1) [] rows] := by
    rw [Element.outside_of_not_isTable rfl, Element.parts, List.flatMap_singleton,
      Element.outside_of_isTable rfl]
    rfl
  rw [houtside] at hlocated
  obtain ⟨_, _, -, hrest, rfl⟩ := List.forall₂_cons_left_iff.mp hlocated
  obtain ⟨nodes, _, htable, -, rfl⟩ := List.forall₂_cons_left_iff.mp hrest
  obtain ⟨pending, became, ⟨_, hline, hgathered⟩, hcells, hkinds, hchildren, hrows⟩ := htable rfl
  obtain rfl := Option.some.inj hline
  have hall : Table.cells ((Source.ofText t).tableBody Marker.slashes 1)
      = [⟨2, [], [(2, "x".toList)]⟩, ⟨3, [], [(3, "c".toList)]⟩,
          ⟨3, [], [(3, []), (4, "c".toList)]⟩] := by
    with_unfolding_all rfl
  obtain _ | ⟨_ | ⟨-, _ | _⟩, _ | ⟨_ | ⟨-, _ | _⟩, _ | ⟨_ | ⟨-, _ | _⟩, _ | _⟩⟩⟩ := hcells
  rw [hall] at hgathered
  have hpending := hgathered.eq_of_length rfl
  simp only [List.flatten_cons, List.flatten_nil, List.singleton_append, List.append_nil]
    at hpending
  obtain ⟨rfl, rfl, rfl⟩ := hpending
  obtain _ | ⟨hfirst, _ | ⟨hsecond, _ | ⟨hthird, _ | _⟩⟩⟩ := hrows
  obtain ⟨first, rfl, hfirstCell⟩ := hfirst.single rfl (by decide)
  obtain ⟨second, rfl, hsecondCell⟩ := hsecond.single rfl (by decide)
  obtain ⟨third, rfl, hthirdCell⟩ := hthird.single rfl (by decide)
  have hfirstStands := hfirstCell.standsAs nofun ⟨rfl, .inl rfl, by with_unfolding_all rfl⟩
  have hsecondStands := hsecondCell.standsAs nofun ⟨rfl, .inl rfl, by with_unfolding_all rfl⟩
  -- The text of the third cell stands in the line of its bar too, where the second is.
  have hbegins : (Source.ofText t).BeginsAt Marker.slashes ["c".toList] 0 3 := by
    have htaken : (Source.ofText t).taken Marker.slashes 3 1 = [(3, "|c|".toList)] := by
      with_unfolding_all rfl
    refine ⟨⟨3, ?_, ?_, ?_⟩, "c".toList, "|c|".toList, 1, rfl, by with_unfolding_all rfl, by decide,
      by decide, ['|'], rfl⟩ <;> rw [List.length_singleton, htaken]
    · rfl
    · exact .cons ⟨['|'], ['|'], rfl⟩ .nil
    · rfl
  have hthirdStands : ¬Table.PendingCell.StandsAs ⟨3, [], [(3, []), (4, "c".toList)]⟩ third := by
    intro hstands
    obtain ⟨entry, hentry, -, hnot⟩ := hthirdCell.standsAs_iff.mp hstands
    obtain rfl := Option.some.inj hentry
    exact hnot (by decide) hbegins
  have hlines : ∀ cells ∈ [first, second, third], ∀ cell ∈ cells, cell.loc.start.line ≠ 4 := by
    simp only [List.forall_mem_cons, List.not_mem_nil, false_implies, implies_true, and_true]
    refine ⟨fun cell hcell hline => ?_, fun cell hcell hline => ?_, fun cell hcell hline => ?_⟩
    · have hsame := hfirstStands.line hcell
      rw [hline] at hsame
      cases hsame
    · have hsame := hsecondStands.line hcell
      rw [hline] at hsame
      cases hsame
    · exact hthirdStands (hthirdCell.standsAs_of_mem hcell (by rw [hline]; rfl))
  have hne : nodes ≠ [] := by
    rintro rfl
    obtain ⟨n, -, rfl, -⟩ := hfirstStands
    cases hchildren
  obtain ⟨n, hn⟩ := List.exists_mem_of_ne_nil nodes hne
  refine ⟨tree, n, ⟨3, [], [(3, []), (4, "c".toList)]⟩, hresult, by simp [hall], rfl, rfl, rfl,
    hfound.subset (by simp [hn]), (hkinds n hn).1, fun row hrow => ?_⟩
  have hmem : row.children ∈ (nodes.flatMap Node.children).map Node.children :=
    List.mem_map_of_mem (List.mem_flatMap.mpr ⟨n, hn, hrow⟩)
  rw [hchildren] at hmem
  exact hlines _ (by simpa using (List.mem_filter.mp hmem).1)

end Asciidoc
