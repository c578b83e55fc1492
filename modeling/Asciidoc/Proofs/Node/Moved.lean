import Asciidoc.Proofs.Element.Down
import Asciidoc.Proofs.Element.Spelled
import Asciidoc.Proofs.Node.Shown

/-!
# The same elements in another text

Two texts may say the same in other places: one has lines before it that the other has not, or
longer line ends. A `Move` says how places of the first are found again in the second, and
`Locating.Follows` that the two texts are searched alike: whatever is found in the first is found
in the second at the moved place. Then everything that elements become in the first text they
become in the second, moved (`Locating.document_follows`), and nothing else is lost on the way.

Only what elements say is searched, in windows that start on their lines, so a search may be alike
for texts of some code points alone. The search for a cell of a table may start inside its line; it
is asked for by itself, with the line of the cell.
-/

namespace Asciidoc

open Text

variable {k : Int}

/-! ## Moved places -/

/-- A position further down. -/
def Position.down (k : Int) (p : Position) : Position := ⟨p.line + k, p.column⟩

/-- A location further down. -/
def Location.down (k : Int) (l : Location) : Location := ⟨l.start.down k, l.stop.down k⟩

/-- A window further down. -/
def Window.down (k : Int) (w : Window) : Window :=
  { w with minLine := w.minLine + k, maxLine := w.maxLine + k }

/-- A loss of something further down. -/
def Loss.down (k : Int) : Loss → Loss
  | .notFound kind line minLine maxLine =>
    .notFound kind (Hint.down k line) (minLine + k) (maxLine + k)
  | .noNodes kind line => .noNodes kind (Hint.down k line)
  | .emptyCell line => .emptyCell (Hint.down k line)
  | .markerNotText => .markerNotText

/-- How places of a text are found again in another text. -/
structure Move where
  /-- How many lines further down they are. -/
  lines : Int
  /-- How many offsets further on they are, by the line they are on. -/
  offsets : Int → Int
  /-- What a piece of the text has become. -/
  raw : Text → Text

/-- The range of a location, moved. -/
def Range.moved (m : Move) (l : Location) (r : Range) : Range :=
  ⟨r.start + m.offsets l.start.line, r.stop + m.offsets l.stop.line⟩

namespace Node

mutual

/-- A node with its places moved. -/
def moved (m : Move) : Node Text → Node Text
  | .mk kind loc range raw children =>
    .mk kind (loc.down m.lines) (range.moved m loc) (raw.map m.raw) (movedAll m children)

/-- Nodes with their places moved. -/
def movedAll (m : Move) : List (Node Text) → List (Node Text)
  | [] => []
  | n :: rest => n.moved m :: movedAll m rest

end

@[simp] theorem movedAll_eq_map (m : Move) (ns : List (Node Text)) :
    movedAll m ns = ns.map (moved m) := by
  induction ns with
  | nil => rfl
  | cons n rest ih => rw [movedAll, ih, List.map_cons]

variable (m : Move) (n : Node Text)

@[simp] theorem loc_moved : (n.moved m).loc = n.loc.down m.lines := by
  cases n
  rfl

@[simp] theorem range_moved : (n.moved m).range = n.range.moved m n.loc := by
  cases n
  rfl

end Node

/-- A tree is another, moved; the empty document stays what it is. -/
structure Node.TreeMoved (m : Move) (n n' : Node Text) : Prop where
  empty : n = Node.emptyDocument → n' = Node.emptyDocument
  moved : n ≠ Node.emptyDocument → n' = n.moved m

/-- A text is refused as another is, or its tree is that of the other, moved. -/
inductive Conversion.Moved (m : Move) :
    Except Refusal (Node Text) → Except Refusal (Node Text) → Prop where
  | refused (refusal : Refusal) : Moved m (.error refusal) (.error refusal)
  | tree {n n' : Node Text} (h : n.TreeMoved m n') : Moved m (.ok n) (.ok n')

/-- What elements became, moved. -/
def Converted.moved (m : Move) (c : Converted) : Converted :=
  ⟨c.nodes.map (Node.moved m), c.losses.map (Loss.down m.lines)⟩

theorem Converted.moved_append (m : Move) (a b : Converted) :
    (a ++ b).moved m = a.moved m ++ b.moved m :=
  congrArg₂ Converted.mk List.map_append List.map_append

/-- What was found or lost, moved. -/
def Move.found (m : Move) : Except Loss Location → Except Loss Location
  | .error loss => .error (loss.down m.lines)
  | .ok l => .ok (l.down m.lines)

/-! ## Windows -/

theorem Window.narrowed_down (w : Window) (minLine maxLine : Hint) :
    (w.down k).narrowed (Hint.down k minLine) (Hint.down k maxLine)
      = (w.narrowed minLine maxLine).down k := by
  cases minLine <;> cases maxLine <;> rfl

theorem Locating.cellWindow_down (w : Window) (line : Hint) (last : Option Position) :
    cellWindow (w.down k) (Hint.down k line) (last.map (Position.down k))
      = (cellWindow w line last).down k := by
  have hnarrowed : (w.down k).narrowed (Hint.down k line) none = (w.narrowed line none).down k :=
    w.narrowed_down line none
  unfold cellWindow
  rw [hnarrowed]
  cases last with
  | none => rfl
  | some p =>
    have hline : p.line + k = (w.narrowed line none).minLine + k
        ↔ p.line = (w.narrowed line none).minLine := by omega
    simp only [Option.map_some, Window.down, Position.down, hline]

/-- Offsets of a text are in the order of their positions. -/
theorem Source.offset_le_iff {s : Source} {p q : Position} {a b : Int} (hp : s.HasPosition p)
    (hq : s.HasPosition q) (ha : s.offset? p = some a) (hb : s.offset? q = some b) :
    a ≤ b ↔ p.line < q.line ∨ p.line = q.line ∧ p.column ≤ q.column := by
  constructor
  · intro hle
    apply by_contra
    intro hbefore
    have hback : b ≤ a := offset_mono hq hp hb ha (by omega)
    obtain rfl : a = b := Int.le_antisymm hle hback
    obtain ⟨x, hx, hpx⟩ := hp.offset
    obtain ⟨y, hy, hqy⟩ := hq.offset
    obtain rfl : a = x := Option.some.inj (ha.symm.trans hx)
    obtain rfl : a = y := Option.some.inj (hb.symm.trans hy)
    obtain rfl : p = q := hpx.symm.trans hqy
    omega
  · exact offset_mono hp hq ha hb

namespace Locating

/-- Two texts are searched alike for texts of some code points and for cells that start on lines
of some kind: what is found in the one is found in the other, moved. -/
structure Follows (P : Char → Prop) (B : Int → Prop) (m : Move) (env env' : Locating) : Prop where
  newline : P '\n'
  includeTableHeader : env'.includeTableHeader = env.includeTableHeader
  count : (env'.source.count : Int) = env.source.count + m.lines
  hasPosition : ∀ {p : Position}, env.source.HasPosition p →
    env'.source.HasPosition (p.down m.lines)
  offset : ∀ {p : Position} {o : Int}, env.source.HasPosition p → env.source.offset? p = some o →
    env'.source.offset? (p.down m.lines) = some (o + m.offsets p.line)
  slice : ∀ {l : Location} {r : Range}, env.source.HasLocation l → env.source.range? l = some r →
    env'.source.slice (r.moved m l) = m.raw (env.source.slice r)
  find : ∀ (kind : Text) (line : Hint) {expected : List Text} {w : Window},
    (∀ piece ∈ expected, ∀ c ∈ piece, P c) → 1 ≤ w.minLine → w.startColumn = 0 →
      env'.find kind (Hint.down m.lines line) expected (w.down m.lines)
        = m.found (env.find kind line expected w)
  findCell : ∀ (kind : Text) (line : Hint) {text : Text} {w : Window},
    (∀ c ∈ text, P c) → text.head? ≠ some '\n' → 1 ≤ w.minLine → B w.minLine →
      env.source.HasPosition ⟨w.minLine, w.startColumn⟩ →
        env'.find kind (Hint.down m.lines line) text.lines (w.down m.lines)
          = m.found (env.find kind line text.lines w)

variable {P : Char → Prop} {B : Int → Prop} {m : Move} {env env' : Locating} {w : Window}

/-- What elements become in one text and in another, moved; the nodes are where they say in the
first. -/
structure IsMoved (env : Locating) (m : Move) (c c' : Converted) : Prop where
  moved : c' = c.moved m
  placed : c.Every (Node.PlacedIn env.source)

theorem IsMoved.nothing : env.IsMoved m {} {} := ⟨rfl, Converted.every_of_nodes_eq_nil rfl⟩

theorem IsMoved.lost {losses losses' : List Loss} (h : losses' = losses.map (Loss.down m.lines)) :
    env.IsMoved m ⟨[], losses⟩ ⟨[], losses'⟩ :=
  ⟨congrArg _ h, Converted.every_of_nodes_eq_nil rfl⟩

theorem IsMoved.append {a a' b b' : Converted} (ha : env.IsMoved m a a')
    (hb : env.IsMoved m b b') : env.IsMoved m (a ++ b) (a' ++ b') :=
  ⟨by rw [ha.moved, hb.moved, Converted.moved_append], ha.placed.append hb.placed⟩

namespace Follows

variable (h : Follows P B m env env')

include h

theorem range? {l : Location} (hl : env.source.HasLocation l) :
    env'.source.range? (l.down m.lines) = (env.source.range? l).map (Range.moved m l) := by
  obtain ⟨r, hr, -⟩ := hl.range
  obtain ⟨hstart, hstop⟩ := Source.range?_eq_some hr
  rw [hr, Source.range?]
  show (env'.source.offset? (l.start.down m.lines)).bind (fun start =>
    (env'.source.offset? (l.stop.down m.lines)).map _) = _
  rw [h.offset hl.1 hstart, h.offset hl.2 hstop]
  rfl

theorem node? (kind : Node.Kind Text) {l : Location} (hl : env.source.HasLocation l)
    (children : List (Node Text)) :
    env'.node? kind (l.down m.lines) (children.map (Node.moved m))
      = (env.node? kind l children).map (Node.moved m) := by
  obtain ⟨r, hr, -⟩ := hl.range
  rw [Locating.node?, Locating.node?, h.range? hl, hr, Option.map_some, Option.map_some,
    Option.map_some, Option.map_some, h.slice hl hr, Node.moved, Node.movedAll_eq_map]
  congr 2
  split <;> rfl

theorem around? (kind : Node.Kind Text) {children : List (Node Text)}
    (hchildren : ∀ n ∈ children, n.PlacedIn env.source) :
    env'.around? kind (children.map (Node.moved m))
      = (env.around? kind children).map (Node.moved m) := by
  rw [Locating.around?, Locating.around?, List.head?_map, List.getLast?_map]
  cases hfirst : children.head? with
  | none => rfl
  | some first =>
    cases hlast : children.getLast? with
    | none => rfl
    | some last =>
      simp only [Option.map_some, Node.loc_moved]
      have hl : env.source.HasLocation ⟨first.loc.start, last.loc.stop⟩ :=
        ⟨(hchildren first (List.mem_of_head? hfirst)).hasLocation.1,
          (hchildren last (List.mem_of_getLast? hlast)).hasLocation.2⟩
      exact h.node? kind hl children

theorem gather {kind : Node.Kind Text} (hkind : kind.HoldsNodes) {inside inside' : Converted}
    (hinside : env.IsMoved m inside inside') :
    env.IsMoved m (env.gather kind inside) (env'.gather kind inside') := by
  refine ⟨?_, gather_placed hkind hinside.placed⟩
  have hchildren : ∀ n ∈ inside.nodes, n.PlacedIn env.source :=
    fun n hn => hinside.placed n hn n n.mem_preorder_self
  rw [hinside.moved, Locating.gather, Locating.gather]
  show Converted.mk (env'.around? kind (inside.nodes.map (Node.moved m))).toList _ = _
  rw [h.around? kind hchildren]
  cases env.around? kind inside.nodes <;> rfl

/-- The children of an item are in the same order. -/
theorem itemAround {inside inside' : Converted} (hinside : env.IsMoved m inside inside') :
    env.IsMoved m (env.itemAround inside) (env'.itemAround inside') := by
  refine h.gather .listItem ⟨?_, fun n hn => hinside.placed n (List.mem_mergeSort.mp hn)⟩
  rw [hinside.moved]
  refine congrArg₂ Converted.mk (List.map_mergeSort fun a ha b hb => ?_).symm rfl
  have ha := hinside.placed a ha a a.mem_preorder_self
  have hb := hinside.placed b hb b b.mem_preorder_self
  have haoffset := (Source.range?_eq_some ha.range_eq).1
  have hboffset := (Source.range?_eq_some hb.range_eq).1
  have hbefore := Source.offset_le_iff ha.hasLocation.1 hb.hasLocation.1 haoffset hboffset
  have hbefore' := Source.offset_le_iff (h.hasPosition ha.hasLocation.1)
    (h.hasPosition hb.hasLocation.1) (h.offset ha.hasLocation.1 haoffset)
    (h.offset hb.hasLocation.1 hboffset)
  rw [Node.range_moved, Node.range_moved, Range.moved, Range.moved, decide_eq_decide, hbefore]
  dsimp only
  rw [hbefore']
  simp only [Position.down]
  omega

theorem cellAround (line : Hint) {inside inside' : Converted}
    (hinside : env.IsMoved m inside inside') :
    env.IsMoved m (env.cellAround line inside)
      (env'.cellAround (Hint.down m.lines line) inside') := by
  have hnodes : inside'.nodes = inside.nodes.map (Node.moved m) :=
    congrArg Converted.nodes hinside.moved
  have hlosses : inside'.losses = inside.losses.map (Loss.down m.lines) :=
    congrArg Converted.losses hinside.moved
  rw [Locating.cellAround, Locating.cellAround, hnodes, List.isEmpty_map]
  split
  · refine .lost ?_
    rw [hlosses, List.map_append]
    rfl
  · exact h.gather .tableCell hinside

theorem textNode {D : Int → Prop} {outer : Node.Kind Text} (houter : outer.HoldsText D)
    (what : Text) (line : Hint) (value : Text) {expected : List Text}
    (hfind : env'.find what (Hint.down m.lines line) expected (w.down m.lines)
      = m.found (env.find what line expected w)) :
    env.IsMoved m (env.textNode outer what line value expected w)
      (env'.textNode outer what (Hint.down m.lines line) value expected (w.down m.lines)) := by
  have hplaced : outer.HoldsText fun _ => True := by
    cases houter with
    | header => exact .header trivial
    | paragraph => exact .paragraph
    | tableCell => exact .tableCell
  refine ⟨?_, textNode_placed hplaced what line value expected w⟩
  rw [Locating.textNode, Locating.textNode, hfind]
  cases hfound : env.find what line expected w with
  | error loss => rfl
  | ok l =>
    have hl := Source.find?_hasLocation (find_eq_ok hfound)
    have hleaf := h.node? (.str value) hl []
    simp only [Move.found]
    rw [List.map_nil] at hleaf
    rw [hleaf]
    cases env.node? (.str value) l [] with
    | none => rfl
    | some leaf =>
      have houter := h.node? outer hl [leaf]
      rw [List.map_singleton] at houter
      rw [Option.map_some, Option.bind_some, Option.bind_some, houter]
      cases env.node? outer l [leaf] <;> rfl

theorem listing (line : Hint) {lines : List Text} (language : Option Text)
    (hlines : ∀ piece ∈ lines, ∀ c ∈ piece, P c) (hline : 1 ≤ w.minLine)
    (hcolumn : w.startColumn = 0) :
    env.IsMoved m (env.listing line lines language w)
      (env'.listing (Hint.down m.lines line) lines language (w.down m.lines)) := by
  refine ⟨?_, listing_placed line lines language w⟩
  have hfind := h.find "listing".toList line (w := { w with skipComments := false }) hlines hline
    hcolumn
  have hwindow : { w.down m.lines with skipComments := false }
      = Window.down m.lines { w with skipComments := false } := rfl
  rw [Locating.listing, Locating.listing, hwindow, hfind]
  cases hfound : env.find "listing".toList line lines { w with skipComments := false } with
  | error loss => rfl
  | ok l =>
    have hl := Source.find?_hasLocation (find_eq_ok hfound)
    have hnode := h.node? (.codeBlock language (unlines lines)) hl []
    simp only [Move.found]
    rw [List.map_nil] at hnode
    rw [hnode]
    cases env.node? (.codeBlock language (unlines lines)) l [] <;> rfl

theorem titled (what : Text) (line : Hint) {title : Text} (depth : Int)
    (htitle : ∀ c ∈ title, P c) (hline : 1 ≤ w.minLine) (hcolumn : w.startColumn = 0) :
    env.IsMoved m (env.titled what line title depth w)
      (env'.titled what (Hint.down m.lines line) title depth (w.down m.lines)) :=
  h.textNode (.header (D := fun _ => True) trivial) what line title
    (h.find what line (List.forall_mem_singleton.mpr htitle) hline hcolumn)

theorem paragraph (what : Text) (line : Hint) {value : Text} (hvalue : ∀ c ∈ value, P c)
    (hline : 1 ≤ w.minLine) (hcolumn : w.startColumn = 0) :
    env.IsMoved m (env.paragraph what line value w)
      (env'.paragraph what (Hint.down m.lines line) value (w.down m.lines)) :=
  h.textNode (.paragraph (D := fun _ => True)) what line value
    (h.find what line (fun _ hpiece c hc => hvalue c ((infix_of_mem_split hpiece).subset hc)) hline hcolumn)

theorem lines (what : Text) (line : Hint) {lines : List Text}
    (hlines : ∀ piece ∈ lines, ∀ c ∈ piece, P c) (hline : 1 ≤ w.minLine)
    (hcolumn : w.startColumn = 0) :
    env.IsMoved m (if lines.isEmpty then {} else env.paragraph what line (unlines lines) w)
      (if lines.isEmpty then {}
        else env'.paragraph what (Hint.down m.lines line) (unlines lines) (w.down m.lines)) := by
  split
  · exact .nothing
  · refine h.paragraph what line (fun c hc => ?_) hline hcolumn
    rcases mem_unlines hc with rfl | ⟨piece, hpiece, hc⟩
    · exact h.newline
    · exact hlines piece hpiece c hc

theorem itemText (line : Hint) {text : Option Text} (htext : ∀ t ∈ text, ∀ c ∈ t, P c)
    (hline : 1 ≤ w.minLine) (hcolumn : w.startColumn = 0) :
    env.IsMoved m (env.itemText line text w)
      (env'.itemText (Hint.down m.lines line) text (w.down m.lines)) := by
  unfold Locating.itemText
  split
  · exact h.paragraph _ _ (htext _ rfl) hline hcolumn
  · exact .nothing

end Follows

/-! ## Elements -/

theorem following_down (next : Hint) {rest : List Element}
    (hrest : ∀ x ∈ rest, x.isDocument = false) :
    following (Hint.down k next) (rest.map (Element.down k)) = Hint.down k (following next rest) := by
  cases rest with
  | nil => rfl
  | cons e rest => exact Element.line_down (hrest e List.mem_cons_self)

theorem head?_line_down {es : List Element} (h : ∀ x ∈ es, x.isDocument = false) :
    (es.map (Element.down k)).head?.bind Element.line
      = Hint.down k (es.head?.bind Element.line) := by
  cases es with
  | nil => rfl
  | cons e rest => exact Element.line_down (h e List.mem_cons_self)

/-- Elements that are located in both texts: none of them is a document. -/
def AllFit (P : Char → Prop) (B : Int → Prop) (es : List Element) : Prop :=
  ∀ x ∈ es, x.isDocument = false ∧ x.Every (Element.HintedIn P B)

theorem AllFit.of_parts {e : Element} {es : List Element} (he : e.Every (Element.HintedIn P B))
    (hcell : e.isCell = false) (hes : es ⊆ e.parts) : AllFit P B es :=
  fun x hx => ⟨he.self.documents hcell x (hes hx), he.part (hes hx)⟩

/-- A cell that is not searched from the start of its line is searched from where the last was found
to end. -/
theorem hasPosition_cellWindow (w : Window) (line : Hint) {s : Source} {last : Option Position}
    (hlast : ∀ p, last = some p → s.HasPosition p)
    (hcolumn : (cellWindow w line last).startColumn ≠ 0) :
    s.HasPosition ⟨(cellWindow w line last).minLine, (cellWindow w line last).startColumn⟩ := by
  cases last with
  | none => exact absurd rfl hcolumn
  | some p =>
    simp only [cellWindow] at hcolumn ⊢
    by_cases hline : p.line = (w.narrowed line none).minLine
    · rw [if_pos hline, ← hline]
      exact hlast p rfl
    · rw [if_neg hline] at hcolumn
      exact absurd rfl hcolumn

theorem one_le_narrowed {e : Element} (hblock : e.isDocument = false)
    (he : e.Every (Element.HintedIn P B)) (w : Window) (next : Hint) :
    1 ≤ (w.narrowed e.line next).minLine := by
  obtain ⟨n, hn, hpos⟩ := he.self.hinted hblock
  rw [hn]
  exact hpos

-- One case for each kind of element; the runs of siblings, entries, rows and cells go along.
mutual

/-- What an element becomes in one text it becomes in the other, moved. -/
theorem convert_follows (h : Follows P B m env env') (w : Window) (hline : 1 ≤ w.minLine)
    (hcolumn : w.startColumn = 0) :
    (e : Element) → e.Every (Element.HintedIn P B) →
      env.IsMoved m (env.convert w e) (env'.convert (w.down m.lines) (e.down m.lines))
  | .document _ none blocks _ _, he => by
    have hblocks := convertAll_follows h w hline hcolumn none blocks (.of_parts he rfl fun _ hx => hx)
    rw [Element.down, Element.downAll_eq_map, Option.map_none, convert, convert]
    exact h.gather .document (.append .nothing hblocks)
  | .document _ (some title) blocks _ _, he => by
    have hblocks := convertAll_follows h w hline hcolumn none blocks (.of_parts he rfl fun _ hx => hx)
    obtain ⟨n, hn, hpos⟩ := he.self.title (.header title) List.mem_cons_self
    have hnarrowed : 1 ≤ (w.narrowed title.line none).minLine := by
      rw [show title.line = some n from hn]
      exact hpos
    have htitle := h.titled "header".toList title.line 1
      (he.self.texts title.title List.mem_cons_self) hnarrowed hcolumn
    rw [← w.narrowed_down title.line none] at htitle
    rw [Element.down, Element.downAll_eq_map, Option.map_some, convert, convert]
    exact h.gather .document (htitle.append hblocks)
  | .sectionBlock line title level blocks, he => by
    have hblocks := convertAll_follows h w hline hcolumn none blocks (.of_parts he rfl fun _ hx => hx)
    have htitle := h.titled "section".toList line (level + 1)
      (he.self.texts title List.mem_cons_self) hline hcolumn
    have hnodes : (env'.titled "section".toList (Hint.down m.lines line) title (level + 1)
        (w.down m.lines)).nodes.isEmpty
          = (env.titled "section".toList line title (level + 1) w).nodes.isEmpty := by
      rw [htitle.moved, Converted.moved, List.isEmpty_map]
    rw [Element.down, Element.downAll_eq_map, convert, convert, hnodes]
    split
    · exact htitle
    · exact htitle.append hblocks
  | .paragraph line lines, he => by
    rw [Element.down, convert, convert]
    exact h.lines _ line he.self.texts hline hcolumn
  | .literal line lines, he => by
    rw [Element.down, convert, convert]
    exact h.lines _ line he.self.texts hline hcolumn
  | .listing line lines language, he => by
    rw [Element.down, convert, convert]
    exact h.listing line language he.self.texts hline hcolumn
  | .unorderedList _ _ items, he => by
    rw [Element.down, Element.downAll_eq_map, convert, convert]
    exact h.gather .list (convertAll_follows h w hline hcolumn none items
      (.of_parts he rfl fun _ hx => hx))
  | .orderedList _ _ items, he => by
    rw [Element.down, Element.downAll_eq_map, convert, convert]
    exact h.gather .list (convertAll_follows h w hline hcolumn none items
      (.of_parts he rfl fun _ hx => hx))
  | .item line text _ blocks, he => by
    have hblocks := convertAll_follows h w hline hcolumn none blocks (.of_parts he rfl fun _ hx => hx)
    have htext := h.itemText line (fun t ht => he.self.texts t (Option.mem_toList.mpr ht)) hline
      hcolumn
    rw [Element.down, Element.downAll_eq_map, convert, convert]
    exact h.itemAround (htext.append hblocks)
  | .descriptionList _ _ entries, he => by
    rw [Element.down, Element.downEntries_eq_map, convert, convert]
    exact h.gather .list (convertEntries_follows h w hline hcolumn entries fun entry hentry =>
      .of_parts he rfl fun _ hx => List.mem_flatMap.mpr ⟨entry, hentry, hx⟩)
  | .quoteBlock _ blocks, he => by
    rw [Element.down, Element.downAll_eq_map, convert, convert]
    exact h.gather .blockQuote (convertAll_follows h w hline hcolumn none blocks
      (.of_parts he rfl fun _ hx => hx))
  | .compound _ _ blocks, he => by
    rw [Element.down, Element.downAll_eq_map, convert, convert]
    exact convertAll_follows h w hline hcolumn none blocks (.of_parts he rfl fun _ hx => hx)
  | .table _ headerRows bodyRows, he => by
    have hheader := convertRows_follows h w hline hcolumn headerRows fun row hrow =>
      .of_parts he rfl fun _ hx => List.mem_append_left _ (List.mem_flatten.mpr ⟨row, hrow, hx⟩)
    have hbody := convertRows_follows h w hline hcolumn bodyRows fun row hrow =>
      .of_parts he rfl fun _ hx => List.mem_append_right _ (List.mem_flatten.mpr ⟨row, hrow, hx⟩)
    rw [Element.down, Element.downRows_eq_map, Element.downRows_eq_map, convert, convert]
    refine h.gather .table ?_
    rw [h.includeTableHeader]
    split
    · exact hheader.append hbody
    · exact hbody
  | .header title, _ => by
    rw [Element.down, convert, convert]
    exact .lost rfl
  | .cell .., _ => by
    rw [Element.down, convert, convert]
    exact .lost rfl
  | .unsupported line kind, _ => by
    rw [Element.down, convert, convert]
    refine .lost ?_
    cases kind <;> rfl
  | .bare line, _ => by
    rw [Element.down, convert, convert]
    exact .lost rfl

/-- So do siblings. -/
theorem convertAll_follows (h : Follows P B m env env') (w : Window) (hline : 1 ≤ w.minLine)
    (hcolumn : w.startColumn = 0) (next : Hint) :
    (es : List Element) → AllFit P B es →
      env.IsMoved m (env.convertAll w next es)
        (env'.convertAll (w.down m.lines) (Hint.down m.lines next) (es.map (Element.down m.lines)))
  | [], _ => .nothing
  | e :: rest, hes => by
    obtain ⟨⟨hblock, he⟩, hrest⟩ := List.forall_mem_cons.mp hes
    have hfirst := convert_follows h (w.narrowed e.line (following next rest))
      (one_le_narrowed hblock he w _) hcolumn e he
    rw [List.map_cons, convertAll_cons, convertAll_cons, Element.line_down hblock,
      following_down next fun x hx => (hrest x hx).1, w.narrowed_down]
    exact hfirst.append (convertAll_follows h w hline hcolumn next rest hrest)

theorem convertOption_follows (h : Follows P B m env env') (w : Window)
    (hcolumn : w.startColumn = 0) (next : Hint) :
    (e : Option Element) → AllFit P B e.toList →
      env.IsMoved m (env.convertOption w next e)
        (env'.convertOption (w.down m.lines) (Hint.down m.lines next)
          (e.map (Element.down m.lines)))
  | none, _ => .nothing
  | some e, hes => by
    obtain ⟨hblock, he⟩ := hes e List.mem_cons_self
    have he' := convert_follows h (w.narrowed e.line next) (one_le_narrowed hblock he w _) hcolumn
      e he
    rw [Option.map_some, convertOption, convertOption, Element.line_down hblock, w.narrowed_down]
    exact he'

theorem convertEntries_follows (h : Follows P B m env env') (w : Window) (hline : 1 ≤ w.minLine)
    (hcolumn : w.startColumn = 0) :
    (entries : List (Entry Element)) → (∀ entry ∈ entries, AllFit P B entry.items) →
      env.IsMoved m (env.convertEntries w entries)
        (env'.convertEntries (w.down m.lines) (entries.map (Entry.down m.lines)))
  | [], _ => .nothing
  | ⟨terms, description⟩ :: rest, hentries => by
    obtain ⟨hentry, hrest⟩ := List.forall_mem_cons.mp hentries
    have hterms : AllFit P B terms := fun x hx => hentry x (List.mem_append_left _ hx)
    have hdescription : AllFit P B description.toList :=
      fun x hx => hentry x (List.mem_append_right _ hx)
    have hnext : ((rest.map (Entry.down m.lines)).flatMap Entry.items).head?.bind Element.line
        = Hint.down m.lines ((rest.flatMap Entry.items).head?.bind Element.line) := by
      rw [← head?_line_down fun x hx => ?_, List.flatMap_map, List.map_flatMap]
      · simp only [Entry.items_down]
      · obtain ⟨entry, hmem, hx⟩ := List.mem_flatMap.mp hx
        exact (hrest entry hmem x hx).1
    have hafter : (description.map (Element.down m.lines)).elim
        (Hint.down m.lines ((rest.flatMap Entry.items).head?.bind Element.line)) Element.line
          = Hint.down m.lines (description.elim
            ((rest.flatMap Entry.items).head?.bind Element.line) Element.line) := by
      cases description with
      | none => rfl
      | some d => exact Element.line_down (hdescription d List.mem_cons_self).1
    rw [List.map_cons, convertEntries_cons, convertEntries_cons]
    dsimp only [Entry.down]
    rw [hnext, hafter]
    exact ((convertAll_follows h w hline hcolumn _ terms hterms).append
      (convertOption_follows h w hcolumn _ description hdescription)).append
        (convertEntries_follows h w hline hcolumn rest hrest)

theorem convertRows_follows (h : Follows P B m env env') (w : Window) (hline : 1 ≤ w.minLine)
    (hcolumn : w.startColumn = 0) :
    (rows : List (List Element)) → (∀ row ∈ rows, AllFit P B row) →
      env.IsMoved m (env.convertRows w rows)
        (env'.convertRows (w.down m.lines) (rows.map (List.map (Element.down m.lines))))
  | [], _ => .nothing
  | row :: rest, hrows => by
    obtain ⟨hrow, hrest⟩ := List.forall_mem_cons.mp hrows
    have hcells := convertRow_follows h (w.narrowed (row.head?.bind Element.line) none) none nofun
      row hrow
    rw [List.map_cons, convertRows, convertRows, head?_line_down fun x hx => (hrow x hx).1]
    rw [← w.narrowed_down _ none] at hcells
    exact (h.gather .tableRow hcells).append (convertRows_follows h w hline hcolumn rest hrest)

/-- So do the cells of a row, of which each is searched from where the last was found to end. -/
theorem convertRow_follows (h : Follows P B m env env') (w : Window) (last : Option Position)
    (hlast : ∀ p, last = some p → env.source.HasPosition p) :
    (row : List Element) → AllFit P B row →
      env.IsMoved m (env.convertRow w last row)
        (env'.convertRow (w.down m.lines) (last.map (Position.down m.lines))
          (row.map (Element.down m.lines)))
  | [], _ => .nothing
  | cell :: rest, hrow => by
    obtain ⟨⟨hblock, hcell⟩, hrest⟩ := List.forall_mem_cons.mp hrow
    have hfirst := convertCell_follows h w last hlast cell hblock hcell
    rw [List.map_cons, convertRow, convertRow, Element.line_down hblock, cellWindow_down]
    have hreached : (((env'.convertCell ((cellWindow w cell.line last).down m.lines)
        (cell.down m.lines)).nodes.getLast?.map fun n => n.loc.stop).orElse
          fun _ => last.map (Position.down m.lines))
        = (((env.convertCell (cellWindow w cell.line last) cell).nodes.getLast?.map
          fun n => n.loc.stop).orElse fun _ => last).map (Position.down m.lines) := by
      rw [hfirst.moved, Converted.moved, List.getLast?_map]
      cases (env.convertCell (cellWindow w cell.line last) cell).nodes.getLast? with
      | none => rfl
      | some n => exact congrArg (fun l => some l.stop) (n.loc_moved m)
    have hplaced : ∀ p, (((env.convertCell (cellWindow w cell.line last) cell).nodes.getLast?.map
        fun n => n.loc.stop).orElse fun _ => last) = some p → env.source.HasPosition p := by
      intro p hp
      cases hnode : (env.convertCell (cellWindow w cell.line last) cell).nodes.getLast? with
      | none =>
        rw [hnode] at hp
        exact hlast p hp
      | some n =>
        rw [hnode] at hp
        obtain rfl : n.loc.stop = p := Option.some.inj hp
        exact (hfirst.placed n (List.mem_of_getLast? hnode) n n.mem_preorder_self).hasLocation.2
    rw [hreached]
    exact hfirst.append (convertRow_follows h w _ hplaced rest hrest)

/-- So does a cell. -/
theorem convertCell_follows (h : Follows P B m env env') (w : Window) (last : Option Position)
    (hlast : ∀ p, last = some p → env.source.HasPosition p) :
    (cell : Element) → cell.isDocument = false → cell.Every (Element.HintedIn P B) →
      env.IsMoved m (env.convertCell (cellWindow w cell.line last) cell)
        (env'.convertCell ((cellWindow w cell.line last).down m.lines) (cell.down m.lines))
  | .cell line text style inner columns, _, hcell => by
    obtain ⟨n, hn, hpos⟩ := hcell.self.hinted rfl
    obtain ⟨n', hn', hbar⟩ := hcell.self.cellLine rfl
    obtain rfl : n = n' := Option.some.inj (hn.symm.trans hn')
    obtain rfl : line = some n := hn
    have hminLine : (cellWindow w (some n) last).minLine = n := by
      cases last <;> rfl
    have hfrom : 1 ≤ (cellWindow w (some n) last).minLine := by rwa [hminLine]
    have hat : B (cellWindow w (some n) last).minLine := by rwa [hminLine]
    have hinner := convertInner_follows h { cellWindow w (some n) last with startColumn := 0 }
      hfrom rfl inner fun x hx => hcell.part (Option.mem_toList.mpr hx)
    have htext : ∀ c ∈ text, P c := hcell.self.texts text List.mem_cons_self
    rw [Element.down, Element.downOption_eq_map, convertCell, convertCell]
    split
    · exact h.cellAround (some n) hinner
    · refine h.textNode (.tableCell (D := fun _ => True)) _ _ text ?_
      by_cases hcolumn : (cellWindow w (some n) last).startColumn = 0
      · exact h.find _ _ (fun _ hpiece c hc => htext c ((infix_of_mem_split hpiece).subset hc))
          hfrom hcolumn
      · exact h.findCell _ _ htext (hcell.self.cellText rfl text List.mem_cons_self)
          hfrom hat (hasPosition_cellWindow w (some n) hlast hcolumn)
  | .document .., hblock, _ => by cases hblock
  | .unsupported line kind, _, _ => by
    refine .lost ?_
    cases kind <;> rfl
  | .sectionBlock .., _, _ | .paragraph .., _, _ | .literal .., _, _ | .listing .., _, _
  | .unorderedList .., _, _ | .orderedList .., _, _ | .item .., _, _ | .descriptionList .., _, _
  | .quoteBlock .., _, _ | .table .., _, _ | .header .., _, _ | .bare .., _, _ => .lost rfl
  | .compound _ kind _, _, _ => by
    refine .lost ?_
    cases kind <;> rfl

theorem convertInner_follows (h : Follows P B m env env') (w : Window) (hline : 1 ≤ w.minLine)
    (hcolumn : w.startColumn = 0) :
    (inner : Option Element) → (∀ x, inner = some x → x.Every (Element.HintedIn P B)) →
      env.IsMoved m (env.convertInner w inner)
        (env'.convertInner (w.down m.lines) (inner.map (Element.down m.lines)))
  | none, _ => .nothing
  | some e, he => convertBlocks_follows h w hline hcolumn e (he e rfl)

theorem convertBlocks_follows (h : Follows P B m env env') (w : Window) (hline : 1 ≤ w.minLine)
    (hcolumn : w.startColumn = 0) :
    (e : Element) → e.Every (Element.HintedIn P B) →
      env.IsMoved m (env.convertBlocks w e)
        (env'.convertBlocks (w.down m.lines) (e.down m.lines))
  | .document _ _ blocks _ _, he => by
    rw [Element.down, Element.downAll_eq_map]
    exact convertAll_follows h w hline hcolumn none blocks (.of_parts he rfl fun _ hx => hx)
  | .cell .., _ | .sectionBlock .., _ | .paragraph .., _ | .literal .., _ | .listing .., _
  | .unorderedList .., _ | .orderedList .., _ | .item .., _ | .descriptionList .., _
  | .quoteBlock .., _ | .compound .., _ | .table .., _ | .header .., _ | .unsupported .., _
  | .bare .., _ => .nothing

end

/-! ## Documents -/

/-- Siblings that say which line they start on are searched from there, wherever the window
starts. -/
theorem convertAll_minLine {es : List Element} (hes : ∀ x ∈ es, x.line.isSome) (env : Locating)
    (w : Window) (minLine : Int) (next : Hint) :
    env.convertAll { w with minLine := minLine } next es = env.convertAll w next es := by
  induction es with
  | nil => rfl
  | cons e rest ih =>
    obtain ⟨he, hrest⟩ := List.forall_mem_cons.mp hes
    obtain ⟨n, hn⟩ := Option.isSome_iff_exists.mp he
    rw [convertAll_cons, convertAll_cons, ih hrest, hn]
    rfl

/-- A document is searched from its title and its blocks, wherever the window starts. -/
theorem convert_document_minLine {line : Hint} {top : Option Title} {blocks : List Element}
    {attributes : List (Text × Text)} {source : Text} (htop : ∀ title ∈ top, title.line.isSome)
    (hblocks : ∀ x ∈ blocks, x.line.isSome) (env : Locating) (w : Window) (minLine : Int) :
    env.convert { w with minLine := minLine } (.document line top blocks attributes source)
      = env.convert w (.document line top blocks attributes source) := by
  rw [convert_document, convert_document, convertAll_minLine hblocks]
  cases top with
  | none => rfl
  | some title =>
    obtain ⟨n, hn⟩ := Option.isSome_iff_exists.mp (htop title rfl)
    rw [Option.elim_some, Option.elim_some, hn]
    rfl

/-- A tree is one of the nodes that a document becomes, or the document becomes nothing. -/
theorem document_cases (env : Locating) (skipComments : Bool) {e : Element}
    (he : e.isDocument = true) :
    let nodes := (env.convert ⟨1, env.source.count, skipComments, 0⟩ e).nodes
    nodes = [] ∧ (env.document skipComments e).1 = Node.emptyDocument ∨
      nodes = [(env.document skipComments e).1] ∧
        (env.document skipComments e).1 ≠ Node.emptyDocument := by
  cases e with
  | document line top blocks attributes source =>
    rcases env.document_eq skipComments line top blocks attributes source with hnone | hone
    · exact .inl hnone
    · refine .inr ⟨hone, fun hempty => ?_⟩
      -- A node of a document has children.
      have hplaced := convert_every env.keeps_placed trivial ⟨1, env.source.count, skipComments, 0⟩
        (.document line top blocks attributes source) (Element.every_titledBy_true _)
      rw [hempty] at hone
      obtain ⟨first, -, hfirst, -⟩ := (hplaced Node.emptyDocument (hone ▸ List.mem_cons_self) _
        Node.emptyDocument.mem_preorder_self).parent rfl
      cases hfirst
  | _ => cases he

/-- A document becomes in one text what it becomes in the other, moved, and the same is lost. -/
theorem document_follows (h : Follows P B m env env') (skipComments : Bool) {e : Element}
    (he : e.Every (Element.HintedIn P B)) (hdocument : e.isDocument = true) :
    Node.TreeMoved m (env.document skipComments e).1
      (env'.document skipComments (e.down m.lines)).1 ∧
    (env'.document skipComments (e.down m.lines)).2
      = (env.document skipComments e).2.map (Loss.down m.lines) := by
  have hconvert : env'.convert ⟨1, env'.source.count, skipComments, 0⟩ (e.down m.lines)
      = (env.convert ⟨1, env.source.count, skipComments, 0⟩ e).moved m := by
    rw [← (convert_follows h ⟨1, env.source.count, skipComments, 0⟩ (Int.le_refl 1) rfl e he).moved,
      h.count]
    cases e with
    | document line top blocks attributes source =>
      rw [Element.down, Element.downAll_eq_map]
      refine convert_document_minLine (w := Window.down m.lines
        ⟨1, env.source.count, skipComments, 0⟩) ?_ ?_ env' 1
      · intro title htitle
        obtain ⟨t, ht, rfl⟩ := Option.map_eq_some_iff.mp htitle
        subst ht
        obtain ⟨n, hn, -⟩ := he.self.title (.header t) List.mem_cons_self
        rw [Title.down, show t.line = some n from hn]
        rfl
      · intro x hx
        obtain ⟨y, hy, rfl⟩ := List.mem_map.mp hx
        have hblock := he.self.documents rfl y hy
        obtain ⟨n, hn, -⟩ := (he.part hy).self.hinted hblock
        rw [Element.line_down hblock, hn]
        rfl
    | _ => cases hdocument
  have hnodes := congrArg Converted.nodes hconvert
  refine ⟨?_, congrArg Converted.losses hconvert⟩
  rcases env.document_cases skipComments hdocument with ⟨hnone, hempty⟩ | ⟨hone, hne⟩
  · refine ⟨fun _ => ?_, fun h => absurd hempty h⟩
    rw [Converted.moved, hnone] at hnodes
    rcases env'.document_cases skipComments (e.isDocument_down.trans hdocument) with h | h
    · exact h.2
    · cases hnodes.symm.trans h.1
  · refine ⟨fun h => absurd h hne, fun _ => ?_⟩
    rw [Converted.moved, hone, List.map_singleton] at hnodes
    rcases env'.document_cases skipComments (e.isDocument_down.trans hdocument) with h | h
    · cases hnodes.symm.trans h.1
    · exact (List.singleton_inj.mp (hnodes.symm.trans h.1)).symm

/-- The source that a document records is not looked at. -/
theorem document_withSource (env : Locating) (skipComments : Bool) (source : Text) (e : Element) :
    env.document skipComments (e.withSource source) = env.document skipComments e := by
  cases e with
  | document line top blocks attributes _ =>
    rw [Element.withSource, document, document, convert_document, convert_document]
  | _ => rfl

end Locating

/-- A text whose document is that of another text, moved, is converted to the tree of the other,
moved, if the two are searched alike. -/
theorem Conversion.ofText_follows {P : Char → Prop} {B : Int → Prop} {m : Move} {rules : Rules}
    {t t' : Text} (h : (rules.locating t).Follows P B m (rules.locating t'))
    (hload : (Element.ofText rules.reading rules.marker t').document
      = (Element.ofText rules.reading rules.marker t).document.map fun e =>
        (e.down m.lines).withSource t')
    (hroot : ∀ root, (Element.ofText rules.reading rules.marker t).document = .ok root →
      root.isDocument = true ∧ root.Every (Element.HintedIn P B)) :
    Conversion.Moved m (Conversion.ofText rules t).result (Conversion.ofText rules t').result := by
  rw [Conversion.ofText, Conversion.ofText, hload]
  cases hread : (Element.ofText rules.reading rules.marker t).document with
  | error fault => exact .refused (.fault fault)
  | ok root =>
    obtain ⟨hdocument, hfit⟩ := hroot root hread
    obtain ⟨htree, hlosses⟩ := Locating.document_follows h rules.skipComments hfit hdocument
    have hmarker : ((rules.locating t').document rules.skipComments (root.down m.lines)).2.contains
        Loss.markerNotText
          = ((rules.locating t).document rules.skipComments root).2.contains Loss.markerNotText := by
      rw [hlosses, Bool.eq_iff_iff, List.contains_iff_mem, List.contains_iff_mem, List.mem_map]
      refine ⟨fun h => ?_, fun hloss => ⟨_, hloss, rfl⟩⟩
      obtain ⟨loss, hloss, heq⟩ := h
      cases loss with
      | markerNotText => exact hloss
      | _ => cases heq
    dsimp only [Except.map, Conversion.ofElement, Conversion.ofLosses]
    rw [Locating.document_withSource, hmarker]
    split
    · exact .refused (.fault .markerNotText)
    · exact .tree htree

end Asciidoc
