import Asciidoc.Proofs.Element.Spans
import Asciidoc.Proofs.Node.Placed
import Asciidoc.Proofs.Reading.OnLines
import Mathlib.Data.List.Perm.Subperm

/-!
# All prose is shown

When a text is converted, no prose is lost: every title, every text of an item and every
paragraph has a node of its own in the tree, with the text that the reader reported, from the
line it was reported on to the line that its last line was taken from
(`convert_shows_prose`).

Two things meet here. The reader says on which lines its elements stand, and a search that is
given the first line of a piece of prose and allowed to go to the last finds it. What is left is
that every window does allow it: in a run of siblings it ends with the line of the next sibling,
and that is behind all that the sibling before stands on.
-/

namespace Asciidoc

open Text

/-- A node shows a piece of prose: it is of its kind, around a single piece of text with the
reported text as its value, and it stands where the lines of that text were taken from. -/
structure Prose.ShownBy (s : Source) (marker : Text) (p : Prose) (n : Node Text) : Prop where
  /-- The kind is that of the prose. -/
  kind : n.kind = p.kind
  /-- The value is the reported text. -/
  child : ∃ leaf, n.children = [leaf] ∧ leaf.kind = .str p.text ∧ leaf.children = [] ∧
    leaf.loc = n.loc ∧ leaf.range = n.range
  /-- The node starts on the reported line. -/
  line : p.line = some n.loc.start.line
  /-- The lines of the text were taken from there on, and the last from where the node ends. -/
  takes : s.Takes marker n.loc.start.line p.text.lines n.loc.stop.line
  /-- The columns are those at which the first of these lines starts and the last ends. -/
  locates : s.Locates marker n.loc.start.line p.text.lines n.loc
  /-- The lines of a paragraph are whole lines without their outer blanks. -/
  trims : p.trimmed = true → s.Trims marker n.loc.start.line p.text.lines
  /-- Where the first is a whole line too, the node runs from text to text between the blanks. -/
  columns : p.trimmed = true →
    p.text.lines = (s.taken marker n.loc.start.line p.text.lines.length).map
      (fun entry => trim entry.2) →
        s.RunsOver marker n.loc.start.line p.text.lines.length n.loc

/-- Every piece of prose has a node of its own somewhere in what elements became. -/
def Converted.Shows (s : Source) (marker : Text) (c : Converted) (ps : List Prose) : Prop :=
  ∃ ns, ns.Subperm (Node.preorderAll c.nodes) ∧ List.Forall₂ (Prose.ShownBy s marker) ps ns

namespace Converted

variable {s : Source} {marker : Text} {a b c : Converted} {ps qs : List Prose}

theorem Shows.nothing : c.Shows s marker [] := ⟨[], List.nil_subperm, .nil⟩

theorem Shows.append (ha : a.Shows s marker ps) (hb : b.Shows s marker qs) :
    (a ++ b).Shows s marker (ps ++ qs) := by
  obtain ⟨ns, hns, hps⟩ := ha
  obtain ⟨ms, hms, hqs⟩ := hb
  refine ⟨ns ++ ms, ?_, List.rel_append hps hqs⟩
  rw [nodes_append, Node.preorderAll_eq_flatMap, List.flatMap_append,
    ← Node.preorderAll_eq_flatMap, ← Node.preorderAll_eq_flatMap]
  exact hns.append hms

/-- Nodes in another order show the same. -/
theorem Shows.of_perm (ha : a.Shows s marker ps) (h : a.nodes.Perm b.nodes) :
    b.Shows s marker ps := by
  obtain ⟨ns, hns, hps⟩ := ha
  refine ⟨ns, hns.trans ?_, hps⟩
  rw [Node.preorderAll_eq_flatMap, Node.preorderAll_eq_flatMap]
  exact (h.flatMap_right Node.preorder).subperm

end Converted

/-- A window that steps over comments and searches lines from their start. -/
structure Window.IsWide (w : Window) : Prop where
  skips : w.skipComments = true
  whole : w.startColumn = 0

theorem Window.IsWide.narrowed {w : Window} (hw : w.IsWide) (minLine maxLine : Option Int) :
    (w.narrowed minLine maxLine).IsWide :=
  ⟨hw.skips, hw.whole⟩

namespace Locating

variable {env : Locating} {marker : Text}

/-- Around placed nodes, if there are any, there is a container. -/
theorem exists_around?_eq_some (env : Locating) (kind : Node.Kind Text) {children : List (Node Text)}
    (hne : children ≠ []) (hplaced : ∀ n ∈ children, n.PlacedIn env.source) :
    ∃ n, env.around? kind children = some n ∧ n.children = children := by
  have hfirst := List.head?_eq_some_head hne
  have hlast := List.getLast?_eq_some_getLast hne
  have hloc : env.source.HasLocation
      ⟨(children.head hne).loc.start, (children.getLast hne).loc.stop⟩ :=
    ⟨(hplaced _ (List.head_mem hne)).hasLocation.1,
      (hplaced _ (List.getLast_mem hne)).hasLocation.2⟩
  obtain ⟨r, hr, -⟩ := hloc.range
  simp only [around?, hfirst, hlast, node?, hr, Option.map_some]
  exact ⟨_, rfl, rfl⟩

/-- A container that is put around placed nodes shows what they show. -/
theorem gather_shows {kind : Node.Kind Text} {inside : Converted} {ps : List Prose}
    (hplaced : inside.Every (Node.PlacedIn env.source))
    (h : inside.Shows env.source marker ps) :
    (env.gather kind inside).Shows env.source marker ps := by
  obtain ⟨ns, hns, hps⟩ := h
  by_cases hne : inside.nodes = []
  · rw [hne, Node.preorderAll, List.subperm_nil] at hns
    subst hns
    cases hps
    exact .nothing
  · obtain ⟨n, hn, hchildren⟩ := exists_around?_eq_some env kind hne
      fun n hn => hplaced n hn n n.mem_preorder_self
    refine ⟨ns, ?_, hps⟩
    rw [gather, hn, Option.toList_some, Node.preorderAll, Node.preorderAll, List.append_nil,
      Node.preorder_eq, hchildren]
    exact hns.cons_right n

/-- An item shows what is inside it, in whatever order. -/
theorem itemAround_shows {inside : Converted} {ps : List Prose}
    (hplaced : inside.Every (Node.PlacedIn env.source))
    (h : inside.Shows env.source marker ps) :
    (env.itemAround inside).Shows env.source marker ps :=
  gather_shows (fun n hn => hplaced n (List.mem_mergeSort.mp hn))
    (h.of_perm (List.mergeSort_perm _ _).symm)

/-- A node around a piece of text that is found has the text as its only child, and both are where
it is found. -/
theorem exists_textNode_eq {what : Text} {line : Hint} {expected : List Text} {w : Window}
    {loc : Location} (hfind : env.find what line expected w = .ok loc) (outer : Node.Kind Text)
    (value : Text) :
    ∃ n leaf, (env.textNode outer what line value expected w).nodes = [n] ∧ n.kind = outer ∧
      n.loc = loc ∧ n.children = [leaf] ∧ leaf.kind = .str value ∧ leaf.children = [] ∧
        leaf.loc = loc ∧ leaf.range = n.range := by
  obtain ⟨r, hr, -⟩ := (Source.find?_hasLocation (find_eq_ok hfind)).range
  rw [textNode, hfind]
  simp only [node?, hr, Option.map_some, Option.bind_some, Option.toList_some]
  exact ⟨_, _, rfl, rfl, rfl, rfl, rfl, rfl, rfl, rfl⟩

/-- What is searched from its first line on, in a window that reaches its last, is found. -/
theorem exists_find_eq_ok (hmarker : env.marker = .text marker) {pieces : List Text}
    {line last : Int} {w : Window} (what : Text) (hint : Hint)
    (htakes : env.source.Takes marker line pieces last) (hw : w.IsWide) (hmin : w.minLine = line)
    (hmax : last ≤ w.maxLine) :
    ∃ loc, env.find what hint pieces w = .ok loc ∧
      env.source.Locates marker line pieces loc := by
  obtain ⟨loc, hfound, hlocates⟩ := htakes.exists_find?_eq_some hw.skips hw.whole hmin hmax
  refine ⟨loc, ?_, hlocates⟩
  rw [find_eq hmarker, hfound]

/-- A piece of prose that is searched from its first line on, in a window that reaches its last,
is shown. -/
theorem textNode_shows (hmarker : env.marker = .text marker) {p : Prose} {line last : Int}
    {w : Window} (what : Text) (hline : p.line = some line)
    (htakes : env.source.Takes marker line p.text.lines last)
    (htrims : p.trimmed = true → env.source.Trims marker line p.text.lines) (hw : w.IsWide)
    (hmin : w.minLine = line) (hmax : last ≤ w.maxLine) :
    (env.textNode p.kind what p.line p.text p.text.lines w).nodes ≠ [] ∧
      (env.textNode p.kind what p.line p.text p.text.lines w).Shows env.source marker [p] := by
  obtain ⟨loc, hfind, hlocates⟩ := exists_find_eq_ok hmarker what p.line htakes hw hmin hmax
  obtain ⟨n, leaf, hnodes, hkind, rfl, hchildren, hleaf⟩ :=
    exists_textNode_eq hfind p.kind p.text
  have hstart := hlocates.start_line htakes
  have hstop := hlocates.stop_line htakes
  have hshown : p.ShownBy env.source marker n := by
    refine ⟨hkind, ⟨leaf, hchildren, hleaf⟩, ?_, ?_, ?_, ?_, ?_⟩
    · exact hline.trans (congrArg some hstart.symm)
    · rw [hstart, hstop]
      exact htakes
    · rw [hstart]
      exact hlocates
    · intro htrimmed
      rw [hstart]
      exact htrims htrimmed
    · intro htrimmed hwhole
      rw [hstart] at hwhole ⊢
      exact (htrims htrimmed).runsOver hlocates hwhole
  refine ⟨by rw [hnodes]; exact List.cons_ne_nil _ _, [n], ?_, .cons hshown .nil⟩
  rw [hnodes]
  exact List.singleton_subperm_iff.mpr
    (Node.mem_preorderAll.mpr ⟨n, List.mem_singleton_self n, n.mem_preorder_self⟩)

/-- A title is shown. -/
theorem titled_shows (hmarker : env.marker = .text marker) {title : Text} (depth : Int)
    {w : Window} (what : Text) (htakes : env.source.Takes marker w.minLine [title] w.minLine)
    (hw : w.IsWide) (hmax : w.minLine ≤ w.maxLine) :
    (env.titled what (some w.minLine) title depth w).nodes ≠ [] ∧
      (env.titled what (some w.minLine) title depth w).Shows env.source marker
        [{ kind := .header depth, line := some w.minLine, text := title }] := by
  have hlines : title.lines = [title] := htakes.lines_eq
  rw [titled, ← hlines]
  exact textNode_shows hmarker (p := { kind := .header depth, line := _, text := title }) what rfl
    (hlines ▸ htakes) (by simp) hw rfl hmax

/-- A paragraph of lines is shown. -/
theorem paragraph_shows (hmarker : env.marker = .text marker) {lines : List Text} {last : Int}
    {w : Window} (what : Text) (trimmed : Bool)
    (htakes : env.source.Takes marker w.minLine lines last)
    (htrims : trimmed = true → env.source.Trims marker w.minLine lines) (hw : w.IsWide)
    (hmax : last ≤ w.maxLine) :
    (env.paragraph what (some w.minLine) (unlines lines) w).Shows env.source marker
      [{ kind := .paragraph, line := some w.minLine, text := unlines lines,
         trimmed := trimmed }] := by
  have hlines : (unlines lines).lines = lines :=
    lines_unlines htakes.pieces_ne_nil htakes.not_mem
  exact (textNode_shows hmarker
    (p := { kind := .paragraph, line := _, text := unlines lines, trimmed := trimmed }) what rfl
    (hlines.symm ▸ htakes) (hlines.symm ▸ htrims) hw rfl hmax).2

/-- The text of an item is shown. -/
theorem itemText_shows (hmarker : env.marker = .text marker) {text : Text} {last : Int}
    {w : Window} (htakes : env.source.Takes marker w.minLine text.lines last) (hne : text ≠ [])
    (hw : w.IsWide) (hmax : last ≤ w.maxLine) :
    (env.itemText (some w.minLine) (some text) w).Shows env.source marker
      [{ kind := .paragraph, line := some w.minLine, text := text }] := by
  obtain ⟨c, rest, rfl⟩ := List.exists_cons_of_ne_nil hne
  exact (textNode_shows hmarker (p := { kind := .paragraph, line := _, text := c :: rest })
    "list_item".toList rfl htakes (by simp) hw rfl hmax).2

theorem convert_placedIn (env : Locating) (w : Window) (e : Element) :
    (env.convert w e).Every (Node.PlacedIn env.source) :=
  convert_every env.keeps_placed trivial w e e.every_titledBy_true

theorem convertAll_placed (env : Locating) (w : Window) (next : Hint) (es : List Element) :
    (env.convertAll w next es).Every (Node.PlacedIn env.source) :=
  convertAll_every env.keeps_placed trivial w next es fun x _ => x.every_titledBy_true

theorem itemText_placed (env : Locating) (line : Hint) (text : Option Text) (w : Window) :
    (env.itemText line text w).Every (Node.PlacedIn env.source) :=
  (env.keeps_placed.closedFor w.skipComments).itemText line text rfl

theorem convertEntries_placed (env : Locating) (w : Window) (entries : List (Entry Element)) :
    (env.convertEntries w entries).Every (Node.PlacedIn env.source) :=
  convertEntries_closedFor (env.keeps_placed.closedFor w.skipComments) trivial w rfl entries
    fun _ _ x _ => x.every_titledBy_true

variable {s : Source} {w : Window} {low middle high : Int}

/-- The window of a sibling reaches up to the lines that the others stand on. -/
theorem le_following {rest : List Element} {next : Hint} (own : Hint)
    (h : s.SpansAll marker middle high rest) (hmax : high ≤ w.maxLine + 1)
    (hnext : ∀ line, next = some line → high ≤ line + 1) :
    middle ≤ (w.narrowed own (following next rest)).maxLine + 1 := by
  cases h with
  | nil hle =>
    cases next with
    | none => exact Int.le_trans hle hmax
    | some line => exact Int.le_trans hle (hnext line rfl)
  | cons hfirst _ =>
    obtain ⟨line, hline, hlow, -⟩ := hfirst.exists_line
    simp only [Window.narrowed, following, List.head?_cons, Option.elim_some, hline,
      Option.getD_some]
    omega

/-- The first of the terms and descriptions of entries is not before the lines they stand on, or
on the line before if it is a description. -/
theorem le_entries {rest : List (Entry Element)} {line : Int}
    (h : s.SpansEntries marker middle high rest)
    (hline : (rest.flatMap Entry.items).head?.bind Element.line = some line) :
    middle ≤ line + 1 := by
  induction rest generalizing middle with
  | nil => cases hline
  | cons entry rest ih =>
    cases h with
    | @cons _ behind last _ terms description _ _ hterms _ hbehind hdescription _ hothers =>
      rw [List.flatMap_cons, Entry.items] at hline
      have := hterms.le
      cases hterms with
      | cons hfirst _ =>
        obtain ⟨line', hline', hlow, -⟩ := hfirst.exists_line
        obtain rfl : line' = line := Option.some.inj (hline'.symm.trans hline)
        omega
      | nil =>
        cases description with
        | none =>
          have := ih hothers hline
          omega
        | some d =>
          obtain ⟨line', hline', hlow, -⟩ := (hdescription d rfl).exists_line
          obtain rfl : line' = line := Option.some.inj (hline'.symm.trans hline)
          omega

/-- What comes behind the terms of an entry is not before the lines behind them, or on the line before
if it is a description. -/
theorem le_behindTerms {rest : List (Entry Element)} {description : Option Element}
    {behind line : Int} (hbehind : behind ≤ middle)
    (hdescription : ∀ e, description = some e → s.Spans marker (behind - 1) middle e)
    (hothers : s.SpansEntries marker middle high rest)
    (hline : description.elim ((rest.flatMap Entry.items).head?.bind Element.line) Element.line
      = some line) : behind ≤ line + 1 := by
  cases description with
  | none =>
    have := le_entries hothers hline
    omega
  | some d =>
    obtain ⟨line', hline', hlow, -⟩ := (hdescription d rfl).exists_line
    obtain rfl : line' = line := Option.some.inj (hline'.symm.trans hline)
    omega

-- One case for each kind of element; the runs of siblings and entries go along.
mutual

/-- What an element becomes shows its prose, if the window starts with the line of the element and
reaches all lines it stands on. -/
theorem convert_shows (hmarker : env.marker = .text marker) {w : Window} (hw : w.IsWide)
    {low high : Int} : (e : Element) → env.source.Spans marker low high e →
      e.line = some w.minLine → high ≤ w.maxLine + 1 →
        (env.convert w e).Shows env.source marker (e.prose env.source marker)
  | .sectionBlock line title level blocks, h, hmin, hmax => by
    obtain rfl : line = some w.minLine := hmin
    cases h with
    | sectionBlock hlow hhigh htitle hblocks =>
      obtain ⟨hne, hshows⟩ := titled_shows hmarker (level + 1) "section".toList htitle hw
        (by omega)
      rw [convert, Element.prose, if_neg (by simpa using hne)]
      exact hshows.append
        (convertAll_shows hmarker hw none blocks hblocks hmax (by simp))
  | .paragraph line lines, h, hmin, hmax => by
    obtain rfl : line = some w.minLine := hmin
    cases h with
    | paragraph hlow hhigh hlines htrims =>
      rw [convert, if_neg (by simpa using hlines.pieces_ne_nil)]
      exact paragraph_shows hmarker "paragraph".toList true hlines (fun _ => htrims) hw (by omega)
  | .literal line lines, h, hmin, hmax => by
    obtain rfl : line = some w.minLine := hmin
    rw [Element.prose]
    cases h with
    | literal hlow hhigh hopens hlines =>
      split
      · exact .nothing
      · rw [convert, if_neg (by simpa using hlines.pieces_ne_nil)]
        exact paragraph_shows hmarker "literal".toList false hlines (by simp) hw (by omega)
    | delimited hlow hhigh hopens hlines =>
      rw [if_pos (by simpa using hopens)]
      exact .nothing
  | .unorderedList line marks items, h, hmin, hmax => by
    cases h with
    | unorderedList hlow hhigh hitems =>
      rw [convert, Element.prose]
      exact gather_shows (convertAll_placed env w none items)
        (convertAll_shows hmarker hw none items hitems hmax (by simp))
  | .orderedList line marks items, h, hmin, hmax => by
    cases h with
    | orderedList hlow hhigh hitems =>
      rw [convert, Element.prose]
      exact gather_shows (convertAll_placed env w none items)
        (convertAll_shows hmarker hw none items hitems hmax (by simp))
  | .item line text checked blocks, h, hmin, hmax => by
    obtain rfl : line = some w.minLine := hmin
    have hplaced := (itemText_placed env (some w.minLine) text w).append
      (convertAll_placed env w none blocks)
    rw [convert, Element.prose]
    cases h with
    | item hlow hhigh htext hne hblocks =>
      have := hblocks.le
      exact itemAround_shows hplaced ((itemText_shows hmarker htext hne hw (by omega)).append
        (convertAll_shows hmarker hw none blocks hblocks hmax (by simp)))
    | bareItem hlow hhigh hblocks =>
      exact itemAround_shows hplaced
        (convertAll_shows hmarker hw none blocks hblocks hmax (by simp))
  | .descriptionList line delimiter entries, h, hmin, hmax => by
    cases h with
    | descriptionList hlow hhigh hentries =>
      rw [convert, Element.prose]
      exact gather_shows (convertEntries_placed env w entries)
        (convertEntries_shows hmarker hw entries hentries hmax)
  | .quoteBlock line blocks, h, hmin, hmax => by
    cases h with
    | quoteBlock hlow hhigh hblocks =>
      rw [convert, Element.prose]
      exact gather_shows (convertAll_placed env w none blocks)
        (convertAll_shows hmarker hw none blocks hblocks hmax (by simp))
  | .compound line kind blocks, h, hmin, hmax => by
    cases h with
    | compound hlow hhigh hblocks =>
      rw [convert, Element.prose]
      exact convertAll_shows hmarker hw none blocks hblocks hmax (by simp)
  | .listing .., _, _, _ | .table .., _, _, _ | .cell .., _, _, _ | .header _, _, _, _
  | .unsupported .., _, _, _ | .bare _, _, _, _ => by
    rw [Element.prose]
    exact .nothing
  | .document .., h, _, _ => nomatch h

/-- What siblings become shows their prose, if the window and the line of what comes next are not
before the last line they stand on. -/
theorem convertAll_shows (hmarker : env.marker = .text marker) {w : Window} (hw : w.IsWide)
    {low high : Int} (next : Hint) : (es : List Element) →
      env.source.SpansAll marker low high es → high ≤ w.maxLine + 1 →
        (∀ line, next = some line → high ≤ line + 1) →
          (env.convertAll w next es).Shows env.source marker
            (Element.proseAll env.source marker es)
  | [], _, _, _ => .nothing
  | e :: rest, h, hmax, hnext => by
    rw [convertAll_cons, Element.proseAll]
    cases h with
    | @cons _ middle _ _ _ hfirst hothers =>
      obtain ⟨line, hline, -, -, hfrom⟩ := hfirst.exists_line
      have hreach := le_following e.line hothers hmax hnext
      exact (convert_shows hmarker (hw.narrowed _ _) e hfirst (by rw [hline]; rfl) hreach).append
        (convertAll_shows hmarker hw next rest hothers hmax hnext)

/-- What an element becomes that may not be there shows its prose. -/
theorem convertOption_shows (hmarker : env.marker = .text marker) {w : Window} (hw : w.IsWide)
    {low high : Int} (next : Hint) : (e : Option Element) →
      (∀ x, e = some x → env.source.Spans marker low high x) → high ≤ w.maxLine + 1 →
        (∀ line, next = some line → high ≤ line + 1) →
          (env.convertOption w next e).Shows env.source marker
            (Element.proseOption env.source marker e)
  | none, _, _, _ => .nothing
  | some e, h, hmax, hnext => by
    rw [convertOption, Element.proseOption]
    obtain ⟨line, hline, -, -, -⟩ := (h e rfl).exists_line
    refine convert_shows hmarker (hw.narrowed _ _) e (h e rfl) (by rw [hline]; rfl) ?_
    cases next with
    | none => exact hmax
    | some line => exact hnext line rfl

/-- What entries become shows the prose of their terms and descriptions. -/
theorem convertEntries_shows (hmarker : env.marker = .text marker) {w : Window} (hw : w.IsWide)
    {low high : Int} : (entries : List (Entry Element)) →
      env.source.SpansEntries marker low high entries → high ≤ w.maxLine + 1 →
        (env.convertEntries w entries).Shows env.source marker
          (Element.proseEntries env.source marker entries)
  | [], _, _ => .nothing
  | ⟨terms, description⟩ :: rest, h, hmax => by
    rw [convertEntries_cons, Element.proseEntries]
    cases h with
    | @cons _ behind middle _ _ _ _ _ hterms _ hbehind hdescription _ hothers =>
      have := hothers.le
      exact ((convertAll_shows hmarker hw _ terms hterms (by omega)
        fun line hline => le_behindTerms hbehind hdescription hothers hline).append
        (convertOption_shows hmarker hw _ description hdescription (by omega)
          fun line hline => le_entries hothers hline)).append
        (convertEntries_shows hmarker hw rest hothers hmax)

end

/-- What a document becomes: a node around its title, if it has one, and its blocks. -/
theorem convert_document (env : Locating) (w : Window) (line : Hint) (top : Option Title)
    (blocks : List Element) (attributes : List (Text × Text)) (source : Text) :
    env.convert w (.document line top blocks attributes source) =
      env.gather .document ((top.elim {} fun title =>
        env.titled "header".toList title.line title.title 1 (w.narrowed title.line none))
          ++ env.convertAll w none blocks) := by
  cases top <;> rw [convert] <;> rfl

/-- A document becomes one node or none, and the tree is that node or the empty document. -/
theorem document_eq (env : Locating) (skipComments : Bool) (line : Hint) (top : Option Title)
    (blocks : List Element) (attributes : List (Text × Text)) (source : Text) :
    let root : Element := .document line top blocks attributes source
    let nodes := (env.convert ⟨1, env.source.count, skipComments, 0⟩ root).nodes
    nodes = [] ∧ (env.document skipComments root).1 = Node.emptyDocument ∨
      nodes = [(env.document skipComments root).1] := by
  intro root nodes
  have hnodes : nodes = (env.around? .document _).toList :=
    congrArg Converted.nodes (convert_document env _ line top blocks attributes source)
  cases haround : env.around? .document _ with
  | none =>
    have hnone : nodes = [] := by rw [hnodes, haround]; rfl
    refine .inl ⟨hnone, ?_⟩
    rw [document]
    dsimp only
    split
    · rename_i n rest h
      cases hnone.symm.trans h
    · rfl
  | some n =>
    have hone : nodes = [n] := by rw [hnodes, haround]; rfl
    obtain ⟨first, last, -, -, hnode⟩ := around?_eq_some haround
    have hkind : n.kind.isDocument = true := by rw [(node?_eq_some hnode).1]; rfl
    refine .inr ?_
    rw [document]
    dsimp only
    split
    · rename_i m rest h
      obtain ⟨rfl, -⟩ := List.cons.inj (hone.symm.trans h)
      rw [if_pos hkind]
      exact hone
    · rename_i h
      cases hone.symm.trans h

/-- The prose of a document is shown by what it becomes. -/
theorem document_shows (env : Locating) (hmarker : env.marker = .text marker) (line : Hint)
    {top : Option Title} {blocks : List Element} (attributes : List (Text × Text)) (source : Text)
    (htitle : ∀ title, top = some title → ∃ line, title.line = some line ∧ line < low ∧
      env.source.Takes marker line [title.title] line)
    (hblocks : env.source.SpansAll marker low high blocks) (hhigh : high ≤ env.source.count + 1) :
    (env.convert ⟨1, env.source.count, true, 0⟩
      (.document line top blocks attributes source)).Shows env.source marker
        ((Element.document line top blocks attributes source).prose env.source marker) := by
  have hw : Window.IsWide ⟨1, env.source.count, true, 0⟩ := ⟨rfl, rfl⟩
  have hshows := convertAll_shows hmarker hw none blocks hblocks hhigh (by simp)
  have hplaced := convertAll_placed env ⟨1, env.source.count, true, 0⟩ none blocks
  rw [convert_document, Element.prose]
  cases top with
  | none => exact gather_shows hplaced hshows
  | some title =>
    obtain ⟨number, hline, -, htakes⟩ := htitle title rfl
    have hbounds := htakes.bounds
    have htop := (titled_shows hmarker 1 "header".toList
      (w := Window.narrowed ⟨1, env.source.count, true, 0⟩ (some number) none) htakes
      (hw.narrowed _ _) hbounds.2.2).2
    have hdepth : (Node.Kind.header 1 : Node.Kind Text).HoldsText fun _ => True :=
      .header trivial
    have htopPlaced := env.keeps_placed.textNode hdepth "header".toList title.line
      title.title [title.title] (Window.narrowed ⟨1, env.source.count, true, 0⟩ title.line none)
    refine gather_shows (htopPlaced.append hplaced) (Converted.Shows.append ?_ hshows)
    rw [Option.elim_some, Option.map_some, Option.toList_some, Title.prose, hline]
    exact htop

end Locating

/-- A text that is read without a fault is converted, if the comment marker is a text. -/
theorem Conversion.result_ofText {rules : Rules} {marker t : Text} {root : Element}
    (hmarker : rules.marker = .text marker)
    (hread : (Element.ofText rules.reading rules.marker t).document = .ok root) :
    (Conversion.ofText rules t).result
      = .ok ((rules.locating t).document rules.skipComments root).1 := by
  rw [Conversion.ofText, hread]
  dsimp only [Conversion.ofElement]
  rw [Conversion.ofLosses, if_neg]
  rw [List.contains_iff_mem]
  exact (rules.locating t).markerNotText_not_mem hmarker _ root

/-- No prose of a text is lost. Whenever a text is read without a fault, under any rules that step
over comments and any comment marker without a carriage return, it is converted, and every piece
of prose of the document that was read has a node of its own in the tree: of the kind it is to
have, around the text as the reader reported it, on the lines this text was taken from. -/
theorem convert_shows_prose (rules : Rules) (marker t : Text) (hskip : rules.skipComments = true)
    (hmarker : rules.marker = .text marker) (hreturn : '\r' ∉ marker) (root : Element)
    (hread : (Element.ofText rules.reading rules.marker t).document = .ok root) :
    ∃ tree nodes, (Conversion.ofText rules t).result = .ok tree ∧
      nodes.Subperm tree.preorder ∧
      List.Forall₂ (Prose.ShownBy (Source.ofText t) marker)
        (root.prose (Source.ofText t) marker) nodes := by
  have hresult := Conversion.result_ofText hmarker hread
  rw [hmarker, Element.document_ofText] at hread
  obtain ⟨top, blocks, attributes, low, high, hroot, htitle, -, hblocks, hhigh⟩ :=
    Cursor.readDocument_onLines hreturn ⟨rules.reading, marker⟩
      (c := (Source.ofText t).start marker) (List.suffix_refl _) t
  obtain ⟨nodes, hnodes, hshown⟩ := (rules.locating t).document_shows hmarker (some 1)
    attributes t htitle hblocks hhigh
  dsimp only at hread
  split at hread
  · obtain rfl := Except.ok.inj hread
    rw [hroot] at hresult ⊢
    refine ⟨_, nodes, hresult, hnodes.trans ?_, hshown⟩
    rw [hskip]
    rcases (rules.locating t).document_eq true (some 1) top blocks attributes t with
      ⟨hnone, -⟩ | hone
    · rw [hnone]
      exact List.nil_subperm
    · rw [hone, Node.preorderAll, Node.preorderAll, List.append_nil]
  · cases hread

/-- A comment between the lines of a paragraph does not tear it. -/
theorem convert_shows_around_comment :
    ∃ tree nodes, (Conversion.ofText {} ['a', '\n', '/', '/', '\n', ' ', 'b']).result = .ok tree ∧
      nodes.Subperm tree.preorder ∧
      List.Forall₂ (Prose.ShownBy (Source.ofText ['a', '\n', '/', '/', '\n', ' ', 'b'])
        Marker.slashes)
        [{ kind := .paragraph, line := some 1, text := ['a', '\n', 'b'], trimmed := true }] nodes :=
  convert_shows_prose {} Marker.slashes ['a', '\n', '/', '/', '\n', ' ', 'b'] rfl rfl (by decide)
    (.document (some 1) none [.paragraph (some 1) [['a'], ['b']]] []
      ['a', '\n', '/', '/', '\n', ' ', 'b'])
    (by with_unfolding_all rfl)

end Asciidoc
