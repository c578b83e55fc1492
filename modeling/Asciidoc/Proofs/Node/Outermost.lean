import Asciidoc.Proofs.Element.Outside
import Asciidoc.Proofs.Node.InOrder
import Asciidoc.Proofs.Node.Shown
import Asciidoc.Proofs.Reading.Origins

/-!
# Which element a node belongs to

The titles, paragraphs, listings and tables of a converted tree are its outermost nodes with a form
of their own: documents, lists, items and quotes only hold them together. Each of them is what one
element of the document became by itself (`Locating.own`), found through a window that starts with
the line of the element and reaches the last line it stands on, and no element is left out
(`Locating.convertAll_accounts`). A law about what single elements become is so a law about the
tree.
-/

namespace Asciidoc

open Text

/-! ## Outermost nodes -/

namespace Node

variable {α : Type} {n : Node α}

/-- Whether nodes of a kind hold blocks together. -/
def Kind.isContainer : Kind α → Bool
  | .document | .list | .listItem | .blockQuote => true
  | _ => false

/-- The titles, paragraphs, listings and tables of a tree in order, with what is inside them. -/
def outermost (n : Node α) : List (Node α) :=
  if n.kind.isContainer then n.children.attach.flatMap fun m => outermost m.1 else [n]
termination_by sizeOf n
decreasing_by exact sizeOf_lt_of_mem_children m.2

theorem outermost_of_isContainer (h : n.kind.isContainer = true) :
    n.outermost = n.children.flatMap outermost := by
  rw [outermost, if_pos h]
  simp

theorem outermost_of_not_isContainer (h : n.kind.isContainer = false) : n.outermost = [n] := by
  rw [outermost, h, if_neg Bool.false_ne_true]

/-- Nodes that hold no blocks together are outermost. -/
theorem flatMap_outermost {ns : List (Node α)} (h : ∀ n ∈ ns, n.kind.isContainer = false) :
    ns.flatMap outermost = ns := by
  induction ns with
  | nil => rfl
  | cons n rest ih =>
    obtain ⟨hn, hrest⟩ := List.forall_mem_cons.mp h
    rw [List.flatMap_cons, outermost_of_not_isContainer hn, ih hrest, List.singleton_append]

end Node

namespace Locating

variable {env : Locating} {marker : Text} {w : Window} {e : Element}

/-! ## What an element becomes by itself -/

/-- The nodes of an element apart from those of the elements inside it. -/
def own (env : Locating) (w : Window) : Element → List (Node Text)
  | .header title => (env.titled "header".toList title.line title.title 1 w).nodes
  | .sectionBlock line title level _ =>
    (env.titled "section".toList line title (level + 1) w).nodes
  | .paragraph line lines => (env.convert w (.paragraph line lines)).nodes
  | .literal line lines => (env.convert w (.literal line lines)).nodes
  | .listing line lines language => (env.listing line lines language w).nodes
  | .item line text _ _ => (env.itemText line text w).nodes
  | .table line headerRows bodyRows => (env.convert w (.table line headerRows bodyRows)).nodes
  | _ => []

/-- The kinds of the nodes that an element has of its own. -/
inductive HasKind : Element → Node.Kind Text → Prop where
  | header {title : Title} : HasKind (.header title) (.header 1)
  | sectionBlock {line : Hint} {title : Text} {level : Int} {blocks : List Element} :
    HasKind (.sectionBlock line title level blocks) (.header (level + 1))
  | paragraph {line : Hint} {lines : List Text} : HasKind (.paragraph line lines) .paragraph
  | literal {line : Hint} {lines : List Text} : HasKind (.literal line lines) .paragraph
  | listing {line : Hint} {lines : List Text} {language : Option Text} :
    HasKind (.listing line lines language) (.codeBlock language (unlines lines))
  | item {line : Hint} {text : Option Text} {checked : Option Bool} {blocks : List Element} :
    HasKind (.item line text checked blocks) .paragraph
  | table {line : Hint} {headerRows bodyRows : List (List Element)} :
    HasKind (.table line headerRows bodyRows) .table

/-- None of them holds blocks together. -/
theorem HasKind.not_isContainer {kind : Node.Kind Text} (h : HasKind e kind) :
    kind.isContainer = false := by
  cases h <;> rfl

/-- Nodes are what an element of a document becomes by itself, in a window that starts with the line
of the element and reaches all lines it stands on. -/
inductive Becomes (env : Locating) (marker : Text) : Element → List (Node Text) → Prop where
  | document {line : Hint} {top : Option Title} {blocks : List Element}
      {attributes : List (Text × Text)} {source : Text} :
    Becomes env marker (.document line top blocks attributes source) []
  | title {title : Title} {w : Window} (hw : w.IsWide) (hline : title.line = some w.minLine)
      (htitle : env.source.Takes marker w.minLine [title.title] w.minLine)
      (hmax : w.minLine ≤ w.maxLine) :
    Becomes env marker (.header title) (env.own w (.header title))
  | block {e : Element} {w : Window} {low high : Int} (hw : w.IsWide)
      (hline : e.line = some w.minLine) (hspans : env.source.Spans marker low high e)
      (hmax : high ≤ w.maxLine + 1) :
    Becomes env marker e (env.own w e)

end Locating

/-- The outermost nodes that elements became are those of other elements, one after the other. -/
def Converted.Accounts (env : Locating) (marker : Text) (c : Converted) (es : List Element) : Prop :=
  ∃ found : List (List (Node Text)), found.flatten.Perm (c.nodes.flatMap Node.outermost) ∧
    List.Forall₂ (env.Becomes marker) es found

namespace Converted

variable {env : Locating} {marker : Text} {a b c : Converted} {es fs : List Element} {e : Element}

theorem Accounts.nothing : Converted.Accounts env marker {} [] := ⟨[], .refl _, .nil⟩

theorem Accounts.append (ha : a.Accounts env marker es) (hb : b.Accounts env marker fs) :
    (a ++ b).Accounts env marker (es ++ fs) := by
  obtain ⟨found, hfound, hes⟩ := ha
  obtain ⟨others, hothers, hfs⟩ := hb
  refine ⟨found ++ others, ?_, List.rel_append hes hfs⟩
  rw [nodes_append, List.flatMap_append, List.flatten_append]
  exact hfound.append hothers

theorem Accounts.of_perm (ha : a.Accounts env marker es)
    (h : (a.nodes.flatMap Node.outermost).Perm (b.nodes.flatMap Node.outermost)) :
    b.Accounts env marker es := by
  obtain ⟨found, hfound, hes⟩ := ha
  exact ⟨found, hfound.trans h, hes⟩

/-- An element without nodes of its own. -/
theorem Accounts.holding (h : c.Accounts env marker es) (hbecomes : env.Becomes marker e []) :
    c.Accounts env marker (e :: es) := by
  obtain ⟨found, hfound, hes⟩ := h
  exact ⟨[] :: found, hfound, .cons hbecomes hes⟩

end Converted

namespace Locating

variable {env : Locating} {marker : Text} {w : Window}

/-! ## The nodes of a text -/

theorem kind_of_mem_textNode {outer : Node.Kind Text} {what : Text} {line : Hint} {value : Text}
    {expected : List Text} {n : Node Text}
    (h : n ∈ (env.textNode outer what line value expected w).nodes) : n.kind = outer := by
  rw [textNode] at h
  split at h
  · cases h
  · obtain ⟨leaf, -, hn⟩ := Option.bind_eq_some_iff.mp (Option.mem_toList.mp h)
    exact (node?_eq_some hn).1

theorem kind_of_mem_listing {line : Hint} {lines : List Text} {language : Option Text}
    {n : Node Text} (h : n ∈ (env.listing line lines language w).nodes) :
    n.kind = .codeBlock language (unlines lines) := by
  rw [listing] at h
  split at h
  · cases h
  · exact (node?_eq_some (Option.mem_toList.mp h)).1

theorem kind_of_mem_gather {kind : Node.Kind Text} {inside : Converted} {n : Node Text}
    (h : n ∈ (env.gather kind inside).nodes) : n.kind = kind ∧ n.children = inside.nodes := by
  obtain ⟨first, last, -, -, hnode⟩ := around?_eq_some (Option.mem_toList.mp h)
  exact ⟨(node?_eq_some hnode).1, (node?_eq_some hnode).2.2.1⟩

theorem hasKind_of_mem_own {e : Element} {n : Node Text} (h : n ∈ env.own w e) :
    HasKind e n.kind := by
  cases e with
  | header title =>
    rw [kind_of_mem_textNode h]
    exact .header
  | sectionBlock line title level blocks =>
    rw [kind_of_mem_textNode h]
    exact .sectionBlock
  | paragraph line lines =>
    rw [own, convert] at h
    split at h
    · cases h
    · rw [kind_of_mem_textNode h]
      exact .paragraph
  | literal line lines =>
    rw [own, convert] at h
    split at h
    · cases h
    · rw [kind_of_mem_textNode h]
      exact .literal
  | listing line lines language =>
    rw [kind_of_mem_listing h]
    exact .listing
  | item line text checked blocks =>
    rw [own, itemText.eq_def] at h
    split at h
    · rw [kind_of_mem_textNode h]
      exact .item
    · cases h
  | table line headerRows bodyRows =>
    rw [own, convert] at h
    rw [(kind_of_mem_gather h).1]
    exact .table
  | _ => cases h

/-- A single element with its own nodes. -/
theorem accounts_own {e : Element} {c : Converted} (hnodes : c.nodes = env.own w e)
    (hbecomes : env.Becomes marker e (env.own w e)) : c.Accounts env marker [e] := by
  refine ⟨[c.nodes], ?_, .cons (hnodes ▸ hbecomes) .nil⟩
  rw [hnodes, Node.flatMap_outermost fun n hn => (hasKind_of_mem_own hn).not_isContainer]
  simp

/-- A container around placed nodes has the outermost nodes that they have. -/
theorem gather_accounts {kind : Node.Kind Text} (hkind : kind.isContainer = true)
    {inside : Converted} {es : List Element}
    (hplaced : inside.Every (Node.PlacedIn env.source)) (h : inside.Accounts env marker es) :
    (env.gather kind inside).Accounts env marker es := by
  refine h.of_perm ?_
  by_cases hne : inside.nodes = []
  · rw [gather, hne, around?]
    exact .refl _
  · obtain ⟨n, hn, hchildren⟩ := exists_around?_eq_some env kind hne
      fun n hn => hplaced n hn n n.mem_preorder_self
    obtain ⟨_, _, -, -, hnode⟩ := around?_eq_some hn
    have hcontainer : n.kind.isContainer = true := by
      rw [(node?_eq_some hnode).1]
      exact hkind
    rw [gather, hn, Option.toList_some, List.flatMap_singleton,
      Node.outermost_of_isContainer hcontainer, hchildren]

/-- So has an item, whose nodes are put in order. -/
theorem itemAround_accounts {inside : Converted} {es : List Element}
    (hplaced : inside.Every (Node.PlacedIn env.source)) (h : inside.Accounts env marker es) :
    (env.itemAround inside).Accounts env marker es := by
  apply gather_accounts rfl fun n hn => hplaced n (List.mem_mergeSort.mp hn)
  exact h.of_perm ((List.mergeSort_perm _ _).symm.flatMap_right Node.outermost)

/-! ## The nodes of a document -/

-- One case for each kind of element; the runs of siblings and entries go along.
mutual

/-- The outermost nodes of an element are its own and those of the elements inside it. -/
theorem convert_accounts (hmarker : env.marker = .text marker) {w : Window} (hw : w.IsWide)
    {low high : Int} : (e : Element) → env.source.Spans marker low high e →
      e.line = some w.minLine → high ≤ w.maxLine + 1 →
        (env.convert w e).Accounts env marker e.outside
  | .sectionBlock line title level blocks, h, hmin, hmax => by
    have hown : (env.titled "section".toList line title (level + 1) w).Accounts env marker
        [.sectionBlock line title level blocks] := accounts_own rfl (.block hw hmin h hmax)
    obtain rfl : line = some w.minLine := hmin
    cases h with
    | sectionBlock hlow hhigh htitle hblocks =>
      obtain ⟨hne, -⟩ := titled_shows hmarker (level + 1) "section".toList htitle hw (by omega)
      rw [convert, if_neg (by simpa using hne), Element.outside_of_not_isTable rfl]
      exact hown.append (convertAll_accounts hmarker hw none blocks hblocks hmax (by simp))
  | .paragraph line lines, h, hmin, hmax => by
    rw [Element.outside_of_not_isTable rfl]
    exact accounts_own rfl (.block hw hmin h hmax)
  | .literal line lines, h, hmin, hmax => by
    rw [Element.outside_of_not_isTable rfl]
    exact accounts_own rfl (.block hw hmin h hmax)
  | .listing line lines language, h, hmin, hmax => by
    rw [Element.outside_of_not_isTable rfl, convert]
    exact accounts_own rfl (.block hw hmin h hmax)
  | .table line headerRows bodyRows, h, hmin, hmax => by
    rw [Element.outside_of_isTable rfl]
    exact accounts_own rfl (.block hw hmin h hmax)
  | .unorderedList line marks items, h, hmin, hmax => by
    have hholds : env.Becomes marker (.unorderedList line marks items) [] := .block hw hmin h hmax
    rw [convert, Element.outside_of_not_isTable rfl]
    cases h with
    | unorderedList hlow hhigh hitems =>
      exact (gather_accounts rfl (convertAll_placed env w none items)
        (convertAll_accounts hmarker hw none items hitems hmax (by simp))).holding hholds
  | .orderedList line marks items, h, hmin, hmax => by
    have hholds : env.Becomes marker (.orderedList line marks items) [] := .block hw hmin h hmax
    rw [convert, Element.outside_of_not_isTable rfl]
    cases h with
    | orderedList hlow hhigh hitems =>
      exact (gather_accounts rfl (convertAll_placed env w none items)
        (convertAll_accounts hmarker hw none items hitems hmax (by simp))).holding hholds
  | .item line text checked blocks, h, hmin, hmax => by
    have hown : (env.itemText line text w).Accounts env marker [.item line text checked blocks] :=
      accounts_own rfl (.block hw hmin h hmax)
    have hplaced := (itemText_placed env line text w).append (convertAll_placed env w none blocks)
    rw [convert, Element.outside_of_not_isTable rfl]
    cases h with
    | item hlow hhigh htext hne hblocks =>
      exact itemAround_accounts hplaced
        (hown.append (convertAll_accounts hmarker hw none blocks hblocks hmax (by simp)))
    | bareItem hlow hhigh hblocks =>
      exact itemAround_accounts hplaced
        (hown.append (convertAll_accounts hmarker hw none blocks hblocks hmax (by simp)))
  | .descriptionList line delimiter entries, h, hmin, hmax => by
    have hholds : env.Becomes marker (.descriptionList line delimiter entries) [] :=
      .block hw hmin h hmax
    rw [convert, Element.outside_of_not_isTable rfl]
    cases h with
    | descriptionList hlow hhigh hentries =>
      exact (gather_accounts rfl (convertEntries_placed env w entries)
        (convertEntries_accounts hmarker hw entries hentries hmax)).holding hholds
  | .quoteBlock line blocks, h, hmin, hmax => by
    have hholds : env.Becomes marker (.quoteBlock line blocks) [] := .block hw hmin h hmax
    rw [convert, Element.outside_of_not_isTable rfl]
    cases h with
    | quoteBlock hlow hhigh hblocks =>
      exact (gather_accounts rfl (convertAll_placed env w none blocks)
        (convertAll_accounts hmarker hw none blocks hblocks hmax (by simp))).holding hholds
  | .compound line kind blocks, h, hmin, hmax => by
    have hholds : env.Becomes marker (.compound line kind blocks) [] := .block hw hmin h hmax
    rw [convert, Element.outside_of_not_isTable rfl]
    cases h with
    | compound hlow hhigh hblocks =>
      exact (convertAll_accounts hmarker hw none blocks hblocks hmax (by simp)).holding hholds
  | .unsupported line kind, h, hmin, hmax => by
    rw [convert, Element.outside_of_not_isTable rfl]
    exact accounts_own rfl (.block hw hmin h hmax)
  | .cell .., h, _, _ | .header _, h, _, _ | .bare _, h, _, _ | .document .., h, _, _ => nomatch h

/-- The outermost nodes of siblings. -/
theorem convertAll_accounts (hmarker : env.marker = .text marker) {w : Window} (hw : w.IsWide)
    {low high : Int} (next : Hint) : (es : List Element) →
      env.source.SpansAll marker low high es → high ≤ w.maxLine + 1 →
        (∀ line, next = some line → high ≤ line + 1) →
          (env.convertAll w next es).Accounts env marker (es.flatMap Element.outside)
  | [], _, _, _ => .nothing
  | e :: rest, h, hmax, hnext => by
    rw [convertAll_cons, List.flatMap_cons]
    cases h with
    | @cons _ middle _ _ _ hfirst hothers =>
      obtain ⟨line, hline, -, -, hfrom⟩ := hfirst.exists_line
      have hreach := le_following e.line hothers hmax hnext
      exact (convert_accounts hmarker (hw.narrowed _ _) e hfirst (by rw [hline]; rfl)
        hreach).append (convertAll_accounts hmarker hw next rest hothers hmax hnext)

/-- The outermost nodes of a description that may not be there. -/
theorem convertOption_accounts (hmarker : env.marker = .text marker) {w : Window} (hw : w.IsWide)
    {low high : Int} (next : Hint) : (e : Option Element) →
      (∀ x, e = some x → env.source.Spans marker low high x) → high ≤ w.maxLine + 1 →
        (∀ line, next = some line → high ≤ line + 1) →
          (env.convertOption w next e).Accounts env marker (e.toList.flatMap Element.outside)
  | none, _, _, _ => .nothing
  | some e, h, hmax, hnext => by
    rw [convertOption, Option.toList_some, List.flatMap_singleton]
    obtain ⟨line, hline, -, -, -⟩ := (h e rfl).exists_line
    refine convert_accounts hmarker (hw.narrowed _ _) e (h e rfl) (by rw [hline]; rfl) ?_
    cases next with
    | none => exact hmax
    | some line => exact hnext line rfl

/-- The outermost nodes of terms and descriptions. -/
theorem convertEntries_accounts (hmarker : env.marker = .text marker) {w : Window} (hw : w.IsWide)
    {low high : Int} : (entries : List (Entry Element)) →
      env.source.SpansEntries marker low high entries → high ≤ w.maxLine + 1 →
        (env.convertEntries w entries).Accounts env marker
          ((entries.flatMap Entry.items).flatMap Element.outside)
  | [], _, _ => .nothing
  | ⟨terms, description⟩ :: rest, h, hmax => by
    rw [convertEntries_cons, List.flatMap_cons, List.flatMap_append, Entry.items,
      List.flatMap_append]
    cases h with
    | @cons _ behind middle _ _ _ _ _ hterms _ hbehind hdescription _ hothers =>
      have := hothers.le
      exact ((convertAll_accounts hmarker hw _ terms hterms (by omega)
        fun line hline => le_behindTerms hbehind hdescription hothers hline).append
        (convertOption_accounts hmarker hw _ description hdescription (by omega)
          fun line hline => le_entries hothers hline)).append
        (convertEntries_accounts hmarker hw rest hothers hmax)

end

/-- The outermost nodes of a document. -/
theorem document_accounts (env : Locating) (hmarker : env.marker = .text marker) {low high : Int}
    (line : Hint) {top : Option Title} {blocks : List Element} (attributes : List (Text × Text))
    (source : Text)
    (htitle : ∀ title, top = some title → ∃ line, title.line = some line ∧ line < low ∧
      env.source.Takes marker line [title.title] line)
    (hblocks : env.source.SpansAll marker low high blocks) (hhigh : high ≤ env.source.count + 1) :
    (env.convert ⟨1, env.source.count, true, 0⟩
      (.document line top blocks attributes source)).Accounts env marker
        (Element.document line top blocks attributes source).outside := by
  have hw : Window.IsWide ⟨1, env.source.count, true, 0⟩ := ⟨rfl, rfl⟩
  have haccounts := convertAll_accounts hmarker hw none blocks hblocks hhigh (by simp)
  have hplaced := convertAll_placed env ⟨1, env.source.count, true, 0⟩ none blocks
  rw [convert_document, Element.outside_of_not_isTable rfl]
  refine Converted.Accounts.holding ?_ .document
  cases top with
  | none => exact gather_accounts rfl hplaced haccounts
  | some title =>
    obtain ⟨number, hline, -, htakes⟩ := htitle title rfl
    obtain ⟨_, name, level⟩ := title
    obtain rfl : _ = some number := hline
    have htop : (env.titled "header".toList (some number) name 1
        (Window.narrowed ⟨1, env.source.count, true, 0⟩ (some number) none)).Accounts env marker
          [.header ⟨some number, name, level⟩] :=
      accounts_own rfl (.title (hw.narrowed (some number) none) rfl htakes htakes.bounds.2.2)
    have hdepth : (Node.Kind.header 1 : Node.Kind Text).HoldsText fun _ => True := .header trivial
    have htopPlaced := env.keeps_placed.textNode hdepth "header".toList (some number) name [name]
      (Window.narrowed ⟨1, env.source.count, true, 0⟩ (some number) none)
    exact gather_accounts rfl (htopPlaced.append hplaced) (htop.append haccounts)

end Locating

/-- Whenever a text is read without a fault, under any rules that step over comments and any comment
marker without a carriage return, it is converted; the outermost nodes of the tree are those that
the elements outside cells became, and these elements come from the lines they say. -/
theorem Conversion.accounts_ofText {rules : Rules} {marker t : Text} (hskip : rules.skipComments = true)
    (hmarker : rules.marker = .text marker) (hreturn : '\r' ∉ marker) {root : Element}
    (hread : (Element.ofText rules.reading rules.marker t).document = .ok root) :
    ∃ (tree : Node Text) (found : List (List (Node Text))),
      (Conversion.ofText rules t).result = .ok tree ∧ found.flatten.Perm tree.outermost ∧
        List.Forall₂ ((rules.locating t).Becomes marker) root.outside found ∧
          root.Originates (Source.ofText t) marker := by
  have hresult := Conversion.result_ofText hmarker hread
  rw [hmarker, Element.document_ofText] at hread
  have hstart : ((Source.ofText t).start marker).unread <:+ (Source.ofText t).tokens marker :=
    List.suffix_refl _
  have horigin := Cursor.readDocument_originates ⟨rules.reading, marker⟩ hstart t
  obtain ⟨top, blocks, attributes, low, high, hroot, htitle, -, hblocks, hhigh⟩ :=
    Cursor.readDocument_onLines hreturn ⟨rules.reading, marker⟩ hstart t
  obtain ⟨found, hfound, hbecomes⟩ := (rules.locating t).document_accounts hmarker (some 1)
    attributes t htitle hblocks hhigh
  dsimp only at hread
  split at hread
  · obtain rfl := Except.ok.inj hread
    rw [hroot] at hresult horigin ⊢
    refine ⟨_, found, hresult, hfound.trans ?_, hbecomes, horigin⟩
    rw [hskip]
    rcases (rules.locating t).document_eq true (some 1) top blocks attributes t with
      ⟨hnone, hempty⟩ | hone
    · rw [hnone, hempty, Node.outermost_of_isContainer rfl]
      exact .refl _
    · rw [hone, List.flatMap_singleton]
  · cases hread

end Asciidoc
