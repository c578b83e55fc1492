import Asciidoc.Proofs.Element.Parts
import Asciidoc.Proofs.Node.Preorder

/-!
# What every conversion keeps

Everything that elements become is put together by a few constructions: one run after another, a
container around what elements became, a node around a piece of text that was found, a listing
that was found. What is true of them and kept by them is true of everything an element becomes,
whatever the element tree and the window (`convert_closedFor`). This is the only place where the
kinds of elements are gone through for that. Windows are narrowed on the way, but go on to pass
comments by or not, so what is kept may hang on that.

Most often it is a property of single nodes that is kept (`convert_every`). Depths of titles are
the one thing in a node that comes from the element alone, so a property may ask for something of
them: `Element.TitledBy` says what. What is lost is the other half: with a comment marker that is
a text, no loss ever blames the marker (`markerNotText_not_mem`).
-/

namespace Asciidoc

open Text

/-- The depth of the title of a section is one of those that are asked for. -/
def Element.TitledBy (D : Int → Prop) : Element → Prop
  | .sectionBlock _ _ level _ => D (level + 1)
  | _ => True

/-- Where nothing is asked for, every title will do. -/
theorem Element.every_titledBy_true (e : Element) : e.Every (Element.TitledBy fun _ => True) :=
  Element.every_of_forall (fun x => by cases x <;> trivial) e

/-- The kinds of nodes that are made around a piece of text, with depths asked for. -/
inductive Node.Kind.HoldsText (D : Int → Prop) : Node.Kind Text → Prop where
  | header {depth : Int} (h : D depth) : HoldsText D (.header depth)
  | paragraph : HoldsText D .paragraph
  | tableCell : HoldsText D .tableCell

/-- The kinds of nodes that are made around what elements became. -/
inductive Node.Kind.HoldsNodes : Node.Kind Text → Prop where
  | document : HoldsNodes .document
  | list : HoldsNodes .list
  | listItem : HoldsNodes .listItem
  | blockQuote : HoldsNodes .blockQuote
  | table : HoldsNodes .table
  | tableRow : HoldsNodes .tableRow
  | tableCell : HoldsNodes .tableCell

namespace Locating

/-- What is true of everything elements become in windows of which all or none pass comments by,
because every construction there keeps it. A piece of text is searched line by line or, when it is
to stand in one line, as it is. -/
structure ClosedFor (env : Locating) (skip : Bool) (D : Int → Prop) (R : Converted → Prop) :
    Prop where
  /-- Nothing, with losses that blame the text. -/
  lost : ∀ {losses : List Loss}, .markerNotText ∉ losses → R ⟨[], losses⟩
  /-- One run after another. -/
  append : ∀ {a b : Converted}, R a → R b → R (a ++ b)
  /-- A container. -/
  gather : ∀ {kind : Node.Kind Text} {inside : Converted}, kind.HoldsNodes → R inside →
    R (env.gather kind inside)
  /-- An item, whose children are put in order. -/
  itemAround : ∀ {inside : Converted}, R inside → R (env.itemAround inside)
  /-- A cell, which may turn out to be empty. -/
  cellAround : ∀ (line : Hint) {inside : Converted}, R inside → R (env.cellAround line inside)
  /-- A node around a piece of text. -/
  textNode : ∀ {outer : Node.Kind Text}, outer.HoldsText D →
    ∀ (what : Text) (line : Hint) {value : Text} {expected : List Text} {w : Window},
      expected = value.lines ∨ expected = [value] → w.skipComments = skip →
        R (env.textNode outer what line value expected w)
  /-- A listing. -/
  listing : ∀ (line : Hint) (lines : List Text) (language : Option Text) (w : Window),
    R (env.listing line lines language w)

/-- A property of nodes that every construction of nodes keeps. -/
structure Keeps (env : Locating) (D : Int → Prop) (P : Node Text → Prop) : Prop where
  /-- A container around nodes that have it. -/
  gather : ∀ {kind : Node.Kind Text} {inside : Converted}, kind.HoldsNodes → inside.Every P →
    (env.gather kind inside).Every P
  /-- A node around a piece of text. -/
  textNode : ∀ {outer : Node.Kind Text}, outer.HoldsText D →
    ∀ (what : Text) (line : Hint) (value : Text) (expected : List Text) (w : Window),
      (env.textNode outer what line value expected w).Every P
  /-- A listing. -/
  listing : ∀ (line : Hint) (lines : List Text) (language : Option Text) (w : Window),
    (env.listing line lines language w).Every P

variable {env : Locating} {skip : Bool} {D : Int → Prop} {P : Node Text → Prop}
  {R : Converted → Prop} {w : Window}

/-- Putting the children of an item in order changes none of them, and an empty cell has no
nodes at all. -/
theorem ClosedFor.of_every
    (hgather : ∀ {kind : Node.Kind Text} {inside : Converted}, kind.HoldsNodes →
      inside.Every P → (env.gather kind inside).Every P)
    (htextNode : ∀ {outer : Node.Kind Text}, outer.HoldsText D →
      ∀ (what : Text) (line : Hint) {value : Text} {expected : List Text} {w : Window},
        expected = value.lines ∨ expected = [value] → w.skipComments = skip →
          (env.textNode outer what line value expected w).Every P)
    (hlisting : ∀ (line : Hint) (lines : List Text) (language : Option Text) (w : Window),
      (env.listing line lines language w).Every P) :
    env.ClosedFor skip D (Converted.Every P) where
  lost _ := Converted.every_of_nodes_eq_nil rfl
  append ha hb := ha.append hb
  gather := hgather
  itemAround hinside := hgather .listItem fun n hn => hinside n (List.mem_mergeSort.mp hn)
  cellAround line inside hinside := by
    rw [Locating.cellAround]
    split
    · exact Converted.every_of_nodes_eq_nil rfl
    · exact hgather .tableCell hinside
  textNode := htextNode
  listing := hlisting

theorem Keeps.closedFor (h : env.Keeps D P) (skip : Bool) :
    env.ClosedFor skip D (Converted.Every P) :=
  .of_every h.gather (fun houter what line _ _ _ _ _ => h.textNode houter what line _ _ _) h.listing

theorem ClosedFor.nothing (h : env.ClosedFor skip D R) : R {} := h.lost (by simp)

theorem ClosedFor.unconverted (h : env.ClosedFor skip D R) (kind : Text) (line : Hint) :
    R ⟨[], [.noNodes kind line]⟩ :=
  h.lost (by simp)

theorem ClosedFor.paragraph (h : env.ClosedFor skip D R) (what : Text) (line : Hint) (value : Text)
    (hw : w.skipComments = skip) : R (env.paragraph what line value w) :=
  h.textNode .paragraph what line (.inl rfl) hw

theorem ClosedFor.itemText (h : env.ClosedFor skip D R) (line : Hint) (text : Option Text)
    (hw : w.skipComments = skip) : R (env.itemText line text w) := by
  unfold Locating.itemText
  split
  · exact h.paragraph _ _ _ hw
  · exact h.nothing

/-! ## Nodes that are made -/

/-- A container and everything in it. -/
theorem gather_every {kind : Node.Kind Text} {inside : Converted} (hinside : inside.Every P)
    (h : ∀ n, env.around? kind inside.nodes = some n → P n) : (env.gather kind inside).Every P := by
  rw [Locating.gather]
  cases haround : env.around? kind inside.nodes with
  | none => exact Converted.every_of_nodes_eq_nil rfl
  | some n =>
    obtain ⟨_, _, -, -, hnode⟩ := around?_eq_some haround
    exact hinside.around (node?_eq_some hnode).2.2.1 (h n haround)

/-- A piece of text that is found and the node around it. -/
theorem textNode_every {outer : Node.Kind Text} {what : Text} {line : Hint} {value : Text}
    {expected : List Text}
    (h : ∀ loc leaf n, env.find what line expected w = .ok loc →
      env.node? (.str value) loc [] = some leaf → env.node? outer loc [leaf] = some n →
        P leaf ∧ P n) :
    (env.textNode outer what line value expected w).Every P := by
  rw [Locating.textNode]
  split
  · exact Converted.every_of_nodes_eq_nil rfl
  · rename_i loc hfind
    cases hleaf : env.node? (.str value) loc [] with
    | none => exact Converted.every_of_nodes_eq_nil rfl
    | some leaf =>
      cases hnode : env.node? outer loc [leaf] with
      | none => exact Converted.every_of_nodes_eq_nil (by simp [hnode])
      | some n =>
        obtain ⟨hleafHolds, hnodeHolds⟩ := h loc leaf n hfind hleaf hnode
        have hinside : Converted.Every P ⟨[leaf], []⟩ :=
          (Converted.every_of_nodes_eq_nil (c := ⟨[], []⟩) rfl).around
            (node?_eq_some hleaf).2.2.1 hleafHolds
        have haround : Converted.Every P ⟨[n], []⟩ :=
          hinside.around (node?_eq_some hnode).2.2.1 hnodeHolds
        simpa [hnode] using haround

/-- A listing that is found. -/
theorem listing_every {line : Hint} {lines : List Text} {language : Option Text}
    (h : ∀ loc n, env.find "listing".toList line lines { w with skipComments := false } = .ok loc →
      env.node? (.codeBlock language (unlines lines)) loc [] = some n → P n) :
    (env.listing line lines language w).Every P := by
  rw [Locating.listing]
  split
  · exact Converted.every_of_nodes_eq_nil rfl
  · rename_i loc hfind
    cases hnode : env.node? (.codeBlock language (unlines lines)) loc [] with
    | none => exact Converted.every_of_nodes_eq_nil rfl
    | some n =>
      exact (Converted.every_of_nodes_eq_nil (c := ⟨[], []⟩) rfl).around (node?_eq_some hnode).2.2.1
        (h loc n hfind hnode)

/-! ## Elements -/

theorem skipComments_cellWindow (w : Window) (line : Hint) (last : Option Position) :
    (cellWindow w line last).skipComments = w.skipComments := by
  cases last <;> rfl

-- One case for each kind of element; the runs of siblings, entries, rows and cells go along.
mutual

/-- What every construction keeps holds of what an element becomes. -/
theorem convert_closedFor (h : env.ClosedFor skip D R) (hone : D 1) (w : Window)
    (hw : w.skipComments = skip) :
    (e : Element) → e.Every (Element.TitledBy D) → R (env.convert w e)
  | .document _ header blocks _ _, he => by
    have hblocks := convertAll_closedFor h hone w hw none blocks fun x hx => he.part hx
    cases header with
    | none =>
      rw [convert]
      exact h.gather .document (h.append h.nothing hblocks)
    | some title =>
      rw [convert]
      exact h.gather .document (h.append (h.textNode (.header hone) _ _ (.inr rfl) hw) hblocks)
  | .sectionBlock line title level blocks, he => by
    rw [convert]
    have htitle : R (env.titled "section".toList line title (level + 1) w) :=
      h.textNode (.header he.self) _ _ (.inr rfl) hw
    split
    · exact htitle
    · exact h.append htitle (convertAll_closedFor h hone w hw none blocks fun x hx => he.part hx)
  | .paragraph line lines, _ => by
    rw [convert]
    split
    · exact h.nothing
    · exact h.paragraph _ _ _ hw
  | .literal line lines, _ => by
    rw [convert]
    split
    · exact h.nothing
    · exact h.paragraph _ _ _ hw
  | .listing line lines language, _ => by
    rw [convert]
    exact h.listing line lines language w
  | .unorderedList _ _ items, he => by
    rw [convert]
    exact h.gather .list (convertAll_closedFor h hone w hw none items fun x hx => he.part hx)
  | .orderedList _ _ items, he => by
    rw [convert]
    exact h.gather .list (convertAll_closedFor h hone w hw none items fun x hx => he.part hx)
  | .item line text _ blocks, he => by
    rw [convert]
    have hblocks := convertAll_closedFor h hone w hw none blocks fun x hx => he.part hx
    exact h.itemAround (h.append (h.itemText line text hw) hblocks)
  | .descriptionList _ _ entries, he => by
    rw [convert]
    exact h.gather .list (convertEntries_closedFor h hone w hw entries fun entry hentry x hx =>
      he.part (List.mem_flatMap.mpr ⟨entry, hentry, hx⟩))
  | .quoteBlock _ blocks, he => by
    rw [convert]
    exact h.gather .blockQuote (convertAll_closedFor h hone w hw none blocks fun x hx => he.part hx)
  | .compound _ _ blocks, he => by
    rw [convert]
    exact convertAll_closedFor h hone w hw none blocks fun x hx => he.part hx
  | .table _ headerRows bodyRows, he => by
    rw [convert]
    have hheader := convertRows_closedFor h hone w hw headerRows fun row hrow x hx =>
      he.part (List.mem_append_left _ (List.mem_flatten.mpr ⟨row, hrow, hx⟩))
    have hbody := convertRows_closedFor h hone w hw bodyRows fun row hrow x hx =>
      he.part (List.mem_append_right _ (List.mem_flatten.mpr ⟨row, hrow, hx⟩))
    refine h.gather .table ?_
    split
    · exact h.append hheader hbody
    · exact hbody
  | .header title, _ => by
    rw [convert]
    exact h.unconverted _ _
  | .cell .., _ => by
    rw [convert]
    exact h.unconverted _ _
  | .unsupported line kind, _ => by
    rw [convert]
    exact h.unconverted _ _
  | .bare line, _ => by
    rw [convert]
    exact h.unconverted _ _

theorem convertAll_closedFor (h : env.ClosedFor skip D R) (hone : D 1) (w : Window)
    (hw : w.skipComments = skip) (next : Hint) :
    (es : List Element) → (∀ x ∈ es, x.Every (Element.TitledBy D)) →
      R (env.convertAll w next es)
  | [], _ => h.nothing
  | e :: rest, hes => by
    rw [convertAll_cons]
    exact h.append (convert_closedFor h hone (w.narrowed _ _) hw e (hes e List.mem_cons_self))
      (convertAll_closedFor h hone w hw next rest fun x hx => hes x (List.mem_cons_of_mem _ hx))

theorem convertOption_closedFor (h : env.ClosedFor skip D R) (hone : D 1) (w : Window)
    (hw : w.skipComments = skip) (next : Hint) :
    (e : Option Element) → (∀ x, e = some x → x.Every (Element.TitledBy D)) →
      R (env.convertOption w next e)
  | none, _ => h.nothing
  | some e, he => convert_closedFor h hone (w.narrowed _ _) hw e (he e rfl)

theorem convertEntries_closedFor (h : env.ClosedFor skip D R) (hone : D 1) (w : Window)
    (hw : w.skipComments = skip) :
    (entries : List (Entry Element)) →
      (∀ entry ∈ entries, ∀ x ∈ entry.items, x.Every (Element.TitledBy D)) →
        R (env.convertEntries w entries)
  | [], _ => h.nothing
  | ⟨terms, description⟩ :: rest, hentries => by
    rw [convertEntries_cons]
    have hitems (x : Element) := hentries ⟨terms, description⟩ List.mem_cons_self x
    have hterms := convertAll_closedFor h hone w hw
      (description.elim ((rest.flatMap Entry.items).head?.bind Element.line) Element.line) terms
      fun x hx => hitems x (Entry.mem_items.mpr (.inl hx))
    have hdescription := convertOption_closedFor h hone w hw
      ((rest.flatMap Entry.items).head?.bind Element.line) description
      fun x hx => hitems x (Entry.mem_items.mpr (.inr hx))
    exact h.append (h.append hterms hdescription)
      (convertEntries_closedFor h hone w hw rest fun entry hentry =>
        hentries entry (List.mem_cons_of_mem _ hentry))

theorem convertRows_closedFor (h : env.ClosedFor skip D R) (hone : D 1) (w : Window)
    (hw : w.skipComments = skip) :
    (rows : List (List Element)) →
      (∀ row ∈ rows, ∀ x ∈ row, x.Every (Element.TitledBy D)) → R (env.convertRows w rows)
  | [], _ => h.nothing
  | row :: rest, hrows => by
    rw [convertRows]
    have hrow := convertRow_closedFor h hone (w.narrowed (row.head?.bind Element.line) none) hw none
      row (hrows row List.mem_cons_self)
    exact h.append (h.gather .tableRow hrow) (convertRows_closedFor h hone w hw rest
      fun row hrow => hrows row (List.mem_cons_of_mem _ hrow))

theorem convertRow_closedFor (h : env.ClosedFor skip D R) (hone : D 1) (w : Window)
    (hw : w.skipComments = skip) (last : Option Position) :
    (row : List Element) → (∀ x ∈ row, x.Every (Element.TitledBy D)) →
      R (env.convertRow w last row)
  | [], _ => h.nothing
  | cell :: rest, hrow => by
    rw [convertRow]
    have hwindow := (skipComments_cellWindow w cell.line last).trans hw
    exact h.append (convertCell_closedFor h hone _ hwindow cell (hrow cell List.mem_cons_self))
      (convertRow_closedFor h hone w hw _ rest fun x hx => hrow x (List.mem_cons_of_mem _ hx))

theorem convertCell_closedFor (h : env.ClosedFor skip D R) (hone : D 1) (w : Window)
    (hw : w.skipComments = skip) :
    (cell : Element) → cell.Every (Element.TitledBy D) → R (env.convertCell w cell)
  | .cell line text style inner _, hcell => by
    rw [convertCell]
    split
    · exact h.cellAround line (convertInner_closedFor h hone { w with startColumn := 0 } hw inner
        fun x hx => hcell.part (by simp [Element.parts, hx]))
    · exact h.textNode .tableCell _ _ (.inl rfl) hw
  | .document .., _ | .sectionBlock .., _ | .paragraph .., _ | .literal .., _ | .listing .., _
  | .unorderedList .., _ | .orderedList .., _ | .item .., _ | .descriptionList .., _
  | .quoteBlock .., _ | .compound .., _ | .table .., _ | .header .., _ | .unsupported .., _
  | .bare .., _ => h.unconverted _ _

theorem convertInner_closedFor (h : env.ClosedFor skip D R) (hone : D 1) (w : Window)
    (hw : w.skipComments = skip) :
    (inner : Option Element) → (∀ x, inner = some x → x.Every (Element.TitledBy D)) →
      R (env.convertInner w inner)
  | none, _ => h.nothing
  | some e, he => convertBlocks_closedFor h hone w hw e (he e rfl)

theorem convertBlocks_closedFor (h : env.ClosedFor skip D R) (hone : D 1) (w : Window)
    (hw : w.skipComments = skip) :
    (e : Element) → e.Every (Element.TitledBy D) → R (env.convertBlocks w e)
  | .document _ _ blocks _ _, he =>
    convertAll_closedFor h hone w hw none blocks fun _ hx => he.part hx
  | .cell .., _ | .sectionBlock .., _ | .paragraph .., _ | .literal .., _ | .listing .., _
  | .unorderedList .., _ | .orderedList .., _ | .item .., _ | .descriptionList .., _
  | .quoteBlock .., _ | .compound .., _ | .table .., _ | .header .., _ | .unsupported .., _
  | .bare .., _ => h.nothing

end

/-- What every construction of nodes keeps holds of every node that an element becomes. -/
theorem convert_every (h : env.Keeps D P) (hone : D 1) (w : Window) (e : Element)
    (he : e.Every (Element.TitledBy D)) : (env.convert w e).Every P :=
  convert_closedFor (h.closedFor w.skipComments) hone w rfl e he

theorem convertAll_every (h : env.Keeps D P) (hone : D 1) (w : Window) (next : Hint)
    (es : List Element) (hes : ∀ x ∈ es, x.Every (Element.TitledBy D)) :
    (env.convertAll w next es).Every P :=
  convertAll_closedFor (h.closedFor w.skipComments) hone w rfl next es hes

/-! ## The marker -/

/-- With a comment marker that is a text, a text is searched in the source and lost if it is not
there. -/
theorem find_eq {marker : Text} (hmarker : env.marker = .text marker) (what : Text) (line : Hint)
    (expected : List Text) (w : Window) :
    env.find what line expected w = match env.source.find? marker expected w with
      | some l => .ok l
      | none => .error (.notFound what line w.minLine w.maxLine) := by
  rw [find, if_neg (by simp [hmarker]), hmarker]
  rfl

theorem find_ne_markerNotText {marker : Text} (hmarker : env.marker = .text marker)
    (what : Text) (line : Hint) (expected : List Text) (w : Window) :
    env.find what line expected w ≠ .error .markerNotText := by
  rw [find_eq hmarker]
  split
  · simp
  · simp

/-- With a comment marker that is a text, nothing is lost on account of the marker. -/
theorem markerNotText_not_mem (env : Locating) {marker : Text} (hmarker : env.marker = .text marker)
    (w : Window) (e : Element) : Loss.markerNotText ∉ (env.convert w e).losses := by
  have hclosed : env.ClosedFor w.skipComments (fun _ => True) fun c => .markerNotText ∉ c.losses :=
    { lost := fun h => h
      append := fun ha hb => by simp [ha, hb]
      gather := fun _ h => h
      itemAround := fun h => h
      cellAround := fun line inside h => by
        rw [cellAround]
        split
        · simp [h]
        · exact h
      textNode := fun _ what line _ expected w _ _ => by
        rw [Locating.textNode]
        have hfind := find_ne_markerNotText hmarker what line expected w
        split
        · rename_i loss hloss
          rw [hloss] at hfind
          simpa [eq_comm] using hfind
        · simp
      listing := fun line lines language w => by
        rw [Locating.listing]
        have hfind := find_ne_markerNotText hmarker "listing".toList line lines
          { w with skipComments := false }
        split
        · rename_i loss hloss
          rw [hloss] at hfind
          simpa [eq_comm] using hfind
        · simp }
  exact convert_closedFor hclosed trivial w rfl e e.every_titledBy_true

end Locating

end Asciidoc
