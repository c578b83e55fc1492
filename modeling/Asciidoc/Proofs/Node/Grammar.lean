import Asciidoc.Proofs.Element.Spelled
import Asciidoc.Proofs.Node.InOrder
import Asciidoc.Proofs.Node.Shown
import Asciidoc.Proofs.Reading.Levels
import Asciidoc.Proofs.Reading.Roles
import Asciidoc.Proofs.Reading.Silent
import Asciidoc.Proofs.Reading.Tables

/-!
# The grammar of converted trees

The type of nodes lets any node stand in any other. In a converted tree each node obeys the rule
for its kind (`Node.Obeys`): which nodes are its children, that it has some unless it is a leaf,
and for the two kinds around a piece of text that the piece stands where they do. Nothing else
comes of any text that is read, under any rules (`convert_grammatical`).

Three things about what was read are needed: which elements stand in which, that sections have a
level, and that no table stands in a cell. Containers that lose all they held are dropped by the
conversion, so what is left of a container is never empty; and what is dropped leaves nodes of the
same role around it.
-/

namespace Asciidoc

open Text

/-! ## The rules -/

namespace Node

/-- The role of the nodes of a kind. -/
def Kind.role {α : Type} : Kind α → Role
  | .document => .document
  | .header _ | .paragraph | .list | .blockQuote | .codeBlock _ _ | .table => .block
  | .listItem => .item
  | .tableRow => .row
  | .tableCell => .cell
  | .str _ => .text

/-- A node has children, and all have a role. -/
def Holds (role : Role) (n : Node Text) : Prop :=
  n.children ≠ [] ∧ ∀ m ∈ n.children, m.kind.role = role

/-- The only child of a node is a piece of text. -/
def HoldsText (n : Node Text) : Prop := ∃ leaf, n.children = [leaf] ∧ leaf.kind.role = .text

/-- The only child of a node is a piece of text that stands where the node does. -/
def IsText (n : Node Text) : Prop :=
  ∃ leaf, n.children = [leaf] ∧ leaf.kind.role = .text ∧
    leaf.loc = n.loc ∧ leaf.range = n.range ∧ leaf.raw = n.raw

/-- No table stands in a tree. -/
def Tableless (n : Node Text) : Prop := ∀ m ∈ n.preorder, m.kind ≠ .table

/-- The rule for a node, by its kind. -/
def Obeys (n : Node Text) : Prop :=
  match n.kind with
  | .document => (∀ m ∈ n.children, m.kind.role = .block) ∧ (n.children = [] → n = emptyDocument)
  | .header depth => 1 ≤ depth ∧ n.IsText
  | .paragraph => n.IsText
  | .list => n.Holds .item
  | .listItem | .blockQuote => n.Holds .block
  | .codeBlock _ _ | .str _ => n.children = []
  | .table => n.Holds .row
  | .tableRow => n.Holds .cell
  | .tableCell => n.HoldsText ∨ n.Holds .block ∧ ∀ m ∈ n.children, m.Tableless

/-- A tree of the grammar: its root is a document and no other node is, and every node obeys the
rule for its kind. -/
structure IsGrammatical (root : Node Text) : Prop where
  document : root.kind = .document
  rule : ∀ n ∈ root.preorder, n.Obeys
  below : ∀ child ∈ root.children, ∀ n ∈ child.preorder, n.kind ≠ .document

/-- The role of the children of nodes that are put together from nodes. -/
def Kind.childRole? : Kind Text → Option Role
  | .document | .listItem | .blockQuote => some .block
  | .list => some .item
  | .table => some .row
  | .tableRow => some .cell
  | _ => none

theorem Holds.obeys {n : Node Text} {role : Role} (hrole : n.kind.childRole? = some role)
    (h : n.Holds role) : n.Obeys := by
  obtain ⟨hsome, hchildren⟩ := h
  cases hkind : n.kind with
  | document =>
    obtain rfl : _ = role := Option.some.inj (hkind ▸ hrole)
    simp only [Obeys, hkind]
    exact ⟨hchildren, fun hnil => absurd hnil hsome⟩
  | listItem | blockQuote | list | table | tableRow =>
    obtain rfl : _ = role := Option.some.inj (hkind ▸ hrole)
    simp only [Obeys, hkind]
    exact ⟨hsome, hchildren⟩
  | _ =>
    rw [hkind] at hrole
    cases hrole

end Node

/-! ## What conversion makes -/

/-- The rule for nodes, and whether tables are among them. -/
structure Node.ObeysWith (tables : Bool) (n : Node Text) : Prop where
  obeys : n.Obeys
  table : n.kind = .table → tables = true

/-- Elements became nodes of a role, and all that is in these obeys the rules; tables are among
them at most if tables may be. -/
structure Converted.Makes (tables : Bool) (role : Role) (c : Converted) : Prop where
  every : c.Every (Node.ObeysWith tables)
  role : ∀ n ∈ c.nodes, n.kind.role = role

namespace Converted

variable {tables : Bool} {role : Role} {a b c : Converted}

theorem Makes.of_nodes_eq_nil (h : c.nodes = []) : c.Makes tables role :=
  ⟨every_of_nodes_eq_nil h, by simp [h]⟩

theorem Makes.append (ha : a.Makes tables role) (hb : b.Makes tables role) :
    (a ++ b).Makes tables role := by
  refine ⟨ha.every.append hb.every, fun n hn => ?_⟩
  rcases List.mem_append.mp hn with hn | hn
  · exact ha.role n hn
  · exact hb.role n hn

/-- Without tables is with or without. -/
theorem Makes.weaken (h : c.Makes false role) : c.Makes tables role :=
  ⟨fun n hn m hm => ⟨(h.every n hn m hm).obeys, fun htable =>
    absurd ((h.every n hn m hm).table htable) Bool.false_ne_true⟩, h.role⟩

theorem Makes.tableless (h : c.Makes false role) {n : Node Text} (hn : n ∈ c.nodes) :
    n.Tableless :=
  fun m hm htable => absurd ((h.every n hn m hm).table htable) Bool.false_ne_true

end Converted

/-! ## What is asked of elements -/

namespace Element

/-- An element is arranged and titled as those that are read are, and it is a table only if tables
may be there and none stands in its cells. -/
structure IsRegular (tables : Bool) (e : Element) : Prop where
  arranged : e.IsArranged
  titled : e.TitledBy fun depth => 1 ≤ depth
  table : e.isTable = true → tables = true ∧ ∀ x ∈ e.parts, x.Tableless

/-- An element of a role that is regular throughout. -/
structure Regular (tables : Bool) (role : Role) (e : Element) : Prop where
  every : e.Every (IsRegular tables)
  role : e.role = role

variable {tables : Bool} {role : Role} {e x : Element}

theorem Regular.part (h : e.Regular tables role) (hx : x ∈ e.parts) :
    x.Regular tables e.partRole :=
  ⟨h.every.part hx, h.every.self.arranged x hx⟩

/-- Where no table is, it does not matter that none may be. -/
theorem Regular.tableless (h : e.Regular tables role) (htables : e.Tableless) :
    e.Regular false role :=
  ⟨h.every.imp₂ htables fun _ hself htable =>
    ⟨hself.arranged, hself.titled, fun h => absurd (htable.symm.trans h) Bool.false_ne_true⟩,
    h.role⟩

end Element

/-! ## Conversion -/

namespace Locating

open Node

variable {env : Locating} {tables : Bool} {role : Role} {inside : Converted}

/-- A container of nodes is one node or none, and never empty. -/
theorem gather_makes (kind : Node.Kind Text) (hinside : inside.Makes tables role)
    (h : ∀ n : Node Text, n.kind = kind → n.children = inside.nodes → n.Holds role →
      n.ObeysWith tables) :
    (env.gather kind inside).Makes tables kind.role := by
  have hnode {n : Node Text} (haround : env.around? kind inside.nodes = some n) :
      n.kind = kind ∧ n.children = inside.nodes ∧ inside.nodes ≠ [] := by
    obtain ⟨first, _, hfirst, -, hnode⟩ := around?_eq_some haround
    obtain ⟨hkind, -, hchildren, -⟩ := node?_eq_some hnode
    refine ⟨hkind, hchildren, fun hnil => ?_⟩
    rw [hnil] at hfirst
    cases hfirst
  refine ⟨gather_every hinside.every fun n haround => ?_, fun n hn => ?_⟩
  · obtain ⟨hkind, hchildren, hsome⟩ := hnode haround
    exact h n hkind hchildren ⟨hchildren ▸ hsome, hchildren ▸ hinside.role⟩
  · rw [(hnode (Option.mem_toList.mp hn)).1]

/-- A container for nodes of a role. -/
theorem gather_makes_of_role (kind : Node.Kind Text) (hkind : kind.childRole? = some role)
    (htable : kind = .table → tables = true) (hinside : inside.Makes tables role) :
    (env.gather kind inside).Makes tables kind.role :=
  gather_makes kind hinside fun n hn _ hholds => by
    subst hn
    exact ⟨hholds.obeys hkind, htable⟩

/-- An item holds its blocks in whatever order. -/
theorem itemAround_makes (hinside : inside.Makes tables .block) :
    (env.itemAround inside).Makes tables .item := by
  refine gather_makes_of_role .listItem rfl nofun ⟨fun n hn => ?_, fun n hn => ?_⟩
  · exact hinside.every n (List.mem_mergeSort.mp hn)
  · exact hinside.role n (List.mem_mergeSort.mp hn)

/-- A cell holds blocks without tables. -/
theorem cellAround_makes (line : Hint) (hinside : inside.Makes false .block) :
    (env.cellAround line inside).Makes tables .cell := by
  rw [cellAround]
  split
  · exact .of_nodes_eq_nil rfl
  · refine gather_makes .tableCell hinside.weaken fun n hkind hchildren hholds => ⟨?_, fun h => ?_⟩
    · simp only [Obeys, hkind]
      exact .inr ⟨hholds, fun m hm => hinside.tableless (hchildren ▸ hm)⟩
    · rw [hkind] at h
      cases h

/-- A node around a piece of text. -/
theorem textNode_makes {outer : Node.Kind Text} (houter : outer.HoldsText fun depth => 1 ≤ depth)
    (what : Text) (line : Hint) (value : Text) (expected : List Text) (w : Window) :
    (env.textNode outer what line value expected w).Makes tables outer.role := by
  refine ⟨textNode_every fun loc leaf n _ hleaf hnode => ?_, fun n hn => ?_⟩
  · obtain ⟨hleafKind, hleafLoc, hleafChildren, hleafRange, hleafRaw⟩ := node?_eq_some hleaf
    obtain ⟨hkind, hloc, hchildren, hrange, hraw⟩ := node?_eq_some hnode
    have hsame : leaf.range = n.range := Option.some.inj (hleafRange.symm.trans hrange)
    have htext : n.IsText := by
      refine ⟨leaf, hchildren, hleafKind ▸ rfl, hleafLoc.trans hloc.symm, hsame, ?_⟩
      rw [hraw, hleafRaw, hsame]
      cases houter <;> rfl
    refine ⟨⟨?_, fun h => ?_⟩, ⟨?_, fun h => ?_⟩⟩
    · simp only [Obeys, hleafKind, hleafChildren]
    · rw [hleafKind] at h
      cases h
    · cases houter with
      | header hdepth =>
        simp only [Obeys, hkind]
        exact ⟨hdepth, htext⟩
      | paragraph =>
        simp only [Obeys, hkind]
        exact htext
      | tableCell =>
        simp only [Obeys, hkind]
        exact .inl ⟨leaf, hchildren, hleafKind ▸ rfl⟩
    · rw [hkind] at h
      subst h
      cases houter
  · rw [textNode] at hn
    split at hn
    · cases hn
    · obtain ⟨leaf, -, hnode⟩ := Option.bind_eq_some_iff.mp (Option.mem_toList.mp hn)
      rw [(node?_eq_some hnode).1]

theorem listing_makes (line : Hint) (lines : List Text) (language : Option Text) (w : Window) :
    (env.listing line lines language w).Makes tables .block := by
  refine ⟨listing_every fun loc n _ hnode => ?_, fun n hn => ?_⟩
  · obtain ⟨hkind, -, hchildren, -⟩ := node?_eq_some hnode
    refine ⟨?_, fun h => ?_⟩
    · simp only [Obeys, hkind, hchildren]
    · rw [hkind] at h
      cases h
  · rw [listing] at hn
    split at hn
    · cases hn
    · obtain ⟨hkind, -⟩ := node?_eq_some (Option.mem_toList.mp hn)
      rw [hkind]
      rfl

theorem paragraph_makes (what : Text) (line : Hint) (value : Text) (w : Window) :
    (env.paragraph what line value w).Makes tables .block :=
  textNode_makes .paragraph what line value value.lines w

theorem itemText_makes (line : Hint) (text : Option Text) (w : Window) :
    (env.itemText line text w).Makes tables .block := by
  rw [itemText.eq_def]
  split
  · exact paragraph_makes _ line _ w
  · exact .of_nodes_eq_nil rfl

-- The roles of siblings are the same, so a run of them has one; cells are converted with their row,
-- and what is inside a cell is converted as where no tables may be.
mutual

/-- What an element becomes has its role and obeys the rules. -/
theorem convert_makes (env : Locating) (w : Window) {tables : Bool} :
    (e : Element) → e.Regular tables e.role → (env.convert w e).Makes tables e.role
  | .document _ header blocks _ _, he => by
    have hblocks := convertAll_makes env w none blocks fun x hx => he.part hx
    cases header with
    | none =>
      rw [convert]
      exact gather_makes_of_role .document rfl nofun (.append (.of_nodes_eq_nil rfl) hblocks)
    | some title =>
      rw [convert]
      exact gather_makes_of_role .document rfl nofun
        (.append (textNode_makes (.header (Int.le_refl 1)) _ _ _ _ _) hblocks)
  | .sectionBlock line title level blocks, he => by
    rw [convert]
    have htitle : (env.titled "section".toList line title (level + 1) w).Makes tables .block :=
      textNode_makes (.header he.every.self.titled) _ _ _ _ _
    split
    · exact htitle
    · exact htitle.append (convertAll_makes env w none blocks fun x hx => he.part hx)
  | .paragraph line lines, _ => by
    rw [convert]
    split
    · exact .of_nodes_eq_nil rfl
    · exact paragraph_makes _ _ _ _
  | .literal line lines, _ => by
    rw [convert]
    split
    · exact .of_nodes_eq_nil rfl
    · exact paragraph_makes _ _ _ _
  | .listing line lines language, _ => by
    rw [convert]
    exact listing_makes line lines language w
  | .unorderedList _ _ items, he => by
    rw [convert]
    exact gather_makes_of_role .list rfl nofun
      (convertAll_makes env w none items fun x hx => he.part hx)
  | .orderedList _ _ items, he => by
    rw [convert]
    exact gather_makes_of_role .list rfl nofun
      (convertAll_makes env w none items fun x hx => he.part hx)
  | .item line text _ blocks, he => by
    rw [convert]
    exact itemAround_makes ((itemText_makes line text w).append
      (convertAll_makes env w none blocks fun x hx => he.part hx))
  | .descriptionList _ _ entries, he => by
    rw [convert]
    exact gather_makes_of_role .list rfl nofun (convertEntries_makes env w entries
      fun entry hentry x hx => he.part (List.mem_flatMap.mpr ⟨entry, hentry, hx⟩))
  | .quoteBlock _ blocks, he => by
    rw [convert]
    exact gather_makes_of_role .blockQuote rfl nofun
      (convertAll_makes env w none blocks fun x hx => he.part hx)
  | .compound _ _ blocks, he => by
    rw [convert]
    exact convertAll_makes env w none blocks fun x hx => he.part hx
  | .table _ headerRows bodyRows, he => by
    rw [convert]
    obtain ⟨htables, hcells⟩ := he.every.self.table rfl
    have hcell {x : Element} (hx : x ∈ headerRows.flatten ++ bodyRows.flatten) :
        x.Regular false .cell :=
      (he.part hx).tableless (hcells x hx)
    have hheader := convertRows_makes env w headerRows fun row hrow x hx =>
      hcell (List.mem_append_left _ (List.mem_flatten.mpr ⟨row, hrow, hx⟩))
    have hbody := convertRows_makes env w bodyRows fun row hrow x hx =>
      hcell (List.mem_append_right _ (List.mem_flatten.mpr ⟨row, hrow, hx⟩))
    refine gather_makes_of_role .table rfl (fun _ => htables) ?_
    split
    · exact (hheader.append hbody).weaken
    · exact hbody.weaken
  | .header title, _ => by
    rw [convert]
    exact .of_nodes_eq_nil rfl
  | .cell .., _ => by
    rw [convert]
    exact .of_nodes_eq_nil rfl
  | .unsupported line kind, _ => by
    rw [convert]
    exact .of_nodes_eq_nil rfl
  | .bare line, _ => by
    rw [convert]
    exact .of_nodes_eq_nil rfl

theorem convertAll_makes (env : Locating) (w : Window) {tables : Bool} {role : Role}
    (next : Hint) : (es : List Element) → (∀ x ∈ es, x.Regular tables role) →
      (env.convertAll w next es).Makes tables role
  | [], _ => .of_nodes_eq_nil rfl
  | e :: rest, hes => by
    rw [convertAll_cons]
    obtain ⟨he, hrest⟩ := List.forall_mem_cons.mp hes
    obtain rfl := he.role
    exact (convert_makes env _ e he).append (convertAll_makes env w next rest hrest)

theorem convertOption_makes (env : Locating) (w : Window) {tables : Bool} {role : Role}
    (next : Hint) : (e : Option Element) → (∀ x, e = some x → x.Regular tables role) →
      (env.convertOption w next e).Makes tables role
  | none, _ => .of_nodes_eq_nil rfl
  | some e, he => by
    obtain rfl := (he e rfl).role
    exact convert_makes env _ e (he e rfl)

theorem convertEntries_makes (env : Locating) (w : Window) {tables : Bool} :
    (entries : List (Entry Element)) →
      (∀ entry ∈ entries, ∀ x ∈ entry.items, x.Regular tables .item) →
        (env.convertEntries w entries).Makes tables .item
  | [], _ => .of_nodes_eq_nil rfl
  | ⟨terms, description⟩ :: rest, hentries => by
    rw [convertEntries_cons]
    obtain ⟨hitems, hrest⟩ := List.forall_mem_cons.mp hentries
    have hterms := convertAll_makes env w
      (description.elim ((rest.flatMap Entry.items).head?.bind Element.line) Element.line) terms
      fun x hx => hitems x (Entry.mem_items.mpr (.inl hx))
    have hdescription := convertOption_makes env w
      ((rest.flatMap Entry.items).head?.bind Element.line) description
      fun x hx => hitems x (Entry.mem_items.mpr (.inr hx))
    exact (hterms.append hdescription).append (convertEntries_makes env w rest hrest)

theorem convertRows_makes (env : Locating) (w : Window) :
    (rows : List (List Element)) → (∀ row ∈ rows, ∀ x ∈ row, x.Regular false .cell) →
      (env.convertRows w rows).Makes false .row
  | [], _ => .of_nodes_eq_nil rfl
  | row :: rest, hrows => by
    rw [convertRows]
    obtain ⟨hrow, hrest⟩ := List.forall_mem_cons.mp hrows
    exact (gather_makes_of_role .tableRow rfl nofun (convertRow_makes env _ none row hrow)).append
      (convertRows_makes env w rest hrest)

theorem convertRow_makes (env : Locating) (w : Window) (last : Option Position) :
    (row : List Element) → (∀ x ∈ row, x.Regular false .cell) →
      (env.convertRow w last row).Makes false .cell
  | [], _ => .of_nodes_eq_nil rfl
  | cell :: rest, hrow => by
    rw [convertRow]
    obtain ⟨hcell, hrest⟩ := List.forall_mem_cons.mp hrow
    exact (convertCell_makes env _ cell hcell).append (convertRow_makes env w _ rest hrest)

theorem convertCell_makes (env : Locating) (w : Window) :
    (cell : Element) → cell.Regular false .cell → (env.convertCell w cell).Makes false .cell
  | .cell line text style inner _, hcell => by
    rw [convertCell]
    split
    · exact cellAround_makes line (convertInner_makes env _ inner
        fun x hx => hcell.part (by simp [Element.parts, hx]))
    · exact textNode_makes .tableCell _ _ _ _ _
  | .document .., _ | .sectionBlock .., _ | .paragraph .., _ | .literal .., _ | .listing .., _
  | .unorderedList .., _ | .orderedList .., _ | .item .., _ | .descriptionList .., _
  | .quoteBlock .., _ | .compound .., _ | .table .., _ | .header .., _ | .unsupported .., _
  | .bare .., _ => .of_nodes_eq_nil rfl

theorem convertInner_makes (env : Locating) (w : Window) :
    (inner : Option Element) → (∀ x, inner = some x → x.Regular false .document) →
      (env.convertInner w inner).Makes false .block
  | none, _ => .of_nodes_eq_nil rfl
  | some e, he => convertBlocks_makes env w e (he e rfl)

theorem convertBlocks_makes (env : Locating) (w : Window) :
    (e : Element) → e.Regular false .document → (env.convertBlocks w e).Makes false .block
  | .document _ _ blocks _ _, he => convertAll_makes env w none blocks fun _ hx => he.part hx
  | .cell .., _ | .sectionBlock .., _ | .paragraph .., _ | .literal .., _ | .listing .., _
  | .unorderedList .., _ | .orderedList .., _ | .item .., _ | .descriptionList .., _
  | .quoteBlock .., _ | .compound .., _ | .table .., _ | .header .., _ | .unsupported .., _
  | .bare .., _ => .of_nodes_eq_nil rfl

end

end Locating

/-! ## Documents -/

namespace Node

/-- No rule has a document for a child. -/
theorem Obeys.child_ne_document {n child : Node Text} (h : n.Obeys) (hchild : child ∈ n.children) :
    child.kind ≠ .document := by
  intro hdocument
  have hrole {role : Role} (h : child.kind.role = role) : role = .document := by
    rw [← h, hdocument]
    rfl
  have hholds {role : Role} (h : n.Holds role) : role = .document := hrole (h.2 child hchild)
  have htext (h : ∃ leaf, n.children = [leaf] ∧ leaf.kind.role = .text) : False := by
    obtain ⟨leaf, hone, hleaf⟩ := h
    obtain rfl := List.mem_singleton.mp (hone ▸ hchild)
    cases hrole hleaf
  have hisText (h : n.IsText) : False :=
    let ⟨leaf, hone, hleaf, _⟩ := h
    htext ⟨leaf, hone, hleaf⟩
  unfold Obeys at h
  split at h
  · cases hrole (h.1 child hchild)
  · exact hisText h.2
  · exact hisText h
  · cases hholds h
  · cases hholds h
  · cases hholds h
  · rw [h] at hchild
    cases hchild
  · rw [h] at hchild
    cases hchild
  · cases hholds h
  · cases hholds h
  · rcases h with h | h
    · exact htext h
    · cases hholds h.1

/-- Where all nodes obey, none below the root is a document. -/
theorem ne_document_of_obeys (n : Node Text) (h : ∀ m ∈ n.preorder, m.Obeys) :
    ∀ child ∈ n.children, ∀ m ∈ child.preorder, m.kind ≠ .document := by
  induction n using Node.induction with
  | step n ih =>
    intro child hchild m hm
    rcases mem_preorder.mp hm with rfl | ⟨grandchild, hgrandchild, hm⟩
    · exact (h n n.mem_preorder_self).child_ne_document hchild
    · exact ih child hchild (fun k hk => h k (mem_preorder_of_child hchild hk)) grandchild
        hgrandchild m hm

theorem IsGrammatical.of_obeys {n : Node Text} (hkind : n.kind = .document)
    (h : ∀ m ∈ n.preorder, m.Obeys) : n.IsGrammatical :=
  ⟨hkind, h, n.ne_document_of_obeys h⟩

/-- The empty document is the one childless document of the grammar. -/
theorem isGrammatical_emptyDocument : emptyDocument.IsGrammatical := by
  refine .of_obeys rfl fun m hm => ?_
  obtain rfl : m = emptyDocument := by simpa [emptyDocument, preorder, preorderAll] using hm
  exact ⟨by simp [emptyDocument, children], fun _ => rfl⟩

end Node

/-- A document that is regular becomes a tree of the grammar. -/
theorem Locating.document_isGrammatical (env : Locating) (skipComments : Bool) {root : Element}
    (h : root.Regular true .document) : (env.document skipComments root).1.IsGrammatical := by
  have hmakes := convert_makes env ⟨1, env.source.count, skipComments, 0⟩ root (h.role ▸ h)
  rcases env.document_mem skipComments root with hempty | hmem
  · rw [hempty]
    exact Node.isGrammatical_emptyDocument
  · have hrole := hmakes.role _ hmem
    rw [h.role] at hrole
    refine .of_obeys ?_ fun m hm => (hmakes.every _ hmem m hm).obeys
    cases hkind : (env.document skipComments root).1.kind with
    | document => rfl
    | _ =>
      rw [hkind] at hrole
      cases hrole

/-- A document that is read from the lines of a text is regular. -/
theorem Cursor.readDocument_regular (env : Reading) {c : Cursor}
    (hlines : Reading.AreLines c.unread) (source : Text) :
    (c.readDocument env true source).1.Regular true .document := by
  obtain ⟨harranged, hrole⟩ := c.readDocument_arranged env true source
  have hlevels := c.readDocument_hasLevels env true source
  have htableless : (c.readDocument env true source).1.Every fun e =>
      e.isTable = true → ∀ x ∈ e.parts, x.Tableless :=
    .intro nofun ((env.blocks_reads false (-1) none c.header.2).every_tableless
      (hlines.suffix c.header_keeps.1))
  have hboth := harranged.imp₂ hlevels fun _ => And.intro
  exact ⟨hboth.imp₂ htableless fun _ h htable => ⟨h.1, h.2, fun h => ⟨rfl, htable h⟩⟩, hrole⟩

/-- Whatever is read of a text is regular. -/
theorem Element.ofText_regular {rules : Rules.Reading} {marker : Marker} {t : Text}
    {root : Element} (h : (Element.ofText rules marker t).document = .ok root) :
    root.Regular true .document := by
  rw [← ofText_eq_ok h]
  exact Cursor.readDocument_regular _ (Reading.areLines_tokens (Source.ofText t) marker.textD) t

/-- What is read of a text is converted, if the comment marker is a text and if it is none. -/
theorem Conversion.result_of_document {rules : Rules} {t : Text} {root : Element}
    (hread : (Element.ofText rules.reading rules.marker t).document = .ok root) :
    (Conversion.ofText rules t).result
      = .ok ((rules.locating t).document rules.skipComments root).1 := by
  cases hmarker : rules.marker with
  | text marker => exact result_ofText hmarker hread
  | unusable =>
    have hempty := hread
    rw [hmarker] at hempty
    obtain ⟨attributes, rfl⟩ := Element.ofText_unusable hempty
    rw [Conversion.ofText, hread]
    rfl

/-- Whenever a text is read without a fault, under any rules, it is converted, and the tree is one
of the grammar. -/
theorem convert_grammatical (rules : Rules) (t : Text) (root : Element)
    (hread : (Element.ofText rules.reading rules.marker t).document = .ok root) :
    ∃ tree, (Conversion.ofText rules t).result = .ok tree ∧ tree.IsGrammatical :=
  ⟨_, Conversion.result_of_document hread,
    (rules.locating t).document_isGrammatical rules.skipComments (Element.ofText_regular hread)⟩

/-- A title, a list, a quote and a table with a document in its cell. -/
theorem convert_grammatical_kinds :
    ∃ tree, (Conversion.ofText {} "= T\n\n- x\n\n____\ny\n____\n|===\na|z\n|===".toList).result
      = .ok tree ∧ tree.IsGrammatical :=
  convert_grammatical {} _ (.document (some 1) (some ⟨some 1, "T".toList, 0⟩)
    [.unorderedList (some 3) "-".toList [.item (some 3) (some "x".toList) none []],
      .quoteBlock (some 5) [.paragraph (some 6) ["y".toList]],
      .table (some 8) [] [[.cell (some 9) "z".toList (some Element.asciidocStyle)
        (some (.document (some 1) none [.paragraph (some 9) ["z".toList]] [] "z".toList)) 1]]]
    [] "= T\n\n- x\n\n____\ny\n____\n|===\na|z\n|===".toList)
    (by with_unfolding_all rfl)

end Asciidoc
