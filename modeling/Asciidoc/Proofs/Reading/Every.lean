import Asciidoc.Proofs.Element.Outside
import Asciidoc.Proofs.Node.Kept
import Asciidoc.Proofs.Reading.Reads

/-!
# What holds throughout all that is read

Reading comes to an element in few ways: lines are read as one that holds no other blocks, or an
element is put around what a run of blocks, of items or of entries was read as. `Reading.Arises`
has one constructor for each, and everything read, at any depth and in cells too, comes about in
one of them (`Reads.arises`). This is the one induction over what reading can come to that laws
about whole trees need: a law about what stands directly in an element is read off the run that the
element was put around.

Laws that hang on tables alone ask for less: a property that all tables have that are read, and
that everything has that is no table, holds throughout what is read (`Reads.every`).
-/

namespace Asciidoc

open Text

namespace Element

variable {Q R : Element → Prop} {e : Element}

theorem Every.imp (h : e.Every Q) (hQR : ∀ x, Q x → R x) : e.Every R := by
  induction h with
  | intro self _ ih => exact .intro (hQR _ self) ih

/-- What holds throughout an element holds throughout everything in it. -/
theorem Every.every (h : e.Every Q) : e.Every (Every Q) := by
  induction h with
  | intro self parts ih => exact .intro (.intro self parts) ih

/-- There is nothing in the title line of a document but the title. -/
theorem exists_title_of_mem_titleLine {x y : Element} (hy : y ∈ e.titleLine)
    (hx : x ∈ y.preorder) : ∃ title, x = .header title := by
  unfold titleLine at hy
  split at hy
  · obtain rfl := List.mem_singleton.mp hy
    rw [preorder_eq] at hx
    exact ⟨_, List.mem_singleton.mp hx⟩
  · cases hy

/-- What holds throughout an element holds of everything in it, if it holds of titles. -/
theorem Every.of_mem_preorder (h : e.Every Q) (htitle : ∀ title, Q (.header title)) {x : Element}
    (hx : x ∈ e.preorder) : Q x := by
  induction h with
  | @intro e hself _ ih =>
    rw [preorder_eq] at hx
    rcases List.mem_cons.mp hx with rfl | hx
    · exact hself
    · obtain ⟨y, hy, hx⟩ := List.mem_flatMap.mp hx
      rcases List.mem_append.mp hy with hy | hy
      · obtain ⟨title, rfl⟩ := exists_title_of_mem_titleLine hy hx
        exact htitle title
      · exact ih y hy hx

/-- The level of a section. -/
def level? : Element → Option Int
  | .sectionBlock _ _ level _ => some level
  | _ => none

/-- Whether an element is made of the blocks in a frame, or of a paragraph that is treated so. -/
def isFrame : Element → Bool
  | .quoteBlock .. | .compound .. => true
  | _ => false

/-- What lines are read as that are no heading and hold no other blocks. -/
inductive IsSimple (e : Element) : Prop where
  /-- Nothing is in it. -/
  | alone (hsection : e.level? = none) (htable : e.isTable = false) (hparts : e.parts = [])
  /-- All lines are one paragraph in it. -/
  | around (hframe : e.isFrame = true) {line : Hint} {lines : List Text}
    (hparts : e.parts = [.paragraph line lines])

theorem level?_of_isFrame (h : e.isFrame = true) : e.level? = none := by
  cases e with
  | sectionBlock => cases h
  | _ => rfl

theorem isTable_of_isFrame (h : e.isFrame = true) : e.isTable = false := by
  cases e with
  | table => cases h
  | _ => rfl

theorem IsSimple.level?_eq_none (h : e.IsSimple) : e.level? = none := by
  cases h with
  | alone hsection => exact hsection
  | around hframe => exact level?_of_isFrame hframe

theorem IsSimple.isTable_eq_false (h : e.IsSimple) : e.isTable = false := by
  cases h with
  | alone _ htable => exact htable
  | around hframe => exact isTable_of_isFrame hframe

/-- There is no section in a simple block. -/
theorem IsSimple.level?_of_mem_parts (h : e.IsSimple) {x : Element} (hx : x ∈ e.parts) :
    x.level? = none := by
  cases h with
  | alone _ _ hparts =>
    rw [hparts] at hx
    cases hx
  | around _ hparts =>
    rw [hparts] at hx
    obtain rfl := List.mem_singleton.mp hx
    rfl

theorem level?_of_isDocument (h : e.isDocument = true) : e.level? = none := by
  cases e with
  | sectionBlock => cases h
  | _ => rfl

/-- What is no section has no title with a depth. -/
theorem titledBy_of_level? {D : Int → Prop} (h : e.level? = none) : e.TitledBy D := by
  cases e with
  | sectionBlock => cases h
  | _ => trivial

end Element

open Element (IsSimple)

/-! ## Single blocks -/

section

variable {rules : Rules.Reading} {attributes : BlockAttributes} {first : Token} {c : Cursor}
  {e : Element}

theorem paragraphOf_isSimple {document : List (Text × Text)} {indented : Bool} {rest : List Token}
    (h : paragraphOf rules attributes document indented first rest = some e) : e.IsSimple := by
  unfold paragraphOf at h
  dsimp only at h
  repeat' split at h
  all_goals cases h
  all_goals first
    | exact .alone rfl rfl rfl
    | exact .around rfl rfl

theorem paragraph_isSimple {inList : Bool} (h : (c.paragraph rules inList first).value = some e) :
    e.IsSimple := by
  unfold Cursor.paragraph at h
  dsimp only at h
  split at h
  · exact paragraphOf_isSimple h
  · dsimp only at h
    split at h
    · cases h
    · exact paragraphOf_isSimple h

theorem framedLines?_isSimple {frame : Option Frame} {r : Reached c.size (Option Element)}
    (h : c.framedLines? frame first = some r) (he : r.value = some e) : e.IsSimple := by
  unfold Cursor.framedLines? at h
  dsimp only at h
  repeat' split at h
  all_goals cases h
  all_goals cases he
  all_goals exact .alone rfl rfl rfl

theorem framedBlocks_eq (rules : Rules.Reading) (attributes : BlockAttributes)
    (frame : Option Frame) (opening : Token) (blocks : List Element) :
    (framedBlocks rules attributes frame opening blocks).isFrame = true ∧
      (framedBlocks rules attributes frame opening blocks).parts = blocks := by
  rw [framedBlocks]
  repeat' split
  all_goals exact ⟨rfl, rfl⟩

end

namespace Reading

variable {env : Reading} {admits : Token → Cursor → Prop} {Q R : Element → Prop}

/-- A property of all elements that a part gives. -/
def Part.Holds (P : Element → Prop) : (part : Part) → part.Value → Prop
  | .blocks .., es | .items .., es | .attached .., es => ∀ x ∈ es, P x
  | .block .., e | .attachedBlock, e => ∀ x, e = some x → P x
  | .list .., e | .item .., e | .descriptionList .., e => P e
  | .entries .., es => ∀ e ∈ es, ∀ x ∈ e.items, P x
  | .entry .., e => ∀ x ∈ e.items, P x

theorem Part.Holds.mono {part : Part} {value : part.Value} (h : part.Holds Q value)
    (hQR : ∀ e, Q e → R e) : part.Holds R value := by
  cases part with
  | blocks | items | attached => exact fun x hx => hQR x (h x hx)
  | block | attachedBlock => exact fun x hx => hQR x (h x hx)
  | list | item | descriptionList => exact hQR _ h
  | entries => exact fun entry hentry x hx => hQR x (h entry hentry x hx)
  | entry => exact fun x hx => hQR x (h x hx)

/-! ## How elements come about -/

/-- How reading comes to an element, given what the runs in it were read as. -/
inductive Arises (env : Reading) (admits : Token → Cursor → Prop) : Element → Prop where
  /-- Lines that hold no other blocks. -/
  | simple {e} (h : e.IsSimple) : Arises env admits e
  | headingAlone {line title} {level : Nat} :
    Arises env admits (.sectionBlock line title level [])
  | heading {line title inList} {level : Nat} {c bs last}
      (h : env.Reads admits (.blocks inList level none) c bs last) :
    Arises env admits (.sectionBlock line title level bs)
  /-- The blocks up to a closing delimiter. -/
  | framed {e delimiter c last} (hframe : e.isFrame = true)
      (h : env.Reads admits (.blocks false (-1) (some delimiter)) c e.parts last) :
    Arises env admits e
  | table {t c} {inner : Table.PendingCell → List Element} {after : Table.PendingCell → Cursor}
      (ht : t.kind = .tableDelimiter) (hadmits : admits t c)
      (hcells : ∀ p ∈ Table.cells (c.tableBody t), p.holdsDocument = true →
        env.Reads admits (.blocks false (-1) none) (Cursor.ofCell env.marker c.attributes p)
          (inner p) (after p)) :
    Arises env admits (c.tableAt env t ((Table.cells (c.tableBody t)).map fun p =>
      env.cellOf c.attributes p (inner p) (after p))).1
  /-- A cell, with a document or without. -/
  | cell {line text style inner columns} (h : ∀ x ∈ inner.toList, x.isDocument = true) :
    Arises env admits (.cell line text style inner columns)
  | document {line header attributes source c bs last}
      (h : env.Reads admits (.blocks false (-1) none) c bs last) :
    Arises env admits (.document line header bs attributes source)
  | list {scope marker first c es last}
      (h : env.Reads admits (.items scope marker first) c es last) :
    Arises env admits (listOf first es)
  /-- An item or a description, with the blocks attached to it. -/
  | item {line text checked scope c bs last} (h : env.Reads admits (.attached scope) c bs last) :
    Arises env admits (.item line text checked bs)
  | descriptionList {line marker scope delimiter description first c es last}
      (h : env.Reads admits (.entries scope delimiter description first) c es last) :
    Arises env admits (.descriptionList line marker es)

theorem Arises.every_of_alone {e : Element} (hsection : e.level? = none)
    (htable : e.isTable = false) (hparts : e.parts = []) : e.Every (env.Arises admits) :=
  .intro (.simple (.alone hsection htable hparts)) (by simp [hparts])

/-- The paragraph in a simple block is one itself. -/
theorem Arises.every_of_isSimple {e : Element} (h : e.IsSimple) : e.Every (env.Arises admits) := by
  cases h with
  | alone hsection htable hparts => exact every_of_alone hsection htable hparts
  | around hframe hparts =>
    refine .intro (.simple (.around hframe hparts)) ?_
    rw [hparts]
    exact List.forall_mem_singleton.mpr (every_of_alone rfl rfl rfl)

/-- A description, with the blocks attached to it. -/
theorem Arises.every_of_description {lines : List (Int × Text)} {bs : List Element} {e : Element}
    {scope : List Text} {c last : Cursor} (he : descriptionOf lines bs = some e)
    (h : env.Reads admits (.attached scope) c bs last)
    (hblocks : ∀ x ∈ bs, x.Every (env.Arises admits)) : e.Every (env.Arises admits) := by
  unfold descriptionOf at he
  split at he
  · cases he
  · obtain rfl := Option.some.inj he
    exact .intro (.item h) hblocks
  · obtain rfl := Option.some.inj he
    exact .intro (.item h) hblocks

/-- A cell, and the document in it. -/
theorem Arises.every_of_cell {attributes : List (Text × Text)} {p : Table.PendingCell}
    {bs : List Element} {after : Cursor}
    (h : p.holdsDocument = true → env.Reads admits (.blocks false (-1) none)
      (Cursor.ofCell env.marker attributes p) bs after)
    (hblocks : p.holdsDocument = true → ∀ x ∈ bs, x.Every (env.Arises admits)) :
    (env.cellOf attributes p bs after).cell.2.Every (env.Arises admits) := by
  unfold cellOf
  dsimp only
  split
  next hholds =>
    refine .intro (.cell (List.forall_mem_singleton.mpr rfl)) ?_
    exact List.forall_mem_singleton.mpr (.intro (.document (h hholds)) (hblocks hholds))
  next => exact .intro (.cell nofun) nofun

/-- The elements in a table are the cells that were read for it. -/
theorem exists_of_mem_parts_tableAt {env : Reading} {c : Cursor} {opening : Token}
    {cells : List CellRead} {x : Element} (hx : x ∈ (c.tableAt env opening cells).1.parts) :
    ∃ cell ∈ cells, cell.cell.2 = x := by
  obtain ⟨headerRows, bodyRows, left, htable, hcells⟩ := c.tableAt_eq env opening cells
  rw [htable] at hx
  exact List.mem_map.mp (hcells ▸ List.mem_append_left left hx)

/-- Everything that is read comes about in one of these ways. -/
theorem Reads.arises {part : Part} {c last : Cursor} {value : part.Value}
    (h : env.Reads admits part c value last) :
    part.Holds (Element.Every (env.Arises admits)) value := by
  have hoption {e : Option Element} {es : List Element}
      (he : ∀ x, e = some x → x.Every (env.Arises admits))
      (hes : ∀ x ∈ es, x.Every (env.Arises admits)) :
      ∀ x ∈ e.toList ++ es, x.Every (env.Arises admits) := by
    intro x hx
    rcases List.mem_append.mp hx with hx | hx
    · exact he x (Option.mem_toList.mp hx)
    · exact hes x hx
  induction h with
  | blocksEnd | blocksClosed | blocksHeading | attachedEnd => exact nofun
  | blocksCons _ _ _ _ _ ihfirst ihmore => exact hoption ihfirst ihmore
  | metadata | nothingAttached => exact nofun
  | lineBreak | fence =>
    rintro x ⟨⟩
    exact Arises.every_of_alone rfl rfl rfl
  | headingAlone =>
    rintro x ⟨⟩
    exact .intro .headingAlone nofun
  | heading _ hblocks ih =>
    rintro x ⟨⟩
    exact .intro (.heading hblocks) ih
  | listBlock _ _ ih | descriptionBlock _ _ ih =>
    rintro x ⟨⟩
    exact ih
  | framedLines _ hlines =>
    exact fun x hx => Arises.every_of_isSimple (framedLines?_isSimple hlines hx)
  | @framedBlocks _ _ t c frame bs _ _ _ hblocks ih =>
    rintro x ⟨⟩
    obtain ⟨hframe, hparts⟩ := framedBlocks_eq env.rules c.pending frame t bs
    rw [← hparts] at hblocks ih
    exact .intro (.framed hframe hblocks) ih
  | table ht hadmits hcells ih =>
    rintro x ⟨⟩
    refine .intro (.table ht hadmits hcells) fun x hx => ?_
    obtain ⟨cell, hcell, rfl⟩ := exists_of_mem_parts_tableAt hx
    obtain ⟨p, hp, rfl⟩ := List.mem_map.mp hcell
    exact Arises.every_of_cell (hcells p hp) (ih p hp)
  | paragraph => exact fun x hx => Arises.every_of_isSimple (paragraph_isSimple hx)
  | @list _ _ first _ es _ hitems ih =>
    have hparts : (listOf first es).parts = es := by
      unfold listOf
      split <;> rfl
    exact .intro (.list hitems) (by rwa [hparts])
  | itemsLast _ _ ih => exact List.forall_mem_singleton.mpr ih
  | itemsCons _ _ _ _ ihitem ihitems => exact List.forall_mem_cons.mpr ⟨ihitem, ihitems⟩
  | item hattached ih => exact .intro (.item hattached) ih
  | attachedCons _ _ _ _ ihfirst ihmore => exact hoption ihfirst ihmore
  | attachedList _ _ _ _ _ ihlist ihmore | attachedDescriptions _ _ _ _ _ ihlist ihmore =>
    exact List.forall_mem_cons.mpr ⟨ihlist, ihmore⟩
  | metadataAttached _ _ _ _ _ _ ihmore => exact ihmore
  | blockAttached _ _ _ _ ih => exact ih
  | descriptionList hentries ih =>
    refine .intro (.descriptionList hentries) fun x hx => ?_
    obtain ⟨entry, hentry, hx⟩ := List.mem_flatMap.mp hx
    exact ih entry hentry x hx
  | entriesLast _ _ ih => exact List.forall_mem_singleton.mpr ih
  | entriesCons _ _ _ _ ihentry ihentries => exact List.forall_mem_cons.mpr ⟨ihentry, ihentries⟩
  | entry hattached ih =>
    intro x hx
    rcases Entry.mem_items.mp hx with hx | hx
    · obtain ⟨t, -, rfl⟩ := List.mem_map.mp hx
      exact Arises.every_of_alone rfl rfl rfl
    · exact Arises.every_of_description hx hattached ih

/-! ## Laws about tables -/

/-- A property that everything has that is no table, if the sections it is asked of have a level. -/
def OfOthers (Q : Element → Prop) : Prop :=
  ∀ e : Element, e.isTable = false → (e.TitledBy fun depth => 1 ≤ depth) → Q e

/-- A cell, and the blocks of its document if it has one. -/
theorem cellOf_every (hQ : OfOthers Q) (env : Reading) (attributes : List (Text × Text))
    (p : Table.PendingCell) {blocks : List Element} (after : Cursor)
    (h : p.holdsDocument = true → ∀ x ∈ blocks, x.Every Q) :
    (env.cellOf attributes p blocks after).cell.2.Every Q := by
  unfold cellOf
  dsimp only
  split
  next hholds =>
    refine .intro (hQ _ rfl trivial) fun x hx => ?_
    obtain rfl := List.mem_singleton.mp hx
    exact .intro (hQ _ rfl trivial) (h hholds)
  next => exact .intro (hQ _ rfl trivial) nofun

/-- What holds of all tables that are read, and of everything that is no table, holds throughout
what is read. -/
theorem Reads.every {part : Part} {c last : Cursor} {value : part.Value}
    (h : env.Reads admits part c value last) (hQ : OfOthers Q)
    (htable : ∀ {t : Token} {c : Cursor} {inner : Table.PendingCell → List Element}
      {after : Table.PendingCell → Cursor}, t.kind = .tableDelimiter → admits t c →
        (∀ p ∈ Table.cells (c.tableBody t), p.holdsDocument = true →
          env.Reads admits (.blocks false (-1) none) (Cursor.ofCell env.marker c.attributes p)
            (inner p) (after p)) →
          Q (c.tableAt env t ((Table.cells (c.tableBody t)).map fun p =>
            env.cellOf c.attributes p (inner p) (after p))).1) :
    part.Holds (Element.Every Q) value := by
  refine h.arises.mono fun e he => he.imp fun x hx => ?_
  cases hx with
  | simple hsimple =>
    exact hQ x hsimple.isTable_eq_false (Element.titledBy_of_level? hsimple.level?_eq_none)
  | headingAlone | heading => exact hQ _ rfl (by simp only [Element.TitledBy]; omega)
  | framed hframe =>
    exact hQ x (Element.isTable_of_isFrame hframe)
      (Element.titledBy_of_level? (Element.level?_of_isFrame hframe))
  | table ht hadmits hcells => exact htable ht hadmits hcells
  | list =>
    unfold listOf
    split <;> exact hQ _ rfl trivial
  | cell | document | item | descriptionList => exact hQ _ rfl trivial

end Reading

/-- Everything in a document that is read comes about in one of the ways of reading. -/
theorem Cursor.readDocument_arises (c : Cursor) (env : Reading) (allowHeader : Bool)
    (source : Text) :
    (c.readDocument env allowHeader source).1.Every (env.Arises Reading.Anywhere) :=
  have hblocks := env.blocks_reads false (-1) none _
  .intro (.document hblocks) hblocks.arises

/-- What holds of all tables that can be read, and of everything that is no table, holds throughout
a document. -/
theorem Cursor.readDocument_every {Q : Element → Prop} (c : Cursor) (env : Reading)
    (allowHeader : Bool) (source : Text) (hQ : Reading.OfOthers Q)
    (htable : ∀ {t : Token} {c : Cursor} {inner : Table.PendingCell → List Element}
      {after : Table.PendingCell → Cursor}, t.kind = .tableDelimiter →
        (∀ p ∈ Table.cells (c.tableBody t), p.holdsDocument = true →
          env.Reads Reading.Anywhere (.blocks false (-1) none)
            (Cursor.ofCell env.marker c.attributes p) (inner p) (after p)) →
          Q (c.tableAt env t ((Table.cells (c.tableBody t)).map fun p =>
            env.cellOf c.attributes p (inner p) (after p))).1) :
    (c.readDocument env allowHeader source).1.Every Q :=
  .intro (hQ _ rfl trivial)
    ((env.blocks_reads false (-1) none _).every hQ fun ht _ hcells => htable ht hcells)

end Asciidoc
