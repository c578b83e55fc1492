import Asciidoc.Proofs.Reading.Every

/-!
# Which elements stand in which

The type of elements lets any element stand in any other. What is read is arranged: among blocks
there are only blocks, in a list only items, in a table only cells, and in a cell at most a
document, which stands nowhere else below the root (`Cursor.readDocument_arranged`). It is the
parts of a document and how they are read that decide it, so the proof is one induction over
`Reads`, with the role that each part gives to what is read for it.
-/

namespace Asciidoc

open Text

/-- What a part of a document stands for in another: as an element and as a node. -/
inductive Role where
  | document
  | block
  /-- An item of a list, a term or a description. -/
  | item
  /-- A row of cells, which is no element of its own. -/
  | row
  | cell
  /-- A piece of text, which is no element of its own. -/
  | text
deriving DecidableEq, Repr

namespace Element

/-- The role of an element. -/
def role : Element → Role
  | .document .. => .document
  | .item .. => .item
  | .cell .. => .cell
  | _ => .block

/-- The role of what stands directly in an element. -/
def partRole : Element → Role
  | .unorderedList .. | .orderedList .. | .descriptionList .. => .item
  | .table .. => .cell
  | .cell .. => .document
  | _ => .block

/-- What stands directly in an element has the role for it. -/
def IsArranged (e : Element) : Prop := ∀ x ∈ e.parts, x.role = e.partRole

/-- An element of a role in which everything is arranged. -/
def Arranged (role : Role) (e : Element) : Prop := e.Every IsArranged ∧ e.role = role

variable {e : Element} {role : Role}

theorem Arranged.of_parts (hrole : e.role = role) (h : ∀ x ∈ e.parts, x.Arranged e.partRole) :
    e.Arranged role :=
  ⟨.intro (fun x hx => (h x hx).2) fun x hx => (h x hx).1, hrole⟩

theorem Arranged.leaf (hrole : e.role = role) (h : e.parts = []) : e.Arranged role :=
  .of_parts hrole (by simp [h])

end Element

namespace Reading

open Element

/-- The role of what is read for a part. -/
def Part.role : Part → Role
  | .items .. | .item .. | .entries .. | .entry .. => .item
  | _ => .block

theorem paragraphOf_arranged {rules : Rules.Reading} {attributes : BlockAttributes}
    {document : List (Text × Text)} {indented : Bool} {first : Token} {rest : List Token}
    {e : Element} (h : paragraphOf rules attributes document indented first rest = some e) :
    e.Arranged .block := by
  unfold paragraphOf at h
  dsimp only at h
  repeat' split at h
  all_goals cases h
  all_goals first
    | exact .leaf rfl rfl
    | exact .of_parts rfl fun x hx => by
        obtain rfl := List.mem_singleton.mp hx
        exact .leaf rfl rfl

theorem framedLines?_arranged {c : Cursor} {frame : Option Frame} {opening : Token}
    {r : Reached c.size (Option Element)} (h : c.framedLines? frame opening = some r)
    {e : Element} (he : r.value = some e) : e.Arranged .block := by
  unfold Cursor.framedLines? at h
  dsimp only at h
  repeat' split at h
  all_goals cases h
  all_goals cases he
  all_goals exact .leaf rfl rfl

theorem framedBlocks_arranged {rules : Rules.Reading} {attributes : BlockAttributes}
    {frame : Option Frame} {opening : Token} {blocks : List Element}
    (h : ∀ x ∈ blocks, x.Arranged .block) :
    (framedBlocks rules attributes frame opening blocks).Arranged .block := by
  rw [framedBlocks]
  repeat' split
  all_goals exact .of_parts rfl h

/-- A cell holds the document that is read for it, or nothing. -/
theorem cellOf_arranged (env : Reading) (attributes : List (Text × Text))
    (p : Table.PendingCell) {blocks : List Element} (after : Cursor)
    (h : p.holdsDocument = true → ∀ x ∈ blocks, x.Arranged .block) :
    (env.cellOf attributes p blocks after).cell.2.Arranged .cell := by
  unfold cellOf
  dsimp only
  split
  next hholds =>
    refine .of_parts rfl fun x hx => ?_
    obtain rfl := List.mem_singleton.mp hx
    exact .of_parts rfl (h hholds)
  next => exact .leaf rfl rfl

theorem tableAt_arranged (env : Reading) (c : Cursor) (opening : Token) {cells : List CellRead}
    (h : ∀ read ∈ cells, read.cell.2.Arranged .cell) :
    (c.tableAt env opening cells).1.Arranged .block := by
  obtain ⟨headerRows, bodyRows, left, htable, hcells⟩ := c.tableAt_eq env opening cells
  rw [htable]
  refine .of_parts rfl fun x hx => ?_
  obtain ⟨read, hread, rfl⟩ := List.mem_map.mp (hcells ▸ List.mem_append_left left hx)
  exact h read hread

/-- What is read for a part has the role of the part, and everything in it is arranged. -/
theorem Reads.arranged {env : Reading} {admits : Token → Cursor → Prop} {part : Part}
    {c last : Cursor} {value : part.Value} (h : env.Reads admits part c value last) :
    part.Holds (Element.Arranged part.role) value := by
  have hoption {e : Option Element} {es : List Element} (he : ∀ x, e = some x → x.Arranged .block)
      (hes : ∀ x ∈ es, x.Arranged .block) : ∀ x ∈ e.toList ++ es, x.Arranged .block := by
    intro x hx
    rcases List.mem_append.mp hx with hx | hx
    · exact he x (Option.mem_toList.mp hx)
    · exact hes x hx
  induction h with
  | blocksEnd | blocksClosed | blocksHeading | attachedEnd => exact nofun
  | blocksCons _ _ _ _ _ ihfirst ihmore => exact hoption ihfirst ihmore
  | metadata | nothingAttached => exact nofun
  | lineBreak | headingAlone | fence =>
    rintro x ⟨⟩
    exact .leaf rfl rfl
  | heading _ _ ih =>
    rintro x ⟨⟩
    exact .of_parts rfl ih
  | listBlock _ _ ih | descriptionBlock _ _ ih =>
    rintro x ⟨⟩
    exact ih
  | framedLines _ hlines => exact fun x hx => framedLines?_arranged hlines hx
  | framedBlocks _ _ _ ih =>
    rintro x ⟨⟩
    exact framedBlocks_arranged ih
  | table _ _ _ ih =>
    rintro x ⟨⟩
    refine tableAt_arranged _ _ _ fun read hread => ?_
    obtain ⟨p, hp, rfl⟩ := List.mem_map.mp hread
    exact cellOf_arranged _ _ p _ (ih p hp)
  | paragraph =>
    intro x hx
    unfold Cursor.paragraph at hx
    dsimp only at hx
    split at hx
    · exact paragraphOf_arranged hx
    · dsimp only at hx
      split at hx
      · cases hx
      · exact paragraphOf_arranged hx
  | list _ ih =>
    unfold listOf
    split <;> exact .of_parts rfl ih
  | itemsLast _ _ ih =>
    intro x hx
    obtain rfl := List.mem_singleton.mp hx
    exact ih
  | itemsCons _ _ _ _ ihitem ihitems => exact List.forall_mem_cons.mpr ⟨ihitem, ihitems⟩
  | item _ ih => exact .of_parts rfl ih
  | attachedCons _ _ _ _ ihfirst ihmore => exact hoption ihfirst ihmore
  | attachedList _ _ _ _ _ ihlist ihmore | attachedDescriptions _ _ _ _ _ ihlist ihmore =>
    exact List.forall_mem_cons.mpr ⟨ihlist, ihmore⟩
  | metadataAttached _ _ _ _ _ _ ihmore => exact ihmore
  | blockAttached _ _ _ _ ih => exact ih
  | descriptionList _ ih =>
    refine .of_parts rfl fun x hx => ?_
    obtain ⟨entry, hentry, hx⟩ := List.mem_flatMap.mp hx
    exact ih entry hentry x hx
  | entriesLast _ _ ih =>
    intro e he
    obtain rfl := List.mem_singleton.mp he
    exact ih
  | entriesCons _ _ _ _ ihentry ihentries => exact List.forall_mem_cons.mpr ⟨ihentry, ihentries⟩
  | entry _ ih =>
    intro x hx
    rcases Entry.mem_items.mp hx with hx | hx
    · obtain ⟨t, -, rfl⟩ := List.mem_map.mp hx
      exact .leaf rfl rfl
    · unfold Cursor.entryOf at hx
      dsimp only at hx
      unfold descriptionOf at hx
      split at hx
      · cases hx
      · obtain rfl := Option.some.inj hx
        exact .of_parts rfl ih
      · obtain rfl := Option.some.inj hx
        exact .of_parts rfl ih

end Reading

/-- Everything in a document that is read is arranged. -/
theorem Cursor.readDocument_arranged (c : Cursor) (env : Reading) (allowHeader : Bool)
    (source : Text) : (c.readDocument env allowHeader source).1.Arranged .document :=
  .of_parts rfl (env.blocks_reads false (-1) none _).arranged

end Asciidoc
