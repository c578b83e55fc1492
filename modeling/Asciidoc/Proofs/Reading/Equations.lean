import Asciidoc.Proofs.Reading.Reads

/-!
# The reader without its bounds

The functions that look ahead carry the bound that their recursion ends by through every match. Here
each of them is given as an equation about what is read and the place after it alone
(`Reached.out`), in which nothing hangs on a bound, so that two runs can be compared line by line.
-/

namespace Asciidoc

open Text

/-- What was read and the place after it. -/
def Reached.out {n : Nat} {α : Type} (r : Reached n α) : α × Cursor := (r.value, r.cursor)

/-- What a delimiter makes of the lines behind it, if its content is lines. -/
def blockOfLines? (frame : Option Frame) (attributes : BlockAttributes)
    (document : List (Text × Text)) (line : Hint) : Option (List Text → Option Element) :=
  let style := attributes.style
  if frame = some .comment then some fun _ => none
  else if frame = some .listing || (frame = none && listingStyles.contains style) then
    some fun lines => some (.listing line lines (languageOf attributes document))
  else if frame = some .literal then some fun lines => some (.literal line lines)
  else if frame = some .pass || passStyles.contains style then
    some fun _ => some (.unsupported line
      (if style.isEmpty then (frame.elim "open" Frame.name).toList else style))
  else none

theorem Cursor.framedLines?_eq (c : Cursor) (frame : Option Frame) (opening : Token) :
    c.framedLines? frame opening
      = (blockOfLines? frame c.pending c.attributes (some opening.line)).map
        (c.clearPending.verbatim opening.content).map := by
  unfold Cursor.framedLines? blockOfLines?
  dsimp only
  split
  · rfl
  split
  · rfl
  split
  · rfl
  split
  · rfl
  · rfl

namespace Reading

variable (env : Reading)

/-- A run of blocks ends, or goes on after its first block. -/
theorem blocks_out (inList : Bool) (level : Int) (closing : Option Text) (c : Cursor) :
    (env.blocks inList level closing c).out =
      match c.skipBlank.unread with
      | [] => ([], closing.elim c.skipBlank fun delimiter =>
          c.skipBlank.notice (.unclosedBlock delimiter))
      | t :: rest =>
        if closing = some t.content ∧ t.isDelimiter = true then ([], c.skipBlank.moveTo rest)
        else if closing = none ∧ t.endsSection level = true then ([], c.skipBlank)
        else
          let first := env.block inList closing.isSome t (c.skipBlank.moveTo rest)
          let more := env.blocks inList level closing first.cursor
          (first.value.toList ++ more.value, more.cursor) := by
  rw [blocks.eq_def]
  split
  next h =>
    rw [h]
    cases closing <;> rfl
  next t rest h =>
    conv => rhs; rw [h]
    dsimp only
    split
    · rfl
    · split <;> rfl

/-- After an item come those with the same marker. -/
theorem items_out (scope : List Text) (marker : Text) (first : Token) (c : Cursor) :
    (env.items scope marker first c).out =
      let read := env.item scope first c
      match read.cursor.skipBlank.unread with
      | [] => ([read.value], read.cursor.skipBlank)
      | t :: rest =>
        if t.marker? = some marker then
          let more := env.items scope marker t (read.cursor.skipBlank.moveTo rest)
          (read.value :: more.value, more.cursor)
        else ([read.value], read.cursor.skipBlank) := by
  rw [items.eq_def]
  dsimp only
  split
  next h =>
    rw [h]
    rfl
  next t rest h =>
    conv => rhs; rw [h]
    dsimp only
    split <;> rfl

/-- What belongs to an item comes after a plus sign, or is a list whose marker is new. -/
theorem attached_out (scope : List Text) (c : Cursor) :
    (env.attached scope c).out =
      match c.unread with
      | [] => ([], c)
      | t :: rest =>
        if t.kind = .continuation then
          let first := env.attachedBlock (c.moveTo rest)
          let more := env.attached scope first.cursor
          (first.value.toList ++ more.value, more.cursor)
        else
          match c.skipBlank.unread with
          | [] => ([], c)
          | candidate :: after =>
            match candidate.marker?, candidate.kind with
            | some marker, _ =>
              if scope.contains marker then ([], c)
              else
                let first := env.list scope marker candidate (c.moveTo after)
                let more := env.attached scope first.cursor
                (first.value :: more.value, more.cursor)
            | none, .term delimiter description =>
              if scope.contains delimiter then ([], c)
              else
                let first :=
                  env.descriptionList scope delimiter description candidate (c.moveTo after)
                let more := env.attached scope first.cursor
                (first.value :: more.value, more.cursor)
            | none, _ => ([], c) := by
  rw [attached.eq_def]
  split
  next h =>
    rw [h]
    rfl
  next t rest h =>
    conv => rhs; rw [h]
    dsimp only
    split
    · rfl
    · split
      next hc =>
        rw [hc]
        rfl
      next candidate after hc =>
        conv => rhs; rw [hc]
        dsimp only
        generalize candidate.marker? = marker
        generalize candidate.kind = kind
        cases marker with
        | some marker =>
          dsimp only
          split <;> rfl
        | none =>
          cases kind with
          | term delimiter description =>
            dsimp only
            split <;> rfl
          | _ => rfl

/-- Lines that say something about the block after a plus sign are passed over. -/
theorem attachedBlock_out (c : Cursor) :
    (env.attachedBlock c).out =
      match c.unread with
      | [] => (none, c)
      | t :: rest =>
        if t.kind = .blank then (none, c)
        else
          let read := env.block true false t (c.moveTo rest)
          if read.value.isNone = true ∧ t.isMetadata = true then (env.attachedBlock read.cursor).out
          else (read.value, read.cursor) := by
  rw [attachedBlock.eq_def]
  split
  next h =>
    rw [h]
    rfl
  next t rest h =>
    conv => rhs; rw [h]
    dsimp only
    split
    · rfl
    · split <;> rfl

/-- After an entry come those with the same delimiter. -/
theorem entries_out (scope : List Text) (delimiter description : Text) (first : Token)
    (c : Cursor) :
    (env.entries scope delimiter description first c).out =
      let read := env.entry scope delimiter description first c
      match read.cursor.skipBlank.unread with
      | [] => ([read.value], read.cursor.skipBlank)
      | t :: rest =>
        match t.description? delimiter with
        | some other =>
          let more := env.entries scope delimiter other t (read.cursor.skipBlank.moveTo rest)
          (read.value :: more.value, more.cursor)
        | none => ([read.value], read.cursor.skipBlank) := by
  rw [entries.eq_def]
  dsimp only
  split
  next h =>
    rw [h]
    rfl
  next t rest h =>
    obtain ⟨found, hfound⟩ : ∃ found, t.description? delimiter = found := ⟨_, rfl⟩
    conv => rhs; rw [h]; dsimp only; rw [hfound]
    cases found with
    | none =>
      split
      next other ht => cases hfound.symm.trans ht
      next => rfl
    | some other =>
      split
      next other' ht =>
        obtain rfl := Option.some.inj (hfound.symm.trans ht)
        rfl
      next ht => cases hfound.symm.trans ht

/-- A table is made of the cells that are on its lines. -/
theorem table_out (opening : Token) (c : Cursor) :
    (env.table opening c).out =
      c.tableAt env opening ((Table.cells (c.tableBody opening)).map (env.cell c.attributes)) := by
  have hread : ((Table.cells (c.tableBody opening)).attach.map fun p =>
      env.cell c.attributes p.1) = (Table.cells (c.tableBody opening)).map (env.cell c.attributes) :=
    List.attach_map_val
  rw [← hread, table.eq_def]
  rfl

end Reading

end Asciidoc
