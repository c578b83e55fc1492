import Asciidoc.Proofs.Reading.Equations

/-!
# Rows partition the cells of a table

The cells of a table come one after the other, and a row is done with the cell that fills its
columns, however many that cell spans; a cell may span none, and then the row goes on. So the rows
are the cells in order up to some cell, each row is filled by its last cell and not before, and the
cells after the last row do not fill one (`rowsFrom_fill`). The number of columns is never zero,
whatever a column specification or the first line counts (`columnCount_pos`): no row is done before
it has begun. A header is the first row taken apart from the others.
-/

namespace Asciidoc

open Text

/-- The number of columns a cell spans. -/
def Element.columns : Element → Int
  | .cell _ _ _ _ columns => columns
  | _ => 0

namespace Table

/-- The number of columns that cells span together. -/
def width : List Element → Int
  | [] => 0
  | e :: row => e.columns + width row

/-- Cells fill a row of some columns: they span them all, and without the last they do not. -/
structure Fills (columns : Nat) (row : List Element) : Prop where
  filled : columns ≤ width row
  open_before : width row.dropLast < columns

theorem width_nil : width [] = (0 : Nat) := rfl

theorem width_concat (row : List Element) (e : Element) :
    width (row ++ [e]) = width row + e.columns := by
  induction row with
  | nil => exact Int.add_comm _ _
  | cons first row ih => rw [List.cons_append, width, width, ih, Int.add_assoc]

theorem totalColumns_pos (counts : List Nat) : 0 < totalColumns counts :=
  Nat.lt_of_lt_of_le Nat.one_pos (Nat.le_max_right _ _)

/-- A table has a column at least. -/
theorem columnCount_pos (cols : Text) (cells : List PendingCell) : 0 < columnCount cols cells := by
  unfold columnCount
  split
  · split
    · exact Nat.one_pos
    · exact totalColumns_pos _
  · exact totalColumns_pos _

/-- If a row has begun that is not filled, all rows are filled by their last cells, and what is left
does not fill one. -/
theorem rowsFrom_fill {columns : Nat} (hcolumns : 0 < columns) {cells : List (Nat × Element)}
    (hcells : ∀ cell ∈ cells, cell.2.columns = cell.1) {begun : List Element} {spanned : Nat}
    (hbegun : width begun = spanned) (hopen : spanned < columns) :
    (∀ row ∈ (rowsFrom columns begun spanned cells).1, Fills columns row) ∧
      width (rowsFrom columns begun spanned cells).2 < columns := by
  induction cells generalizing begun spanned with
  | nil =>
    refine ⟨nofun, ?_⟩
    rw [rowsFrom, hbegun]
    exact Int.ofNat_lt.mpr hopen
  | cons cell rest ih =>
    obtain ⟨hcell, hrest⟩ := List.forall_mem_cons.mp hcells
    obtain ⟨span, e⟩ := cell
    have hmore : width (begun ++ [e]) = (spanned + span : Nat) := by
      rw [width_concat, hbegun, hcell, Int.natCast_add]
    rw [rowsFrom]
    split
    next hfilled =>
      obtain ⟨hrows, hleft⟩ := ih hrest width_nil hcolumns
      refine ⟨List.forall_mem_cons.mpr ⟨⟨?_, ?_⟩, hrows⟩, hleft⟩
      · rw [hmore]
        exact Int.ofNat_le.mpr hfilled
      · rw [List.dropLast_concat, hbegun]
        exact Int.ofNat_lt.mpr hopen
    next hfilled => exact ih hrest hmore (by omega)

/-- A row that is done has the cell that fills it. -/
theorem ne_nil_of_mem_rowsFrom {α : Type} {columns : Nat} {cells : List (Nat × α)} {begun : List α}
    {spanned : Nat} {row : List α} (h : row ∈ (rowsFrom columns begun spanned cells).1) :
    row ≠ [] := by
  induction cells generalizing begun spanned with
  | nil => cases h
  | cons cell rest ih =>
    rw [rowsFrom] at h
    split at h
    · rcases List.mem_cons.mp h with rfl | h
      · exact List.append_ne_nil_of_right_ne_nil _ (List.cons_ne_nil _ _)
      · exact ih h
    · exact ih h

end Table

/-- A table has the rows that its cells are laid out in, of which the first may be its header. -/
theorem tableOf_rows (rules : Rules.Reading) (attributes : BlockAttributes) (opening : Token)
    (body : List Token) (rows : List (List Element)) :
    ∃ headerRows bodyRows, tableOf rules attributes opening body rows
        = .table (some opening.line) headerRows bodyRows ∧
      headerRows ++ bodyRows = rows ∧ headerRows.length ≤ 1 := by
  unfold tableOf
  split
  · exact ⟨[], [], rfl, rfl, Nat.zero_le _⟩
  · next first rest =>
    split
    · exact ⟨[first], rest, rfl, rfl, Nat.le_refl _⟩
    · exact ⟨[], first :: rest, rfl, rfl, Nat.zero_le _⟩

namespace Reading

/-- A cell that is read spans the columns it is counted for. -/
theorem columns_cellOf (env : Reading) (attributes : List (Text × Text)) (p : Table.PendingCell)
    (blocks : List Element) (after : Cursor) :
    (env.cellOf attributes p blocks after).cell.2.columns
      = (env.cellOf attributes p blocks after).cell.1 := by
  unfold cellOf
  dsimp only
  split <;> rfl

/-- The rows of a table partition its cells. From whatever place a table is read, its header rows
and then its body rows hold the cells of the lines between its delimiters in order, up to some cell;
each row is filled by its last cell and not before, and the cells that are left do not fill one.
There is at most one header row, which so is the first. -/
theorem table_partitions_cells (env : Reading) (opening : Token) (c : Cursor) :
    let pending := Table.cells (c.tableBody opening)
    let columns := Table.columnCount ((c.pending.value? "cols".toList).getD []) pending
    let cells := pending.map fun p => (env.cell c.attributes p).cell.2
    ∃ headerRows bodyRows left,
      (env.table opening c).value = .table (some opening.line) headerRows bodyRows ∧
      (headerRows ++ bodyRows).flatten ++ left = cells ∧
      (∀ row ∈ headerRows ++ bodyRows, Table.Fills columns row) ∧
      Table.width left < columns ∧ headerRows.length ≤ 1 := by
  intro pending columns cells
  have hout : (env.table opening c).value
      = (c.tableAt env opening (pending.map (env.cell c.attributes))).1 :=
    congrArg Prod.fst (env.table_out opening c)
  let counted := (pending.map (env.cell c.attributes)).map (·.cell)
  have hcounted : ∀ cell ∈ counted, cell.2.columns = cell.1 := by
    intro cell hcell
    obtain ⟨read, hread, rfl⟩ := List.mem_map.mp hcell
    obtain ⟨p, -, rfl⟩ := List.mem_map.mp hread
    rw [env.cell_eq]
    exact env.columns_cellOf c.attributes p _ _
  have hflatten := Table.flatten_rowsFrom columns [] 0 counted
  have hcolumns : 0 < columns := Table.columnCount_pos _ pending
  obtain ⟨hrows, hleft⟩ := Table.rowsFrom_fill hcolumns hcounted Table.width_nil hcolumns
  obtain ⟨headerRows, bodyRows, htable, hboth, hheader⟩ := tableOf_rows env.rules c.pending opening
    (c.tableBody opening) (Table.rows columns counted).1
  refine ⟨headerRows, bodyRows, (Table.rows columns counted).2, hout.trans htable, ?_, ?_, hleft,
    hheader⟩
  · rw [hboth]
    refine hflatten.trans ?_
    simp only [counted, cells, List.map_map, List.nil_append]
    rfl
  · rw [hboth]
    exact hrows

end Reading

end Asciidoc
