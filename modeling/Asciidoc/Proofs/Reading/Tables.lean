import Asciidoc.Proofs.Reading.Every
import Asciidoc.Proofs.Reading.Hints
import Asciidoc.Proofs.Reading.Progress
import Asciidoc.Proofs.Table.Gathered

/-!
# Tables are outside cells

A table is opened by a line that begins with a bar, and a bar at the beginning of a line starts a
cell. So no line of a cell opens a table, and the document in a cell has none at any depth: all
tables of a document are among the elements outside cells (`Cursor.mem_outside_of_isTable`).
-/

namespace Asciidoc

open Text

/-- An element and everything inside it is no table. -/
def Element.Tableless (e : Element) : Prop := e.Every fun x => x.isTable = false

namespace Reading

variable {env : Reading} {admits : Token → Cursor → Prop}

/-- Where no line opens a table, none is read. -/
theorem Reads.tableless {part : Part} {c last : Cursor} {value : part.Value}
    (h : env.Reads admits part c value last)
    (hlines : ∀ t ∈ part.lines c, t.kind ≠ .tableDelimiter) :
    part.Holds Element.Tableless value := by
  have hnarrow := h.narrow (Q := fun lines => ∀ t ∈ lines, t.kind ≠ .tableDelimiter)
    (fun lines behind hbehind hlines t ht => hlines t (hbehind.subset ht))
    (fun lines inner hstarts hlines => by
      cases hstarts with
      | cell hplace ht => exact absurd ht (hlines _ (hplace.subset List.mem_cons_self)))
    hlines
  exact hnarrow.every (fun _ h _ => h) fun ht hadmits _ => absurd ht (hadmits _ List.mem_cons_self)

/-- Classified lines of a text or of a cell: they are numbered forward, and blank ones have
only blanks. -/
structure AreLines (lines : List Token) : Prop where
  grow : LinesGrow lines
  blank : ∀ t ∈ lines, t.kind = .blank → trim t.text = []

theorem trim_of_blank {marker : Text} {number : Int} {line : Text}
    (h : (Token.ofLine marker number line).kind = .blank) :
    trim (Token.ofLine marker number line).text = [] :=
  (trim_eq_nil_iff _).mpr (Token.allBlank_of_blank h)

theorem AreLines.suffix {lines behind : List Token} (h : AreLines lines)
    (hbehind : behind <:+ lines) : AreLines behind :=
  ⟨h.grow.suffix hbehind, fun t ht => h.blank t (hbehind.subset ht)⟩

theorem areLines_tokens (s : Source) (marker : Text) : AreLines (s.tokens marker) := by
  refine ⟨(s.tokens_grow marker).1, fun t ht => ?_⟩
  obtain ⟨entry, -, rfl⟩ := List.mem_map.mp ht
  exact trim_of_blank

theorem AreLines.tableBody {c : Cursor} (h : AreLines c.unread) (opening : Token) :
    AreLines (c.tableBody opening) := by
  obtain ⟨closing, hunread⟩ := tableSpan_eq opening.content c.unread
  obtain ⟨hgrow, hblank⟩ := h
  unfold LinesGrow at hgrow
  rw [hunread] at hgrow hblank
  exact ⟨(List.pairwise_append.mp hgrow).1, fun t ht => hblank t (List.mem_append_left _ ht)⟩

theorem AreLines.ofCell {c : Cursor} {opening : Token} (h : AreLines (c.tableBody opening))
    {p : Table.PendingCell} (hp : p ∈ Table.cells (c.tableBody opening)) (marker : Text)
    (attributes : List (Text × Text)) : AreLines (Cursor.ofCell marker attributes p).unread := by
  refine ⟨(unread_ofCell marker attributes ((Table.cells_numbered h.grow).each p hp)).1,
    fun t ht => ?_⟩
  obtain ⟨entry, -, rfl⟩ := List.mem_map.mp ht
  exact trim_of_blank

/-- No line of a cell opens a table. -/
theorem AreLines.kind_ne_tableDelimiter {body : List Token} (h : AreLines body)
    {p : Table.PendingCell} (hp : p ∈ Table.cells body) (marker : Text)
    (attributes : List (Text × Text)) :
    ∀ t ∈ (Cursor.ofCell marker attributes p).unread, t.kind ≠ .tableDelimiter := by
  intro t ht hkind
  obtain ⟨entry, hentry, rfl⟩ := List.mem_map.mp ht
  obtain ⟨spots, hspots, hspread⟩ := Table.cells_spread h.blank h.grow
  have hmem : entry ∈ (Table.cells body).flatMap (·.lines) :=
    List.mem_flatMap.mpr ⟨p, hp, p.content_subset hentry⟩
  obtain ⟨a, ha, rfl⟩ := List.mem_map.mp (hspots ▸ hmem)
  obtain ⟨-, -, -, -, hbars⟩ := hspread.each a ha
  have hhead : (trim (dropReturns a.entry.2)).head? = some '|' :=
    Token.head?_of_tableDelimiter hkind
  rw [trim_dropReturns] at hhead
  exact Table.head?_of_barless (Table.barless_trim hbars) hhead

/-- Of the tables that are read from lines of a text none is in a cell of another. -/
theorem Reads.every_tableless {part : Part} {c last : Cursor} {value : part.Value}
    (h : env.Reads admits part c value last) (hlines : AreLines (part.lines c)) :
    part.Holds (Element.Every fun e => e.isTable = true → ∀ x ∈ e.parts, x.Tableless) value := by
  have hstarts (lines inner : List Token) (h : env.Starts lines inner) (hlines : AreLines lines) :
      AreLines inner := by
    cases h with
    | @cell t c p hplace ht hp =>
      have hunread := hlines.suffix ((List.suffix_cons t c.unread).trans hplace)
      exact (hunread.tableBody t).ofCell hp env.marker c.attributes
  have hnarrow := h.narrow (fun _ _ hbehind hlines => hlines.suffix hbehind) hstarts hlines
  refine hnarrow.every (fun e he _ htable => ?_) fun {t c _ _} _ hadmits hcells _ x hx => ?_
  · rw [he] at htable
    cases htable
  · obtain ⟨cell, hcell, rfl⟩ := exists_of_mem_parts_tableAt hx
    obtain ⟨p, hp, rfl⟩ := List.mem_map.mp hcell
    have hbody := (hadmits.suffix (List.suffix_cons t c.unread)).tableBody t
    exact cellOf_every (fun _ h _ => h) env c.attributes p _ fun hholds =>
      (hcells p hp hholds).tableless (hbody.kind_ne_tableDelimiter hp env.marker c.attributes)

end Reading

namespace Element

theorem isTable_of_mem_titleLine {e title x : Element} (h : title ∈ e.titleLine)
    (hx : x ∈ title.preorder) : x.isTable = false := by
  obtain ⟨_, rfl⟩ := exists_title_of_mem_titleLine h hx
  rfl

/-- If no table is in a cell of another, all tables are outside cells. -/
theorem mem_outside_of_isTable {root e : Element}
    (h : root.Every fun e => e.isTable = true → ∀ x ∈ e.parts, x.Tableless)
    (he : e ∈ root.preorder) (htable : e.isTable = true) : e ∈ root.outside := by
  induction h with
  | @intro root hself _ ih =>
    rw [preorder_eq] at he
    rcases List.mem_cons.mp he with rfl | he
    · exact mem_outside_self e
    · obtain ⟨x, hx, he⟩ := List.mem_flatMap.mp he
      rcases List.mem_append.mp hx with hx | hx
      · rw [isTable_of_mem_titleLine hx he] at htable
        cases htable
      · cases hroot : root.isTable with
        | true =>
          rw [(hself hroot x hx).of_mem_preorder (fun _ => rfl) he] at htable
          cases htable
        | false =>
          rw [outside_of_not_isTable hroot]
          exact List.mem_cons_of_mem _
            (List.mem_append_right _ (List.mem_flatMap.mpr ⟨x, hx, ih x hx he⟩))

end Element

/-- All tables of a document that is read from lines of a text are outside cells. -/
theorem Cursor.mem_outside_of_isTable (env : Reading) {c : Cursor}
    (hlines : Reading.AreLines c.unread) (source : Text) {e : Element}
    (he : e ∈ (c.readDocument env true source).1.preorder) (htable : e.isTable = true) :
    e ∈ (c.readDocument env true source).1.outside := by
  refine Element.mem_outside_of_isTable (.intro nofun ?_) he htable
  exact (env.blocks_reads false (-1) none c.header.2).every_tableless
    (hlines.suffix c.header_keeps.1)

end Asciidoc
