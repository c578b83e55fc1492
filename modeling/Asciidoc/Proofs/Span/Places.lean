import Asciidoc.Span.Source
import Mathlib.Data.List.Basic

/-!
# The places of a text

A position exists in a text when it is on one of the lines and not past the end of that line.
Existing positions are what locations are made of, and here they are tied to offsets: every
existing position has an offset inside the text, `Source.position` leads back from that offset
to the position, and the order of reading is the order of the offsets.

`lineStart` is the closed form of the table of line starts. All that follows about the table goes
through `getElem?_starts` and `length_filter_starts`.
-/

namespace Asciidoc

open Text

/-- A position that a text has: on one of its lines, and not past the end of that line. -/
structure Source.HasPosition (s : Source) (p : Position) : Prop where
  /-- Lines are counted from one. -/
  line_pos : 1 ≤ p.line
  /-- The line is not past the last. -/
  line_le : p.line ≤ s.count
  /-- Columns are counted from zero. -/
  column_nonneg : 0 ≤ p.column
  /-- The column is not past the end of its line. -/
  column_le : ∃ line, s.line? p.line = some line ∧ p.column ≤ line.length

/-- Both ends of a location are positions of the text. -/
def Source.HasLocation (s : Source) (l : Location) : Prop :=
  s.HasPosition l.start ∧ s.HasPosition l.stop

/-! ## Where lines start -/

/-- The offset at which the line of an index starts: every line before it and its line feed. -/
def lineStart (lines : List Text) (index : Nat) : Nat :=
  (lines.take index).foldr (fun line before => line.length + 1 + before) 0

@[simp] theorem lineStart_zero (lines : List Text) : lineStart lines 0 = 0 := by
  simp [lineStart]

@[simp] theorem lineStart_cons_succ (line : Text) (rest : List Text) (index : Nat) :
    lineStart (line :: rest) (index + 1) = line.length + 1 + lineStart rest index := by
  simp [lineStart]

/-- A line ends before the next one starts. -/
theorem lineStart_succ {lines : List Text} {index : Nat} {line : Text}
    (h : lines[index]? = some line) :
    lineStart lines (index + 1) = lineStart lines index + line.length + 1 := by
  induction lines generalizing index with
  | nil => simp at h
  | cons first rest ih =>
    cases index with
    | zero =>
      obtain rfl : first = line := by simpa using h
      simp
    | succ index =>
      have hrest : rest[index]? = some line := by simpa using h
      rw [lineStart_cons_succ, lineStart_cons_succ, ih hrest]
      omega

/-- The lines and the line feeds between them make up the text. -/
theorem lineStart_length (separator : Char) (lines : List Text) (h : lines ≠ []) :
    lineStart lines lines.length = (join [separator] lines).length + 1 := by
  induction lines with
  | nil => exact absurd rfl h
  | cons line rest ih =>
    cases rest with
    | nil => simp [join, List.intercalate]
    | cons next others =>
      have hjoin : join [separator] (line :: next :: others)
          = line ++ separator :: join [separator] (next :: others) := by
        simp [join, List.intercalate, List.intersperse]
      rw [List.length_cons, lineStart_cons_succ, ih (by simp), hjoin]
      simp only [List.length_append, List.length_cons]
      omega

theorem lineStart_mono (lines : List Text) {i j : Nat} (h : i ≤ j) :
    lineStart lines i ≤ lineStart lines j := by
  induction lines generalizing i j with
  | nil => simp [lineStart]
  | cons line rest ih =>
    cases i with
    | zero => simp
    | succ i =>
      obtain ⟨j, rfl⟩ : ∃ k, j = k + 1 := ⟨j - 1, by omega⟩
      have := ih (i := i) (j := j) (by omega)
      simpa using this

theorem getElem?_startsFrom (start : Nat) {lines : List Text} {index : Nat}
    (h : index ≤ lines.length) :
    (startsFrom start lines)[index]? = some (start + lineStart lines index) := by
  induction lines generalizing start index with
  | nil =>
    obtain rfl : index = 0 := by simpa using h
    simp [startsFrom]
  | cons line rest ih =>
    cases index with
    | zero => simp [startsFrom]
    | succ index =>
      have hrest : index ≤ rest.length := by simpa using h
      simp only [startsFrom, List.getElem?_cons_succ, ih _ hrest, lineStart_cons_succ]
      congr 1
      omega

theorem le_of_mem_startsFrom {start offset : Nat} {lines : List Text}
    (h : offset ∈ startsFrom start lines) : start ≤ offset := by
  induction lines generalizing start with
  | nil => simp_all [startsFrom]
  | cons line rest ih =>
    rcases List.mem_cons.mp h with rfl | h
    · exact Nat.le_refl _
    · have := ih h
      omega

/-- The lines that start at or before an offset on a line are the ones up to that line. -/
theorem length_filter_startsFrom (start : Nat) {lines : List Text} {index column : Nat}
    {line : Text} (h : lines[index]? = some line) (hcolumn : column ≤ line.length) :
    ((startsFrom start lines).filter fun (first : Nat) =>
      decide ((first : Int) ≤ ((start + lineStart lines index + column : Nat) : Int))).length
      = index + 1 := by
  induction lines generalizing start index with
  | nil => simp at h
  | cons first rest ih =>
    rw [startsFrom, List.filter_cons_of_pos (by simp; omega), List.length_cons]
    congr 1
    cases index with
    | zero =>
      obtain rfl : first = line := by simpa using h
      rw [List.length_eq_zero_iff, List.filter_eq_nil_iff]
      intro next hnext
      have := le_of_mem_startsFrom hnext
      simp only [lineStart_zero, decide_eq_true_eq]
      omega
    | succ index =>
      have hoffset : start + lineStart (first :: rest) (index + 1) + column
          = start + first.length + 1 + lineStart rest index + column := by
        rw [lineStart_cons_succ]
        omega
      rw [hoffset]
      exact ih (start + first.length + 1) (by simpa using h)

namespace Source

variable {s : Source}

/-- A position of a text by the index of its line. -/
theorem hasPosition_iff {p : Position} :
    s.HasPosition p ↔ ∃ (index column : Nat) (line : Text),
      s.lines[index]? = some line ∧ column ≤ line.length ∧ p = ⟨index + 1, column⟩ := by
  constructor
  · rintro ⟨hpos, hle, hcolumn, line, hline, hend⟩
    refine ⟨(p.line - 1).toNat, p.column.toNat, line, ?_, by omega, ?_⟩
    · rwa [line?, fromEitherEnd?, if_pos (by omega)] at hline
    · cases p
      simp only [Position.mk.injEq] at *
      omega
  · rintro ⟨index, column, line, hline, hend, rfl⟩
    have hindex : index < s.lines.length := (List.getElem?_eq_some_iff.mp hline).1
    have hpositive : 1 ≤ (index : Int) + 1 := by omega
    refine ⟨hpositive, by simp only [count]; omega, by simp, line, ?_, by simpa using hend⟩
    rw [line?, fromEitherEnd?, if_pos (by simp)]
    simpa using hline

theorem getElem?_starts {index : Nat} (h : index ≤ s.count) :
    s.starts[index]? = some (lineStart s.lines index) := by
  rw [s.starts_eq, getElem?_startsFrom 0 h, Nat.zero_add]

/-- The offset of a position of a text. -/
theorem offset?_eq {index column : Nat} (h : index ≤ s.count) :
    s.offset? ⟨index + 1, column⟩ = some ((lineStart s.lines index + column : Nat) : Int) := by
  rw [offset?, fromEitherEnd?, if_pos (by simp)]
  simp [getElem?_starts h]

/-- From the offset of a position of a text the way leads back to it. -/
theorem position_eq {index column : Nat} {line : Text} (hline : s.lines[index]? = some line)
    (hcolumn : column ≤ line.length) :
    s.position ((lineStart s.lines index + column : Nat) : Int) = ⟨index + 1, column⟩ := by
  have hindex : index < s.count := (List.getElem?_eq_some_iff.mp hline).1
  have hstarted := length_filter_startsFrom 0 hline hcolumn
  rw [Nat.zero_add, ← s.starts_eq] at hstarted
  have hmin : min (index + 1 - 1) (s.count - 1) = index := by omega
  have hstart := getElem?_starts (s := s) (Nat.le_of_lt hindex)
  simp only [position, hstarted, hmin, hstart, hline, Option.getD_some, Position.mk.injEq,
    true_and]
  omega

/-- A position at or before another one has an offset at or before the other's. -/
theorem offset_mono {p q : Position} {a b : Int} (hp : s.HasPosition p) (hq : s.HasPosition q)
    (ha : s.offset? p = some a) (hb : s.offset? q = some b)
    (h : p.line < q.line ∨ p.line = q.line ∧ p.column ≤ q.column) : a ≤ b := by
  obtain ⟨i, column, line, hline, hcolumn, rfl⟩ := hasPosition_iff.mp hp
  obtain ⟨j, column', line', hline', hcolumn', rfl⟩ := hasPosition_iff.mp hq
  have hi : i < s.count := (List.getElem?_eq_some_iff.mp hline).1
  have hj : j < s.count := (List.getElem?_eq_some_iff.mp hline').1
  rw [offset?_eq (Nat.le_of_lt hi), Option.some.injEq] at ha
  rw [offset?_eq (Nat.le_of_lt hj), Option.some.injEq] at hb
  subst ha hb
  simp only at h
  rcases h with h | ⟨h, hle⟩
  · have := lineStart_succ hline
    have := lineStart_mono s.lines (i := i + 1) (j := j) (by omega)
    omega
  · obtain rfl : i = j := by omega
    omega

/-- Every position of a text has an offset, and the offset leads back to the position. -/
theorem HasPosition.offset {p : Position} (h : s.HasPosition p) :
    ∃ offset, s.offset? p = some offset ∧ s.position offset = p := by
  obtain ⟨index, column, line, hline, hcolumn, rfl⟩ := hasPosition_iff.mp h
  have hindex : index ≤ s.count := Nat.le_of_lt (List.getElem?_eq_some_iff.mp hline).1
  exact ⟨_, offset?_eq hindex, position_eq hline hcolumn⟩

/-- The offset of a position of a text is inside the text. -/
theorem HasPosition.offset_le {p : Position} (h : s.HasPosition p) {offset : Int}
    (hoffset : s.offset? p = some offset) : 0 ≤ offset ∧ offset ≤ s.text.length := by
  obtain ⟨index, column, line, hline, hcolumn, rfl⟩ := hasPosition_iff.mp h
  have hindex : index < s.lines.length := (List.getElem?_eq_some_iff.mp hline).1
  rw [offset?_eq (Nat.le_of_lt hindex), Option.some.injEq] at hoffset
  have hend := lineStart_length '\n' s.lines (by rintro hnil; simp [hnil] at hindex)
  rw [s.lines_eq, Text.lines, join_split, ← Text.lines, ← s.lines_eq] at hend
  have := lineStart_succ hline
  have := lineStart_mono s.lines (i := index + 1) (j := s.lines.length) (by omega)
  omega

/-- Every location of a text has a range, and the range leads back to the location. -/
theorem HasLocation.range {l : Location} (h : s.HasLocation l) :
    ∃ r, s.range? l = some r ∧ s.position r.start = l.start ∧ s.position r.stop = l.stop := by
  obtain ⟨start, hstart, hback⟩ := h.1.offset
  obtain ⟨stop, hstop, hback'⟩ := h.2.offset
  exact ⟨⟨start, stop⟩, by simp [range?, hstart, hstop], hback, hback'⟩

/-- The start of a range is the offset of the start of its location. -/
theorem range?_eq_some {l : Location} {r : Range} (h : s.range? l = some r) :
    s.offset? l.start = some r.start ∧ s.offset? l.stop = some r.stop := by
  simp only [range?, Option.bind_eq_some_iff, Option.map_eq_some_iff] at h
  obtain ⟨start, hstart, stop, hstop, rfl⟩ := h
  exact ⟨hstart, hstop⟩

end Source

end Asciidoc
