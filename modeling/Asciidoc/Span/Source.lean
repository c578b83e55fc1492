import Asciidoc.Span.Basic

/-!
# A text and its lines

Positions and offsets of one text correspond through the offsets at which its lines start. The
starts are one more than the lines: the last lies one past the end of the text, as if a line
feed closed it.

Lines and starts are looked up from either end: a number below the first counts back from the
last. Looking up a line that is not there gives nothing. The way back from an offset to a
position always gives one: an offset before the text is at its start, one past it at its end.
-/

namespace Asciidoc

open Text

/-- The item at an index; a negative index counts from the end. -/
def fromEitherEnd? {α : Type} (xs : List α) (index : Int) : Option α :=
  if 0 ≤ index then xs[index.toNat]?
  else if -(xs.length : Int) ≤ index then xs[(xs.length + index).toNat]?
  else none

/-- The offsets at which lines start when the first starts at a given one, and the offset after
them all. -/
def startsFrom (start : Nat) : List Text → List Nat
  | [] => [start]
  | line :: rest => start :: startsFrom (start + line.length + 1) rest

/-- A text with its lines. -/
structure Source where
  /-- The text. -/
  text : Text
  /-- Its lines. -/
  lines : List Text := Text.lines text
  /-- The offsets at which they start, and the offset after them all. -/
  starts : List Nat := startsFrom 0 lines
  /-- The lines are those of the text. -/
  lines_eq : lines = Text.lines text := by rfl
  /-- The starts are those of the lines. -/
  starts_eq : starts = startsFrom 0 lines := by rfl

namespace Source

/-- A text with its lines worked out. -/
def ofText (t : Text) : Source := { text := t }

/-- The number of lines. -/
def count (s : Source) : Nat := s.lines.length

/-- A line by its number. -/
def line? (s : Source) (number : Int) : Option Text := fromEitherEnd? s.lines (number - 1)

/-- The offset of a position. -/
def offset? (s : Source) (p : Position) : Option Int :=
  (fromEitherEnd? s.starts (p.line - 1)).map fun start => start + p.column

/-- The range of a location. -/
def range? (s : Source) (l : Location) : Option Range :=
  (s.offset? l.start).bind fun start => (s.offset? l.stop).map fun stop => ⟨start, stop⟩

/-- The text of a range. -/
def slice (s : Source) (r : Range) : Text := Text.slice s.text r.start r.stop

/-- The position of an offset: on the last line that starts at or before it. -/
def position (s : Source) (offset : Int) : Position :=
  let started := (s.starts.filter fun (start : Nat) => decide ((start : Int) ≤ offset)).length
  let index := min (started - 1) (s.count - 1)
  let start : Int := (s.starts[index]?).getD 0
  let length : Int := (s.lines[index]?.getD []).length
  ⟨index + 1, max (min (offset - start) length) 0⟩

/-- The numbered lines. -/
def numbered (s : Source) : List (Int × Text) :=
  s.lines.zipIdx.map fun (line, index) => ((index : Int) + 1, line)

theorem length_startsFrom (start : Nat) (lines : List Text) :
    (startsFrom start lines).length = lines.length + 1 := by
  induction lines generalizing start with
  | nil => rfl
  | cons line rest ih => simp [startsFrom, ih]

theorem length_starts (s : Source) : s.starts.length = s.count + 1 := by
  rw [s.starts_eq, length_startsFrom, count]

theorem count_pos (s : Source) : 0 < s.count := by
  rw [count, s.lines_eq]
  exact List.length_pos_iff.mpr (Text.split_ne_nil _ _)

end Source

end Asciidoc
