import Asciidoc.Text.Decimal

/-!
# Places in a text

A position is a line, counted from one, and a column, counted from zero; a location runs from
one position up to another; a range is the same in offsets from the start of the text. Nothing
in these types says that a place exists in a particular text, since trees come from outside too.
Which places do exist, and how positions and offsets correspond, is the business of
`Asciidoc.Source`.
-/

namespace Asciidoc

/-- A point in a text: a line and a column. -/
structure Position where
  /-- The line, the first of which is 1. -/
  line : Int
  /-- The column, the first of which is 0. -/
  column : Int
deriving DecidableEq, Repr

/-- What lies between two positions, without the code point at the second. -/
structure Location where
  /-- The first position. -/
  start : Position
  /-- The position after the last code point. -/
  stop : Position
deriving DecidableEq, Repr

/-- What lies between two offsets, without the code point at the second. -/
structure Range where
  /-- The first offset. -/
  start : Int
  /-- The offset after the last code point. -/
  stop : Int
deriving DecidableEq, Repr

/-- The position where every text starts. -/
def Position.origin : Position := ⟨1, 0⟩

/-- The order of reading: by line, then by column. -/
def Position.before (p q : Position) : Prop :=
  p.line < q.line ∨ p.line = q.line ∧ p.column < q.column

instance (p q : Position) : Decidable (p.before q) :=
  inferInstanceAs (Decidable (p.line < q.line ∨ p.line = q.line ∧ p.column < q.column))

/-- A position as messages spell it. -/
def Position.shown (p : Position) : Text :=
  "Position(line=".toList ++ Text.Decimal.ofInt p.line ++ ", column=".toList
    ++ Text.Decimal.ofInt p.column ++ [')']

/-- A location as messages spell it. -/
def Location.shown (l : Location) : Text :=
  "Location(start=".toList ++ l.start.shown ++ ", end=".toList ++ l.stop.shown ++ [')']

/-- The numbers that a location is spelled with. -/
def Location.numbers (l : Location) : List Int :=
  [l.start.line, l.start.column, l.stop.line, l.stop.column]

/-- A range as messages spell it. -/
def Range.shown (r : Range) : Text :=
  '[' :: Text.Decimal.ofInt r.start ++ [',', ' '] ++ Text.Decimal.ofInt r.stop ++ [']']

/-- The numbers that a range is spelled with. -/
def Range.numbers (r : Range) : List Int := [r.start, r.stop]

end Asciidoc
