import Asciidoc.Span.Source

/-!
# Finding lines of text

An element's text is known line by line, but only roughly where. The search tries the lines of a
window as first lines, the lowest first. An expected line has to occur in the line it is held
against, the first of them at or after a column; the next expected line is held against the next
line. When comments are stepped over, lines that start with the comment marker are passed by
wherever an expected line would be held against one, also before the first.

What is found runs from the first expected line's occurrence to the end of the last one's. A text
that starts with the comment marker is reported from the start of its line.

A comment marker that is no text cannot be held against a line. `Window.needsMarker` says whether
a search comes to that; if it does not, nothing is found.
-/

namespace Asciidoc

open Text

/-- Where to search. -/
structure Window where
  /-- The first line a match may start to be tried at. -/
  minLine : Int
  /-- The last line that may hold expected lines when none is passed by. -/
  maxLine : Int
  /-- Whether comment lines are passed by. -/
  skipComments : Bool := true
  /-- The column at which the first expected line may occur. -/
  startColumn : Int := 0
deriving DecidableEq, Repr

/-- The window with bounds replaced by those that are known. -/
def Window.narrowed (w : Window) (minLine maxLine : Option Int) : Window :=
  { w with minLine := minLine.getD w.minLine, maxLine := maxLine.getD w.maxLine }

/-- The numbered lines from the first that is not passed by. -/
def Window.pass (w : Window) (marker : Text) (lines : List (Int × Text)) : List (Int × Text) :=
  if w.skipComments then lines.dropWhile fun (_, line) => marker.isPrefixOf line else lines

/-- Where the last of some expected lines ends, given the end of the one before them. -/
def Window.stop? (w : Window) (marker : Text) (reached : Position) :
    List Text → List (Int × Text) → Option Position
  | [], _ => some reached
  | expected :: others, lines =>
    match w.pass marker lines with
    | [] => none
    | (number, line) :: rest =>
      match find? expected line 0 with
      | none => none
      | some column => w.stop? marker ⟨number, column + expected.length⟩ others rest

/-- The location of expected lines when the first is held against the first line not passed
by. -/
def Window.match? (w : Window) (marker first : Text) (others : List Text)
    (lines : List (Int × Text)) : Option Location :=
  match w.pass marker lines with
  | [] => none
  | (number, line) :: rest =>
    match find? first line w.startColumn with
    | none => none
    | some column =>
      (w.stop? marker ⟨number, column + first.length⟩ others rest).map fun stop =>
        ⟨⟨number, if marker.isPrefixOf first then 0 else column⟩, stop⟩

/-- The first match among a number of lines to try. -/
def Window.search? (w : Window) (marker first : Text) (others : List Text) :
    Nat → List (Int × Text) → Option Location
  | 0, _ | _, [] => none
  | tries + 1, line :: rest =>
    match w.match? marker first others (line :: rest) with
    | some location => some location
    | none => w.search? marker first others tries rest

/-- The lines of a window to try for a number of expected lines: the first of them, and how
many. -/
def Window.candidates (w : Window) (total expected : Nat) : Int × Nat :=
  let first := max w.minLine 1
  (first, (min w.maxLine total - expected + 1 - first + 1).toNat)

/-- The location of expected lines in a text. -/
def Source.find? (s : Source) (marker : Text) (expected : List Text) (w : Window) :
    Option Location :=
  match expected with
  | [] => none
  | first :: others =>
    let (start, tries) := w.candidates s.count expected.length
    w.search? marker first others tries (s.numbered.drop (start - 1).toNat)

/-- Whether a search has to hold a line or the text against the comment marker. -/
def Source.needsMarker (s : Source) (expected : List Text) (w : Window) : Bool :=
  match expected with
  | [] => false
  | first :: _ =>
    let (start, tries) := w.candidates s.count expected.length
    ((s.lines.drop (start - 1).toNat).take tries).any fun line =>
      w.skipComments || (Text.find? first line w.startColumn).isSome

end Asciidoc
