import Asciidoc.Token.Basic
import Asciidoc.Token.Shape

/-!
# Classifying lines

The shapes are tried in a fixed order and the first that fits decides. A line of four or more
slashes that is not indented comes before the single-line comments, so the default comment
marker leaves comment blocks alone; titles, anchors, attributes and images count only on lines
that are not indented.

`Token.ofLine` is total for every comment marker that is a text. `Tokens.ofLines` takes a
marker as configured, and a marker that is not a text fails at the first line that has to be
compared with it.
-/

namespace Asciidoc

open Text

/-- The comment marker as configured. -/
inductive Marker where
  /-- A text: the lines that start with it are comments. -/
  | text (t : Text)
  /-- A value no line can be compared with. -/
  | unusable
deriving DecidableEq, Repr

/-- The default comment marker. -/
def Marker.slashes : Text := ['/', '/']

/-- The marker if it is a text, else the default one. -/
def Marker.textD : Marker → Text
  | .text t => t
  | .unusable => Marker.slashes

namespace Token

/-- A line of four or more slashes, not indented. -/
def isCommentDelimiter (line : Text) : Bool :=
  ['/', '/', '/', '/'].isPrefixOf line && (trim line).all (· == '/')

/-- The lines that break a text thematically, beside those of apostrophes. -/
def thematicBreaks : List Text :=
  ["---".toList, "***".toList, "___".toList, "- - -".toList, "* * *".toList]

/-- The frame whose delimiter a trimmed line is. -/
def frame? (stripped : Text) : Option Frame :=
  match stripped with
  | [] => none
  | c :: _ => if Shape.isRun 4 c stripped then Frame.ofChar? c else none

/-- A line that is neither blank nor a comment, by the shapes that an indent does not rule
out and that come before those it does. -/
def delimiterShape? (stripped : Text) : Option (Kind × Text) :=
  match stripped with
  | '|' :: rest => if Shape.isRun 3 '=' rest then some (.tableDelimiter, stripped) else none
  | _ =>
    match frame? stripped with
    | some frame => some (.blockDelimiter frame, stripped)
    | none =>
      if stripped = ['-', '-'] then some (.openDelimiter, stripped)
      else if ['\x60', '\x60', '\x60'].isPrefixOf stripped then
        let language := trim (stripped.drop 3)
        some (.fence (if language.isEmpty then none else some language), stripped)
      else if Shape.isRun 3 '\x27' stripped || thematicBreaks.contains stripped then
        some (.thematicBreak, stripped)
      else if Shape.isRun 3 '<' stripped then some (.pageBreak, stripped)
      else none

/-- The shapes of lines that are not indented, in order. -/
def flushShape? (line stripped : Text) : Option (Kind × Text) :=
  match Shape.heading? line with
  | some (level, title) => some (.heading level, title)
  | none =>
    match Shape.anchor? stripped with
    | some name => some (.anchor, name)
    | none =>
      match Shape.blockAttribute? stripped with
      | some inside => some (.blockAttribute, inside)
      | none =>
        match Shape.attribute? line with
        | some (name, value, unset) => some (.attribute value unset, name)
        | none => (Shape.image? stripped).map (.blockImage, ·)

/-- The shapes of list lines, in order. -/
def listShape? (stripped : Text) : Option (Kind × Text) :=
  if stripped = ['+'] then some (.continuation, stripped)
  else
    match Shape.unorderedItem? stripped with
    | some (marker, text) =>
      match Shape.checkbox? text with
      | some (checked, text) => some (.unorderedItem marker (some checked), text)
      | none => some (.unorderedItem marker none, text)
    | none => (Shape.orderedItem? stripped).map fun (marker, text) => (.orderedItem marker, text)

/-- What a line is that is neither blank nor a comment, and its content. -/
def shape (line : Text) : Kind × Text :=
  let stripped := trim line
  let flush := Text.indent line = 0
  (delimiterShape? stripped).getD <|
    ((if flush then flushShape? line stripped else none).orElse fun _ =>
      (listShape? stripped).orElse fun _ =>
        ((if flush then Shape.blockTitle? stripped else none).map (Kind.blockTitle, ·)).orElse
          fun _ => (Shape.term? stripped).map fun (term, delimiter, description) =>
            (.term delimiter description, term)).getD
      (.text, stripped)

/-- What a line without carriage returns at its end is, and its content. -/
def classify (marker line : Text) : Kind × Text :=
  if allBlank line then (.blank, [])
  else if isCommentDelimiter line then (.blockDelimiter .comment, trim line)
  else if marker.isPrefixOf line then (.comment, trim (line.drop marker.length))
  else shape line

/-- The token of a numbered line. -/
def ofLine (marker : Text) (number : Int) (line : Text) : Token :=
  let line := dropReturns line
  let (kind, content) := classify marker line
  ⟨kind, content, number, line, Text.indent line⟩

/-- Whether a line has to be compared with the comment marker to be classified. -/
def needsMarker (line : Text) : Bool :=
  let line := dropReturns line
  !(allBlank line || isCommentDelimiter line)

end Token

namespace Tokens

/-- The tokens of numbered lines under a comment marker that is a text. -/
def ofLines (marker : Text) (lines : List (Int × Text)) : Tokens :=
  ⟨lines.map fun (number, line) => Token.ofLine marker number line,
    (lines.getLast?.elim 0 (·.1)) + 1⟩

/-- The lines of a text, numbered from one. -/
def numbered (t : Text) : List (Int × Text) :=
  t.lines.zipIdx.map fun (line, index) => ((index : Int) + 1, line)

/-- The tokens of a text under a comment marker that is a text. -/
def ofText (marker t : Text) : Tokens := ofLines marker (numbered t)

/-- The tokens of numbered lines under a marker as configured, or none if a line would have to
be compared with a marker that is no text. -/
def ofLines? (marker : Marker) (lines : List (Int × Text)) : Option Tokens :=
  if marker = .unusable ∧ lines.any (fun (_, line) => Token.needsMarker line) then none
  else some (ofLines marker.textD lines)

end Tokens

end Asciidoc
