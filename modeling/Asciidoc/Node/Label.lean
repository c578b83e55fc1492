import Asciidoc.Node.Basic

/-!
# Labels and the drawing of trees

A label is a line about a node: its tag, where it stands, its depth or language, and the start of
its text. A text of more than forty code points is cut to thirty-seven with dots after it.

The drawing gives each node a line, children under their parents behind guides. What a terminal
would take for a control is left out of it, and tabs are spread to columns of eight.
-/

namespace Asciidoc.Node

open Text

/-- The length up to which a text is shown whole. -/
def previewLength : Nat := 40

/-- The start of a text on one line. -/
def preview (t : Text) : Text :=
  let t := t.flatMap fun c => if c = '\n' then ['\\', 'n'] else [c]
  if previewLength < t.length then t.take (previewLength - 3) ++ ['.', '.', '.'] else t

/-- A text as labels quote it, if the value is one. -/
def quotedPreview? (value : Json) : Option Text :=
  value.text?.map fun t => ' ' :: Quoted.encode (preview t)

/-- A position in a label. -/
def labelPosition (p : Position) : Text :=
  Decimal.ofInt p.line ++ ':' :: Decimal.ofInt p.column

/-- The part of a label that says where a node stands. -/
def placeLabel {α : Type} (n : Node α) : Text :=
  n.name.toList ++ ' ' :: labelPosition n.loc.start ++ '-' :: labelPosition n.loc.stop
    ++ [' ', '['] ++ Decimal.ofInt n.range.start ++ [',', ' ']
    ++ Decimal.ofInt n.range.stop ++ [')']

/-- The label of a node; there is none if a text of it is no text. -/
def label? (n : Node Json) : Option Text :=
  match n.kind with
  | .header depth => some (n.placeLabel ++ " depth=".toList ++ Decimal.ofInt depth)
  | .codeBlock lang value =>
    let language :=
      match lang with
      | some l => if l.truthy then " lang=".toList ++ l.plain else []
      | none => []
    (quotedPreview? value).map fun t => n.placeLabel ++ language ++ t
  | .str value => (quotedPreview? value).map fun t => n.placeLabel ++ t
  | _ => some n.placeLabel

/-- The label of a node of a tree of texts. -/
def label (n : Node Text) : Text := (n.ofTexts.label?).getD n.placeLabel

/-! ## Drawing -/

/-- Whether a terminal would ring, step back, feed or return on a code point. -/
def isControl (c : Char) : Bool :=
  let n := c.toNat
  n = 7 || n = 8 || n = 11 || n = 12 || n = 13

/-- A line with its tabs spread, from a column on. -/
def spread (column : Nat) : Text → Text
  | [] => []
  | c :: rest =>
    if c = '\t' then
      let width := 8 - column % 8
      List.replicate width ' ' ++ spread (column + width) rest
    else c :: spread (column + 1) rest

/-- A label as drawn, line by line. -/
def drawnLines (t : Text) : List Text :=
  (Text.lines (t.filter (!isControl ·))).map (spread 0)

/-- A label as drawn behind a guide, its further lines behind another. -/
def drawnLabel (first others : Text) (t : Text) : List Text :=
  match drawnLines t with
  | [] => []
  | line :: rest => (first ++ line) :: rest.map (others ++ ·)

mutual

/-- The lines of a tree whose first line stands behind a guide and the others behind another. -/
def drawn (first others : Text) (title : Text) : Node Text → List Text
  | .mk kind loc range raw children =>
    drawnLabel first others (title ++ (Node.mk kind loc range raw children).label)
      ++ drawnAll others children

/-- The lines of sibling trees behind a guide. -/
def drawnAll (guide : Text) : List (Node Text) → List Text
  | [] => []
  | [n] => n.drawn (guide ++ "└── ".toList) (guide ++ "    ".toList) []
  | n :: rest =>
    n.drawn (guide ++ "├── ".toList) (guide ++ "│   ".toList) [] ++ drawnAll guide rest

end

/-- A drawing of a tree; a title that is not empty comes before the first label. -/
def drawing (title : Text) (n : Node Text) : Text :=
  (n.drawn [] [] (if title.isEmpty then [] else title ++ [' '])).flatMap (· ++ ['\n'])

end Asciidoc.Node
