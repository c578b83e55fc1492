import Asciidoc.Element.Cursor
import Asciidoc.Text.Case

/-!
# Blocks made of lines

Paragraphs, listings and the other blocks whose content is lines, not blocks. Each function
takes the line a block starts with and the place after it.

A paragraph goes on to a blank line or the start of another block; comment lines inside it are
dropped without ending it. A paragraph whose first line would itself end one takes that line as
text. Verbatim lines go on to a line that, trimmed, is the delimiter; nothing else in them
counts.
-/

namespace Asciidoc

open Text

/-- The labels of admonitions. -/
def admonitionLabels : List Text :=
  ["NOTE".toList, "TIP".toList, "IMPORTANT".toList, "WARNING".toList, "CAUTION".toList]

/-- The label of the admonition that a style makes of its block. -/
def Rules.Reading.label? (rules : Rules.Reading) (attributes : BlockAttributes) : Option Text :=
  let style := Case.upper attributes.style
  if rules.admonitionStyles && admonitionLabels.contains style then some style else none

/-- The styles under which lines are passed through. -/
def passStyles : List Text :=
  ["pass".toList, "verse".toList, "stem".toList, "latexmath".toList, "asciimath".toList]

/-- The styles of listings. -/
def listingStyles : List Text := ["source".toList, "listing".toList]

/-- The language of a listing: its first positional value, else its language entry, else for a
source block the document's language for source. -/
def languageOf (attributes : BlockAttributes) (document : List (Text × Text)) : Option Text :=
  match attributes.positional.bind Positional.first? with
  | some first => some first
  | none =>
    match attributes.value? "language".toList with
    | some (c :: language) => some (c :: language)
    | _ =>
      if attributes.style = "source".toList then
        (Entries.find? "source-language".toList document).filter (!·.isEmpty)
      else none

/-- The lines without the blanks that all lines with text share at their start, and without
blanks at their end. -/
def dedent (lines : List Text) : List Text :=
  let margin := ((lines.filter (!allBlank ·)).map Text.indent).min?.getD 0
  lines.map fun line => trimRight (line.drop margin)

/-! ## Paragraphs -/

/-- The lines that go on with a paragraph, and the lines after it. -/
def paragraphSpan (inList : Bool) (unread : List Token) : List Token × List Token :=
  (unread.takeWhile (!·.endsParagraph inList), unread.dropWhile (!·.endsParagraph inList))

/-- The block that the lines of a paragraph make, from the first line that is no comment on.
`indented` says whether the first line of all was indented text. -/
def paragraphOf (rules : Rules.Reading) (attributes : BlockAttributes)
    (document : List (Text × Text)) (indented : Bool) (first : Token) (rest : List Token) :
    Option Element :=
  let line : Hint := some first.line
  let written := first.text :: rest.map (·.text)
  let style := attributes.style
  if style = "comment".toList then none
  else if listingStyles.contains style then
    some (.listing line written (languageOf attributes document))
  else if passStyles.contains style then some (.unsupported line style)
  else if indented || style = "literal".toList then some (.literal line (dedent written))
  else
    let start := trim first.text
    let others := rest.map fun t => trim t.text
    match rules.label? attributes with
    | some label =>
      some (.compound line (.admonition label) [.paragraph line (start :: others)])
    | none =>
      if style = "quote".toList then some (.quoteBlock line [.paragraph line (start :: others)])
      else
        match if rules.admonitionParagraphs then Shape.label? start else none with
        | some (label, body) =>
          if admonitionLabels.contains label then
            some (.compound line (.admonition label) [.paragraph line (body :: others)])
          else some (.paragraph line (start :: others))
        | none => some (.paragraph line (start :: others))

/-- Reads the paragraph that a line starts. -/
def Cursor.paragraph (c : Cursor) (rules : Rules.Reading) (inList : Bool) (first : Token) :
    Reached c.size (Option Element) :=
  let indented := 0 < first.indent && first.kind = .text
  if first.endsParagraph inList then
    ⟨paragraphOf rules c.pending c.attributes indented first [], c.clearPending, Nat.le_refl _⟩
  else
    let lines := (first :: (paragraphSpan inList c.unread).1).filter (·.kind ≠ .comment)
    let value :=
      match lines with
      | [] => none
      | start :: others => paragraphOf rules c.pending c.attributes indented start others
    ⟨value, (c.moveTo (paragraphSpan inList c.unread).2).clearPending,
      (List.dropWhile_suffix _).length_le⟩

/-! ## Verbatim lines -/

/-- The lines up to a closing delimiter, the lines after it, and whether it was there. -/
def verbatimSpan (closing : Text) : List Token → List Text × List Token × Bool
  | [] => ([], [], false)
  | t :: rest =>
    if trim t.text = closing then ([], rest, true)
    else
      let span := verbatimSpan closing rest
      (t.text :: span.1, span.2)

theorem length_verbatimSpan_le (closing : Text) (unread : List Token) :
    (verbatimSpan closing unread).2.1.length ≤ unread.length := by
  induction unread with
  | nil => simp [verbatimSpan]
  | cons t rest ih =>
    rw [verbatimSpan]
    split
    · simp
    · simp only [List.length_cons]; omega

/-- Reads verbatim lines and the delimiter that closes them. -/
def Cursor.verbatim (c : Cursor) (closing : Text) : Reached c.size (List Text) :=
  let span := verbatimSpan closing c.unread
  let after := c.moveTo span.2.1
  ⟨span.1, if span.2.2 then after else after.notice (.unclosedLines closing), by
    have := length_verbatimSpan_le closing c.unread
    split
    · exact this
    · exact this⟩

/-- Reads the listing that a fence opens. -/
def Cursor.fenced (c : Cursor) (line : Int) (language : Option Text) : Reached c.size Element :=
  let r := c.clearPending.verbatim ['\x60', '\x60', '\x60']
  r.map fun lines =>
    .listing (some line) lines (language.orElse fun _ => languageOf c.pending c.attributes)

/-- The block a delimiter opens when its content is lines: as its frame or its style says. -/
def Cursor.framedLines? (c : Cursor) (frame : Option Frame) (opening : Token) :
    Option (Reached c.size (Option Element)) :=
  let style := c.pending.style
  let line : Hint := some opening.line
  let lines := c.clearPending.verbatim opening.content
  if frame = some .comment then some (lines.map fun _ => none)
  else if frame = some .listing || (frame = none && listingStyles.contains style) then
    some (lines.map fun ls => some (.listing line ls (languageOf c.pending c.attributes)))
  else if frame = some .literal then some (lines.map fun ls => some (.literal line ls))
  else if frame = some .pass || passStyles.contains style then
    some (lines.map fun _ => some (.unsupported line
      (if style.isEmpty then (frame.elim "open" Frame.name).toList else style)))
  else none

/-- The block a delimiter opens when its content is blocks. -/
def framedBlocks (rules : Rules.Reading) (attributes : BlockAttributes) (frame : Option Frame)
    (opening : Token) (blocks : List Element) : Element :=
  let line : Hint := some opening.line
  match rules.label? attributes with
  | some label => .compound line (.admonition label) blocks
  | none =>
    if frame = some .quote || attributes.style = "quote".toList then .quoteBlock line blocks
    else if frame = some .example then .compound line .example blocks
    else if frame = some .sidebar || attributes.style = "sidebar".toList then
      .compound line .sidebar blocks
    else .compound line .openBlock blocks

/-! ## Lines of list items -/

/-- The content of the text lines that go on with a list item, and the lines after them. -/
def itemSpan : List Token → List Token × List Token
  | [] => ([], [])
  | t :: rest =>
    if t.kind = .text then
      let span := itemSpan rest
      (t :: span.1, span.2)
    else if t.kind = .comment then itemSpan rest
    else ([], t :: rest)

theorem length_itemSpan_le (unread : List Token) :
    (itemSpan unread).2.length ≤ unread.length := by
  induction unread with
  | nil => simp [itemSpan]
  | cons t rest ih =>
    rw [itemSpan]
    split
    · simp only [List.length_cons]; omega
    · split
      · simp only [List.length_cons]; omega
      · simp

/-- The terms after one without a description that share its delimiter, with the description of
the last, and the lines after them. -/
def termSpan (delimiter : Text) (first : Token) (description : Text) :
    List Token → List Token × Text × List Token
  | [] => ([first], description, [])
  | t :: rest =>
    if description.isEmpty then
      match t.kind with
      | .term d next =>
        if d = delimiter then
          let span := termSpan delimiter t next rest
          (first :: span.1, span.2)
        else ([first], description, t :: rest)
      | _ => ([first], description, t :: rest)
    else ([first], description, t :: rest)

theorem length_termSpan_le (delimiter : Text) (first : Token) (description : Text)
    (unread : List Token) :
    (termSpan delimiter first description unread).2.2.length ≤ unread.length := by
  induction unread generalizing first description with
  | nil => simp [termSpan]
  | cons t rest ih =>
    rw [termSpan]
    split
    · split
      · split
        · have := ih t (by assumption)
          simp only [List.length_cons]; omega
        · simp
      · simp
    · simp

/-! ## Tables -/

/-- The lines of a table up to its closing delimiter, the lines after it, and whether it was
there. -/
def tableSpan (delimiter : Text) : List Token → List Token × List Token × Bool
  | [] => ([], [], false)
  | t :: rest =>
    if t.kind = .tableDelimiter ∧ t.content = delimiter then ([], rest, true)
    else
      let span := tableSpan delimiter rest
      (t :: span.1, span.2)

theorem length_tableSpan_le (delimiter : Text) (unread : List Token) :
    (tableSpan delimiter unread).1.length ≤ unread.length ∧
      (tableSpan delimiter unread).2.1.length ≤ unread.length := by
  induction unread with
  | nil => simp [tableSpan]
  | cons t rest ih =>
    rw [tableSpan]
    split
    · simp
    · simp only [List.length_cons]; omega

/-- Whether the first row of a table is its header. -/
def hasHeader (rules : Rules.Reading) (attributes : BlockAttributes) (body : List Token)
    (firstRow : List Element) : Bool :=
  match rules.headerDetection with
  | .never => false
  | mode =>
    if attributes.hasOption "noheader".toList then false
    else if attributes.hasOption "header".toList then true
    else if mode = .attributeBased then false
    else
      match body.filter (·.kind ≠ .comment) with
      | first :: second :: _ =>
        first.kind ≠ .blank && firstRow.all (·.line = some first.line) && second.kind = .blank
      | _ => false

/-- A table from its rows, the first of which may be its header. -/
def tableOf (rules : Rules.Reading) (attributes : BlockAttributes) (opening : Token)
    (body : List Token) (rows : List (List Element)) : Element :=
  match rows with
  | [] => .table (some opening.line) [] []
  | first :: rest =>
    if hasHeader rules attributes body first then .table (some opening.line) [first] rest
    else .table (some opening.line) [] (first :: rest)

end Asciidoc
