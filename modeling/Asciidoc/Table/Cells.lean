import Asciidoc.Element.Basic
import Asciidoc.Token.Basic

/-!
# Table lines and their cells

Inside a table a bar that no backslash precedes starts a cell. The text before a bar may end
with the specifier of the cell that follows: how many columns it spans, how it is aligned and
its style. A specifier fills the text before the first bar of a line or follows a blank at the
end of the text of the cell before; anything else is text.

Bars cut a line without loss: `join_bars` puts the pieces between them together again. Lines
without a bar, and the text before the first bar of a line, go on with the last cell; a cell
never has more lines than the table (`length_lines_le`).
-/

namespace Asciidoc.Table

open Text

/-! ## Bars -/

/-- The pieces of a text between bars; `escaped` says whether a backslash came just before. -/
def barsFrom (escaped : Bool) : Text → List Text
  | [] => [[]]
  | c :: rest =>
    if c = '|' && !escaped then [] :: barsFrom false rest
    else
      match barsFrom (c = '\\') rest with
      | [] => [[c]]
      | piece :: pieces => (c :: piece) :: pieces

/-- The pieces of a line between the bars that start cells. -/
def bars (line : Text) : List Text := barsFrom false line

theorem barsFrom_ne_nil (escaped : Bool) (t : Text) : barsFrom escaped t ≠ [] := by
  cases t with
  | nil => simp [barsFrom]
  | cons c rest =>
    rw [barsFrom]
    split
    · simp
    · split <;> simp

/-- Writing the bars back between the pieces gives the text. -/
theorem join_barsFrom (escaped : Bool) (t : Text) : join ['|'] (barsFrom escaped t) = t := by
  induction t generalizing escaped with
  | nil => simp [barsFrom, join, List.intercalate]
  | cons c rest ih =>
    rw [barsFrom]
    split
    · rename_i h
      simp only [Bool.and_eq_true, decide_eq_true_eq] at h
      obtain ⟨rfl, _⟩ := h
      have := ih false
      cases hb : barsFrom false rest with
      | nil => exact absurd hb (barsFrom_ne_nil _ _)
      | cons piece pieces =>
        rw [hb] at this
        simp only [join, List.intercalate, List.intersperse, List.flatten_cons, List.nil_append,
          List.cons_append] at this ⊢
        rw [this]
    · have := ih (c = '\\')
      cases hb : barsFrom (c = '\\') rest with
      | nil => exact absurd hb (barsFrom_ne_nil _ _)
      | cons piece pieces =>
        rw [hb] at this
        cases pieces with
        | nil => simpa [join, List.intercalate] using this
        | cons next others =>
          simp only [join, List.intercalate, List.intersperse, List.flatten_cons,
            List.cons_append] at this ⊢
          rw [this]

/-- Writing the bars back between the pieces of a line gives the line. -/
theorem join_bars (line : Text) : join ['|'] (bars line) = line := join_barsFrom false line

/-! ## Specifiers -/

/-- What follows the span a text begins with: digits, perhaps a point and more digits, before an
asterisk or plus, or a point and digits before a plus. Without a span, the text. -/
def dropSpan (t : Text) : Text :=
  match t.takeWhile Digit.isDigit, t.dropWhile Digit.isDigit with
  | [], '.' :: rest =>
    match rest.takeWhile Digit.isDigit, rest.dropWhile Digit.isDigit with
    | _ :: _, '+' :: more => more
    | _, _ => t
  | [], _ => t
  | _ :: _, '.' :: rest =>
    match rest.takeWhile Digit.isDigit, rest.dropWhile Digit.isDigit with
    | _ :: _, '*' :: more => more
    | _ :: _, '+' :: more => more
    | _, _ => t
  | _ :: _, '*' :: more => more
  | _ :: _, '+' :: more => more
  | _, _ => t

/-- The marks of alignment. -/
def isAlignment (c : Char) : Bool := c == '<' || c == '^' || c == '>'

/-- What follows the alignment a text begins with: a mark for the row, and perhaps a point and
one for the column. -/
def dropAlignment : Text → Text
  | c :: '.' :: d :: rest =>
    if isAlignment c then if isAlignment d then rest else '.' :: d :: rest else c :: '.' :: d :: rest
  | c :: rest => if isAlignment c then rest else c :: rest
  | [] => []

/-- The letters of cell styles. -/
def isStyle (c : Char) : Bool := "adehlmsv".toList.contains c

/-- What follows the style a text begins with. -/
def dropStyle : Text → Text
  | c :: rest => if isStyle c then rest else c :: rest
  | [] => []

/-- Whether a text is a specifier, the line feed that may end a line aside. -/
def isSpec (t : Text) : Bool :=
  match dropStyle (dropAlignment (dropSpan t)) with
  | [] | ['\n'] => true
  | _ => false

/-- A specifier without the line feed that may end a line. -/
def specOf (t : Text) : Text := if t.getLast? = some '\n' then t.dropLast else t

/-- The text and the specifier of a piece that ends in a specifier after a blank; the first such
blank counts. -/
def endSpec? : Text → Option (Text × Text)
  | [] => none
  | c :: rest =>
    if isBlank c && isSpec rest then some ([c], specOf rest)
    else (endSpec? rest).map fun (before, spec) => (c :: before, spec)

/-- The text before a bar, and the specifier of the cell that the bar starts. -/
structure Piece where
  /-- The text that belongs to the cell before. -/
  text : Text
  /-- The specifier of the cell after. -/
  spec : Text
deriving DecidableEq, Repr

/-- Cuts the text before a bar; a specifier may fill the piece before the first bar of a line. -/
def Piece.ofText (first : Bool) (t : Text) : Piece :=
  let found :=
    if first && isSpec (trimLeft t) then some (t.takeWhile isBlank, specOf (trimLeft t))
    else endSpec? t
  match found with
  | some (text, c :: spec) => ⟨text, c :: spec⟩
  | _ => ⟨t, []⟩

/-- A table line: the pieces before its bars and the text after the last. -/
structure Line where
  /-- The pieces that end at a bar. -/
  pieces : List Piece
  /-- The text after the last bar. -/
  last : Text
deriving DecidableEq, Repr

/-- Cuts all pieces that end at a bar; only the first may be filled by a specifier. -/
def Line.ofPieces (first : Bool) : List Text → Line
  | [] => ⟨[], []⟩
  | [last] => ⟨[], last⟩
  | t :: rest =>
    let line := Line.ofPieces false rest
    ⟨Piece.ofText first t :: line.pieces, line.last⟩

/-- Cuts a table line. -/
def Line.ofText (t : Text) : Line := Line.ofPieces true (bars t)

/-- The texts of a line in order: before the first bar, and of each cell. -/
def Line.texts (line : Line) : List Text := line.pieces.map (·.text) ++ [line.last]

/-- The specifiers of the cells of a line in order. -/
def Line.specs (line : Line) : List Text := line.pieces.map (·.spec)

/-! ## Cells -/

/-- A cell with the lines gathered for it. -/
structure PendingCell where
  /-- The line of the bar that starts it. -/
  line : Int
  /-- Its specifier. -/
  spec : Text
  /-- The lines of its text, trimmed, with their numbers. -/
  lines : List (Int × Text)
deriving DecidableEq, Repr

/-- The style a letter stands for. -/
def styleOf (c : Char) : Option Text :=
  if c = 'a' then some Element.asciidocStyle
  else if c = 'd' then some "default".toList
  else if c = 'e' then some "emphasis".toList
  else if c = 'h' then some "header".toList
  else if c = 'l' then some "literal".toList
  else if c = 'm' then some "monospaced".toList
  else none

/-- The style of a cell: what the last code point of its specifier stands for. -/
def PendingCell.style (cell : PendingCell) : Option Text := cell.spec.getLast?.bind styleOf

/-- Whether a cell holds a document. -/
def PendingCell.isAsciidoc (cell : PendingCell) : Bool :=
  cell.style = some Element.asciidocStyle

/-- The digits that say how many columns a cell spans, if its specifier says so. -/
def PendingCell.spanDigits (cell : PendingCell) : Text :=
  match cell.spec.dropWhile Digit.isDigit with
  | '*' :: _ | '+' :: _ => cell.spec.takeWhile Digit.isDigit
  | _ => []

/-- The number of columns a cell spans. -/
def PendingCell.columns (cell : PendingCell) : Nat :=
  match cell.spanDigits with
  | [] => 1
  | digits => Digit.number digits

/-- Adds a line to the last cell, if there is one. -/
def addToLast (entry : Int × Text) : List PendingCell → List PendingCell
  | [] => []
  | [cell] => [{ cell with lines := cell.lines ++ [entry] }]
  | cell :: rest => cell :: addToLast entry rest

/-- The cells a line starts, from their specifiers and texts. -/
def startCells (number : Int) (specs texts : List Text) : List PendingCell :=
  (specs.zip texts).map fun (spec, text) => ⟨number, spec, [(number, trim text)]⟩

/-- The cells after one more table line. Comments are dropped, and blank lines belong only to
cells that hold a document. -/
def addLine (cells : List PendingCell) (t : Token) : List PendingCell :=
  match t.kind with
  | .comment => cells
  | .blank =>
    if cells.getLast?.elim false (·.isAsciidoc) then addToLast (t.line, []) cells else cells
  | _ =>
    let line := Line.ofText t.text
    let leading := trim (line.texts.headD [])
    let cells := if leading.isEmpty then cells else addToLast (t.line, leading) cells
    cells ++ startCells t.line line.specs (line.texts.drop 1)

/-- The cells of the lines of a table. -/
def cells (body : List Token) : List PendingCell := body.foldl addLine []

/-- The lines of a cell from its first to its last that is not empty. -/
def PendingCell.content (cell : PendingCell) : List (Int × Text) :=
  ((cell.lines.dropWhile (·.2.isEmpty)).reverse.dropWhile (·.2.isEmpty)).reverse

/-- The text of a cell. -/
def PendingCell.text (cell : PendingCell) : Text := unlines (cell.content.map (·.2))

theorem length_addToLast (entry : Int × Text) (n : Nat) (cells : List PendingCell)
    (h : ∀ cell ∈ cells, cell.lines.length ≤ n) :
    ∀ cell ∈ addToLast entry cells, cell.lines.length ≤ n + 1 := by
  induction cells with
  | nil => simp [addToLast]
  | cons c rest ih =>
    cases rest with
    | nil =>
      intro cell hc
      simp only [addToLast, List.mem_singleton] at hc
      have := h c (by simp)
      subst hc
      simp only [List.length_append, List.length_cons, List.length_nil]
      omega
    | cons d ds =>
      intro cell hc
      simp only [addToLast, List.mem_cons] at hc
      rcases hc with rfl | hc
      · exact Nat.le_succ_of_le (h _ (by simp))
      · exact ih (fun x hx => h x (List.mem_cons_of_mem _ hx)) cell hc

theorem length_addLine (n : Nat) (cells : List PendingCell) (t : Token)
    (h : ∀ cell ∈ cells, cell.lines.length ≤ n) :
    ∀ cell ∈ addLine cells t, cell.lines.length ≤ n + 1 := by
  have weaken : ∀ cell ∈ cells, cell.lines.length ≤ n + 1 :=
    fun cell hc => Nat.le_succ_of_le (h cell hc)
  unfold addLine
  split
  · exact weaken
  · split
    · exact length_addToLast _ n cells h
    · exact weaken
  · intro cell hc
    simp only [List.mem_append] at hc
    rcases hc with hc | hc
    · split at hc
      · exact weaken cell hc
      · exact length_addToLast _ n cells h cell hc
    · simp only [startCells, List.mem_map] at hc
      obtain ⟨p, _, rfl⟩ := hc
      simp

/-- A cell has at most as many lines as the table. -/
theorem length_lines_le (body : List Token) :
    ∀ cell ∈ cells body, cell.lines.length ≤ body.length := by
  have go : ∀ (rest : List Token) (n : Nat) (before : List PendingCell),
      (∀ cell ∈ before, cell.lines.length ≤ n) →
      ∀ cell ∈ rest.foldl addLine before, cell.lines.length ≤ n + rest.length := by
    intro rest
    induction rest with
    | nil => intro n before h; simpa using h
    | cons t rest ih =>
      intro n before h cell hc
      have := ih (n + 1) (addLine before t) (length_addLine n before t h) cell hc
      simp only [List.length_cons]
      omega
  simpa [cells] using go body 0 [] (by simp)

theorem length_content_le (cell : PendingCell) : cell.content.length ≤ cell.lines.length := by
  unfold PendingCell.content
  have h1 := (List.dropWhile_suffix (fun x : Int × Text => x.2.isEmpty)
    (l := (cell.lines.dropWhile (·.2.isEmpty)).reverse)).length_le
  have h2 := (List.dropWhile_suffix (fun x : Int × Text => x.2.isEmpty) (l := cell.lines)).length_le
  simp only [List.length_reverse] at h1 ⊢
  omega

/-! ## Rows -/

/-- The rows of a run of cells, each cell with the columns it spans: a row ends with the cell
that fills the columns. Gives the complete rows and the cells after them; `row` and `width` are
the row begun. -/
def rowsFrom {α : Type} (columns : Nat) (row : List α) (width : Nat) :
    List (Nat × α) → List (List α) × List α
  | [] => ([], row)
  | (span, cell) :: rest =>
    if columns ≤ width + span then
      let (rows, left) := rowsFrom columns [] 0 rest
      ((row ++ [cell]) :: rows, left)
    else rowsFrom columns (row ++ [cell]) (width + span) rest

/-- The complete rows of a run of cells, and the cells after them. -/
def rows {α : Type} (columns : Nat) (cells : List (Nat × α)) : List (List α) × List α :=
  rowsFrom columns [] 0 cells

/-- The digits before an asterisk at the start of a column specification. -/
def multiplier (part : Text) : Text :=
  let part := trimLeft part
  match part.dropWhile Digit.isDigit with
  | '*' :: _ => part.takeWhile Digit.isDigit
  | _ => []

/-- The columns of all of some counts together, at least one. -/
def totalColumns (counts : List Nat) : Nat := max (counts.foldr (fun n total => n + total) 0) 1

/-- The number of columns a column specification counts. -/
def specifiedColumns (cols : Text) : Nat :=
  let counts := (split ',' cols).map fun part =>
    match multiplier part with
    | [] => 1
    | digits => Digit.number digits
  totalColumns counts

/-- The number of columns of a table: as specified, else as many as the cells of the first line
span. -/
def columnCount (cols : Text) (cells : List PendingCell) : Nat :=
  if cols.isEmpty then
    match cells with
    | [] => 1
    | first :: _ => totalColumns ((cells.filter (·.line = first.line)).map (·.columns))
  else specifiedColumns cols

/-- The runs of digits that are read as numbers to count the columns of a table. -/
def columnNumerals (cols : Text) (cells : List PendingCell) : List Text :=
  if cols.isEmpty then
    match cells with
    | [] => []
    | first :: _ => (cells.filter (·.line = first.line)).map (·.spanDigits)
  else (split ',' cols).map multiplier

end Asciidoc.Table
