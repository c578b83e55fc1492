import Asciidoc.Element.Lines
import Asciidoc.Proofs.Element.Prose

/-!
# Elements stand on lines

`Source.Spans` says that an element stands on lines of a text from one on and before another:
its prose is taken from these lines, its listings stand on them, and what is inside it stands on
parts of them one after the other. Siblings share no line, with one exception: a description may
start on the line of its term.

This is all that is said of what a reader makes of a text, and all that locating it needs.
-/

namespace Asciidoc

open Text

/-- Whether a line opens a block between delimiters, of lines or of blocks. -/
def Token.opensBlock (t : Token) : Bool :=
  match t.kind with
  | .blockDelimiter _ | .openDelimiter | .fence _ => true
  | _ => false

namespace Source

/-- Lines without the carriage returns at their ends stand in the text one directly after the
other. -/
def Stands (s : Source) (line : Int) (lines : List Text) : Prop :=
  ((s.numbered.drop (line - 1).toNat).take lines.length).map (fun entry => dropReturns entry.2)
    = lines

/-- Whether the line of a number opens such a block. -/
def opensBlock (s : Source) (marker : Text) (line : Int) : Bool :=
  match s.line? line with
  | some text => (Token.ofLine marker line text).opensBlock
  | none => false

/-- The lines between the delimiters of the table that opens on a line. -/
def tableBody (s : Source) (marker : Text) (line : Int) : List Token :=
  match s.tokensFrom marker line with
  | [] => []
  | opening :: rest => (tableSpan opening.content rest).1

/-- A term is a text on a single line, with no blocks. -/
def IsTerm (s : Source) (marker : Text) (e : Element) : Prop :=
  ∃ line text, e = .item (some line) (some text) none [] ∧ s.Takes marker line [text] line

/-- Lines of a paragraph are lines of the text without their outer blanks, but the first may be
what is behind a label. -/
structure Trims (s : Source) (marker : Text) (line : Int) (lines : List Text) : Prop where
  /-- The first line. -/
  first : ∃ (piece : Text) (entry : Int × Text), lines.head? = some piece ∧
    (s.taken marker line lines.length).head? = some entry ∧
      (piece = trim entry.2 ∨ ∃ label, Shape.label? (trim entry.2) = some (label, piece))
  /-- The others. -/
  others : lines.tail = (s.taken marker line lines.length).tail.map fun entry => trim entry.2
  /-- None of the lines of the text is blank. -/
  notBlank : ∀ entry ∈ s.taken marker line lines.length, trim entry.2 ≠ []

/-- A location runs from the first code point that is no blank in the first of some lines to the
last in the last of them; where what is between the blanks looks like a comment, it starts with
the line. -/
def RunsOver (s : Source) (marker : Text) (line : Int) (count : Nat) (l : Location) : Prop :=
  ∃ first last : Int × Text, (s.taken marker line count).head? = some first ∧
    (s.taken marker line count).getLast? = some last ∧
      l.start = ⟨first.1, if marker.isPrefixOf (trim first.2) then 0 else indent first.2⟩ ∧
        l.stop = ⟨last.1, indent last.2 + (trim last.2).length⟩

/-- Whole lines without their outer blanks are located where they stand between them. -/
theorem Trims.runsOver {s : Source} {marker : Text} {line : Int} {lines : List Text}
    {l : Location} (htrims : s.Trims marker line lines) (hlocates : s.Locates marker line lines l)
    (hwhole : lines = (s.taken marker line lines.length).map fun entry => trim entry.2) :
    s.RunsOver marker line lines.length l := by
  obtain ⟨start, first, column, hstart, hfirst, hcolumn, hl⟩ := hlocates.start
  obtain ⟨stop, last, column', hstop, hlast, hcolumn', hl'⟩ := hlocates.stop
  have hstart' : start = trim first.2 := by
    rw [hwhole, List.head?_map, hfirst] at hstart
    exact (Option.some.inj hstart).symm
  have hstop' : stop = trim last.2 := by
    rw [hwhole, List.getLast?_map, hlast] at hstop
    exact (Option.some.inj hstop).symm
  rw [hstart', find?_trim (htrims.notBlank first (List.mem_of_head? hfirst))] at hcolumn
  rw [hstop', find?_trim (htrims.notBlank last (List.mem_of_getLast? hlast))] at hcolumn'
  obtain rfl := Option.some.inj hcolumn
  obtain rfl := Option.some.inj hcolumn'
  refine ⟨first, last, hfirst, hlast, ?_, ?_⟩
  · rw [hl, hstart']
  · rw [hl', hstop']

mutual

/-- An element stands on the lines from one on and before another. -/
inductive Spans (s : Source) (marker : Text) : Int → Int → Element → Prop where
  | sectionBlock {low high line : Int} {title : Text} {level : Int} {blocks : List Element}
      (hlow : low ≤ line) (hhigh : line < high) (htitle : s.Takes marker line [title] line)
      (hblocks : SpansAll s marker (line + 1) high blocks) :
    Spans s marker low high (.sectionBlock (some line) title level blocks)
  | paragraph {low high line last : Int} {lines : List Text} (hlow : low ≤ line)
      (hhigh : last < high) (hlines : s.Takes marker line lines last)
      (htrims : s.Trims marker line lines) :
    Spans s marker low high (.paragraph (some line) lines)
  /-- An indented or styled paragraph. -/
  | literal {low high line last : Int} {lines : List Text} (hlow : low ≤ line)
      (hhigh : last < high) (hopens : s.opensBlock marker line = false)
      (hlines : s.Takes marker line lines last) :
    Spans s marker low high (.literal (some line) lines)
  /-- Lines between delimiters. -/
  | delimited {low high line : Int} {lines : List Text} (hlow : low ≤ line)
      (hhigh : line + lines.length < high) (hopens : s.opensLiteral marker line = true)
      (hlines : s.Stands (line + 1) lines) :
    Spans s marker low high (.literal (some line) lines)
  /-- A listing between delimiters. -/
  | listing {low high line : Int} {lines : List Text} {language : Option Text}
      (hlow : low ≤ line) (hhigh : line + lines.length < high)
      (hopens : s.opensBlock marker line = true) (hlines : s.Stands (line + 1) lines) :
    Spans s marker low high (.listing (some line) lines language)
  /-- A paragraph that is a listing by its style. -/
  | styledListing {low high line last : Int} {lines : List Text} {language : Option Text}
      (hlow : low ≤ line) (hhigh : last < high) (hopens : s.opensBlock marker line = false)
      (hlines : s.Takes marker line lines last) :
    Spans s marker low high (.listing (some line) lines language)
  | unorderedList {low high line : Int} {marks : Text} {items : List Element}
      (hlow : low ≤ line) (hhigh : line < high) (hitems : SpansAll s marker line high items) :
    Spans s marker low high (.unorderedList (some line) marks items)
  | orderedList {low high line : Int} {marks : Text} {items : List Element} (hlow : low ≤ line)
      (hhigh : line < high) (hitems : SpansAll s marker line high items) :
    Spans s marker low high (.orderedList (some line) marks items)
  | item {low high line last : Int} {text : Text} {checked : Option Bool}
      {blocks : List Element} (hlow : low ≤ line) (hhigh : line < high)
      (htext : s.Takes marker line text.lines last) (hne : text ≠ [])
      (hblocks : SpansAll s marker (last + 1) high blocks) :
    Spans s marker low high (.item (some line) (some text) checked blocks)
  /-- A description without a text of its own. -/
  | bareItem {low high line : Int} {checked : Option Bool} {blocks : List Element}
      (hlow : low ≤ line) (hhigh : line < high) (hblocks : SpansAll s marker line high blocks) :
    Spans s marker low high (.item (some line) none checked blocks)
  | descriptionList {low high line : Int} {delimiter : Text} {entries : List (Entry Element)}
      (hlow : low ≤ line) (hhigh : line < high)
      (hentries : SpansEntries s marker line high entries) :
    Spans s marker low high (.descriptionList (some line) delimiter entries)
  | quoteBlock {low high line : Int} {blocks : List Element} (hlow : low ≤ line)
      (hhigh : line < high) (hblocks : SpansAll s marker line high blocks) :
    Spans s marker low high (.quoteBlock (some line) blocks)
  | compound {low high line : Int} {kind : Compound} {blocks : List Element}
      (hlow : low ≤ line) (hhigh : line < high) (hblocks : SpansAll s marker line high blocks) :
    Spans s marker low high (.compound (some line) kind blocks)
  | table {low high line : Int} {headerRows bodyRows : List (List Element)} (hlow : low ≤ line)
      (hhigh : line + (s.tableBody marker line).length < high) :
    Spans s marker low high (.table (some line) headerRows bodyRows)
  | unsupported {low high line : Int} {kind : Text} (hlow : low ≤ line) (hhigh : line < high) :
    Spans s marker low high (.unsupported (some line) kind)

/-- Siblings stand one after the other on the lines from one on and before another. -/
inductive SpansAll (s : Source) (marker : Text) : Int → Int → List Element → Prop where
  | nil {low high : Int} (h : low ≤ high) : SpansAll s marker low high []
  | cons {low middle high : Int} {e : Element} {rest : List Element}
      (first : Spans s marker low middle e) (others : SpansAll s marker middle high rest) :
    SpansAll s marker low high (e :: rest)

/-- Entries stand one after the other; a description with a text may start on the line of its last
term. -/
inductive SpansEntries (s : Source) (marker : Text) : Int → Int → List (Entry Element) → Prop where
  | nil {low high : Int} (h : low ≤ high) : SpansEntries s marker low high []
  | cons {low behind middle high : Int} {terms : List Element} {description : Option Element}
      {rest : List (Entry Element)} (hne : terms ≠ []) (hterms : SpansAll s marker low behind terms)
      (hterm : ∀ e ∈ terms, s.IsTerm marker e) (hbehind : behind ≤ middle)
      (hdescription : ∀ e, description = some e → Spans s marker (behind - 1) middle e)
      (htext : ∀ e, description = some e → e.line = some (behind - 1) →
        ∃ line text checked blocks, e = .item line (some text) checked blocks)
      (others : SpansEntries s marker middle high rest) :
    SpansEntries s marker low high (⟨terms, description⟩ :: rest)

end

variable {s : Source} {marker : Text} {low middle high : Int} {e : Element}

/-- The line an element is reported to start on is one of those it stands on, and it stands on
the lines from there on. -/
theorem Spans.exists_line (h : s.Spans marker low high e) :
    ∃ line, e.line = some line ∧ low ≤ line ∧ line < high ∧
      ∀ low', low' ≤ line → s.Spans marker low' high e := by
  cases h with
  | @sectionBlock _ _ line _ _ _ hlow hhigh htitle hblocks =>
    exact ⟨line, rfl, hlow, hhigh, fun _ h => .sectionBlock h hhigh htitle hblocks⟩
  | @paragraph _ _ line _ _ hlow hhigh hlines htrims =>
    have := hlines.line_le
    exact ⟨line, rfl, hlow, by omega, fun _ h => .paragraph h hhigh hlines htrims⟩
  | @literal _ _ line _ _ hlow hhigh hopens hlines =>
    have := hlines.line_le
    exact ⟨line, rfl, hlow, by omega, fun _ h => .literal h hhigh hopens hlines⟩
  | @delimited _ _ line _ hlow hhigh hopens hlines =>
    exact ⟨line, rfl, hlow, by omega, fun _ h => .delimited h hhigh hopens hlines⟩
  | @listing _ _ line _ _ hlow hhigh hopens hlines =>
    exact ⟨line, rfl, hlow, by omega, fun _ h => .listing h hhigh hopens hlines⟩
  | @styledListing _ _ line _ _ _ hlow hhigh hopens hlines =>
    have := hlines.line_le
    exact ⟨line, rfl, hlow, by omega, fun _ h => .styledListing h hhigh hopens hlines⟩
  | @unorderedList _ _ line _ _ hlow hhigh hitems =>
    exact ⟨line, rfl, hlow, hhigh, fun _ h => .unorderedList h hhigh hitems⟩
  | @orderedList _ _ line _ _ hlow hhigh hitems =>
    exact ⟨line, rfl, hlow, hhigh, fun _ h => .orderedList h hhigh hitems⟩
  | @item _ _ line _ _ _ _ hlow hhigh htext hne hblocks =>
    exact ⟨line, rfl, hlow, hhigh, fun _ h => .item h hhigh htext hne hblocks⟩
  | @bareItem _ _ line _ _ hlow hhigh hblocks =>
    exact ⟨line, rfl, hlow, hhigh, fun _ h => .bareItem h hhigh hblocks⟩
  | @descriptionList _ _ line _ _ hlow hhigh hentries =>
    exact ⟨line, rfl, hlow, hhigh, fun _ h => .descriptionList h hhigh hentries⟩
  | @quoteBlock _ _ line _ hlow hhigh hblocks =>
    exact ⟨line, rfl, hlow, hhigh, fun _ h => .quoteBlock h hhigh hblocks⟩
  | @compound _ _ line _ _ hlow hhigh hblocks =>
    exact ⟨line, rfl, hlow, hhigh, fun _ h => .compound h hhigh hblocks⟩
  | @table _ _ line _ _ hlow hhigh =>
    exact ⟨line, rfl, hlow, by omega, fun _ h => .table h hhigh⟩
  | @unsupported _ _ line _ hlow hhigh =>
    exact ⟨line, rfl, hlow, hhigh, fun _ h => .unsupported h hhigh⟩

theorem Spans.mono (h : s.Spans marker middle high e) (hlow : low ≤ middle) :
    s.Spans marker low high e := by
  obtain ⟨line, -, hline, -, hspans⟩ := h.exists_line
  exact hspans low (by omega)

theorem Spans.lt (h : s.Spans marker low high e) : low < high := by
  obtain ⟨line, -, hlow, hhigh, -⟩ := h.exists_line
  omega

theorem SpansAll.le {es : List Element} (h : s.SpansAll marker low high es) : low ≤ high := by
  induction es generalizing low with
  | nil =>
    cases h
    assumption
  | cons e rest ih =>
    cases h with
    | cons hfirst hothers =>
      have := hfirst.lt
      have := ih hothers
      omega

theorem SpansAll.mono {es : List Element} (h : s.SpansAll marker middle high es)
    (hlow : low ≤ middle) : s.SpansAll marker low high es := by
  cases h with
  | nil h => exact .nil (by omega)
  | cons hfirst hothers => exact .cons (hfirst.mono hlow) hothers

theorem SpansAll.singleton (h : s.Spans marker low high e) : s.SpansAll marker low high [e] :=
  .cons h (.nil (Int.le_refl _))

theorem SpansAll.append {es others : List Element} (h : s.SpansAll marker low middle es)
    (hothers : s.SpansAll marker middle high others) :
    s.SpansAll marker low high (es ++ others) := by
  induction es generalizing low with
  | nil => exact hothers.mono h.le
  | cons e rest ih =>
    cases h with
    | cons hfirst hrest => exact .cons hfirst (ih hrest)

theorem SpansEntries.le {entries : List (Entry Element)}
    (h : s.SpansEntries marker low high entries) : low ≤ high := by
  induction entries generalizing low with
  | nil =>
    cases h
    assumption
  | cons entry rest ih =>
    cases h with
    | cons _ hterms _ hbehind _ _ hothers =>
      have := hterms.le
      have := ih hothers
      omega

theorem SpansEntries.mono {entries : List (Entry Element)}
    (h : s.SpansEntries marker middle high entries) (hlow : low ≤ middle) :
    s.SpansEntries marker low high entries := by
  cases h with
  | nil h => exact .nil (by omega)
  | cons hne hterms hterm hbehind hdescription htext hothers =>
    exact .cons hne (hterms.mono hlow) hterm hbehind hdescription htext hothers

theorem SpansEntries.append {entries others : List (Entry Element)}
    (h : s.SpansEntries marker low middle entries)
    (hothers : s.SpansEntries marker middle high others) :
    s.SpansEntries marker low high (entries ++ others) := by
  induction entries generalizing low with
  | nil => exact hothers.mono h.le
  | cons entry rest ih =>
    cases h with
    | cons hne hterms hterm hbehind hdescription htext hrest =>
      exact .cons hne hterms hterm hbehind hdescription htext (ih hrest)

end Source

end Asciidoc
