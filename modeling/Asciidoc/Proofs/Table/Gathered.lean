import Asciidoc.Proofs.Span.Search
import Asciidoc.Proofs.Table.Numbers
import Asciidoc.Proofs.Token.Leads
import Mathlib.Data.List.Induction

/-!
# How the lines of cells are gathered

A table line adds to the last cell what is before its first bar, and starts a cell at each of its
bars; comments and lines that say nothing are left out, but for the empty lines of cells that hold
documents. `AddsLine` has one case for each of these, and two laws follow from it by going through
the lines of a table. The lines of the cells stand in the lines of the table one after the other
(`cells_spread`), so that no two cells share a column. And a cell has something of every line from
its bar to its last line that says something (`cells_gathered`); what separates two lines of a cell
is left out.
-/

namespace Asciidoc

open Text

/-- Whether a table line says nothing of its own: it is a comment or has only blanks. -/
def Token.isVoid (t : Token) : Bool := t.kind = .comment || (trim t.text).isEmpty

namespace Table

variable {cells : List PendingCell} {p : PendingCell} {t : Token} {body : List Token}

/-! ## The texts of a line -/

theorem Line.length_texts (line : Line) : line.texts.length = line.specs.length + 1 := by
  simp [texts, specs]

theorem Line.length_ofPieces (first : Bool) {pieces : List Text} (h : pieces ≠ []) :
    (Line.ofPieces first pieces).texts.length = pieces.length := by
  induction pieces generalizing first with
  | nil => exact absurd rfl h
  | cons piece rest ih =>
    cases rest with
    | nil => rfl
    | cons second others =>
      have := ih false (List.cons_ne_nil _ _)
      simpa [Line.ofPieces, Line.texts] using this

/-- A line has a text before its first bar, and without bars it is the line. -/
theorem Line.exists_texts (t : Text) :
    ∃ leading texts, (Line.ofText t).texts = leading :: texts ∧
      texts.length = (Line.ofText t).specs.length ∧ (texts = [] → leading = t) := by
  have hlength := (Line.ofText t).length_texts
  cases htexts : (Line.ofText t).texts with
  | nil => simp [htexts] at hlength
  | cons leading texts =>
    rw [htexts, List.length_cons] at hlength
    refine ⟨leading, texts, rfl, Nat.succ.inj hlength, ?_⟩
    rintro rfl
    have hpieces := Line.length_ofPieces true (barsFrom_ne_nil false t)
    rw [show Line.ofPieces true (barsFrom false t) = Line.ofText t from rfl, htexts] at hpieces
    obtain ⟨piece, hpiece⟩ := List.length_eq_one_iff.mp hpieces.symm
    have hjoin := join_bars t
    rw [Line.ofText, bars, hpiece] at htexts
    rw [bars, hpiece] at hjoin
    obtain rfl : piece = leading := List.singleton_inj.mp htexts
    simpa [join, List.intercalate] using hjoin

/-! ## Bars in texts -/

/-- Whether backslashes come before all bars of a text; `escaped` says whether one came before the
text. -/
def barless (escaped : Bool) : Text → Bool
  | [] => true
  | c :: rest => (c ≠ '|' || escaped) && barless (c = '\\') rest

/-- The pieces between bars have no bars that start cells. -/
theorem barless_barsFrom (escaped : Bool) (t : Text) :
    ∃ piece pieces, barsFrom escaped t = piece :: pieces ∧ barless escaped piece = true ∧
      ∀ x ∈ pieces, barless false x = true := by
  induction t generalizing escaped with
  | nil => exact ⟨[], [], rfl, rfl, nofun⟩
  | cons c rest ih =>
    rw [barsFrom]
    split
    next =>
      obtain ⟨piece, pieces, hrest, hpiece, hpieces⟩ := ih false
      exact ⟨[], _, rfl, rfl, hrest ▸ List.forall_mem_cons.mpr ⟨hpiece, hpieces⟩⟩
    next hbar =>
      obtain ⟨piece, pieces, hrest, hpiece, hpieces⟩ := ih (c = '\\')
      rw [hrest]
      refine ⟨c :: piece, pieces, rfl, ?_, hpieces⟩
      rw [barless, hpiece, Bool.and_true]
      cases escaped with
      | false => simpa using hbar
      | true => simp

theorem barless_of_isPrefix {escaped : Bool} {x y : Text} (h : x <+: y)
    (hy : barless escaped y = true) : barless escaped x = true := by
  induction x generalizing escaped y with
  | nil => rfl
  | cons c rest ih =>
    obtain ⟨behind, rfl⟩ := h
    rw [List.cons_append, barless, Bool.and_eq_true] at hy
    rw [barless, hy.1, ih (List.prefix_append rest behind) hy.2, Bool.and_self]

/-- The texts of a line have no bars that start cells. -/
theorem Line.barless_texts (t : Text) : ∀ x ∈ (Line.ofText t).texts, barless false x = true := by
  have hpieces (first : Bool) (pieces : List Text) (h : ∀ x ∈ pieces, barless false x = true) :
      ∀ x ∈ (Line.ofPieces first pieces).texts, barless false x = true := by
    induction pieces generalizing first with
    | nil => simp [ofPieces, texts, barless]
    | cons piece rest ih =>
      cases rest with
      | nil => simpa [ofPieces, texts] using h
      | cons second others =>
        obtain ⟨hpiece, hrest⟩ := List.forall_mem_cons.mp h
        exact List.forall_mem_cons.mpr
          ⟨barless_of_isPrefix (Piece.ofText_pieces first piece).1 hpiece, ih false hrest⟩
  obtain ⟨piece, pieces, hbars, hpiece, hrest⟩ := barless_barsFrom false t
  refine hpieces true (bars t) ?_
  rw [bars, hbars]
  exact List.forall_mem_cons.mpr ⟨hpiece, hrest⟩

/-- Nor are there any in what is between the outer blanks of such a text. -/
theorem barless_trim {x : Text} (h : barless false x = true) : barless false (trim x) = true := by
  obtain ⟨indent, blanks, hx, hindent⟩ := exists_trim x
  rw [hx] at h
  clear hx
  induction indent with
  | nil => exact barless_of_isPrefix (List.prefix_append _ _) h
  | cons c more ih =>
    rw [allBlank_cons, Bool.and_eq_true] at hindent
    have hescape : decide (c = '\\') = false := by
      rw [decide_eq_false_iff_not]
      rintro rfl
      exact absurd hindent.1 (by decide)
    rw [List.cons_append, barless, hescape, Bool.and_eq_true] at h
    exact ih h.2 hindent.2

/-- Such a text does not begin with a bar. -/
theorem head?_of_barless {x : Text} (h : barless false x = true) : x.head? ≠ some '|' := by
  cases x with
  | nil => exact nofun
  | cons c rest =>
    rintro ⟨⟩
    cases h

/-! ## One line -/

/-- The cells before a table line that has a text before its first bar: the last goes on with the
text, if it is not blank. -/
def keep (number : Int) (leading : Text) (cells : List PendingCell) : List PendingCell :=
  if (trim leading).isEmpty then cells else addToLast (number, trim leading) cells

/-- A line that is no comment and not blank goes on before its first bar and starts cells behind. -/
theorem addLine_of_line (cells : List PendingCell) (hblank : t.kind ≠ .blank)
    (hcomment : t.kind ≠ .comment) :
    addLine cells t = keep t.line ((Line.ofText t.text).texts.headD []) cells ++
      startCells t.line (Line.ofText t.text).specs ((Line.ofText t.text).texts.drop 1) := by
  unfold addLine
  split
  next hkind => exact absurd hkind hcomment
  next hkind => exact absurd hkind hblank
  next => rfl

/-- What one more table line makes of the cells before it. -/
inductive AddsLine (cells : List PendingCell) (t : Token) : List PendingCell → Prop where
  /-- The line is left out. -/
  | nothing (h : t.isVoid = true) : AddsLine cells t cells
  /-- A cell that holds a document has an empty line more. -/
  | empty {p : PendingCell} (h : t.isVoid = true) (hlast : cells.getLast? = some p)
      (hp : p.isAsciidoc = true) : AddsLine cells t (addToLast (t.line, []) cells)
  /-- The line has nothing before its first bar. -/
  | starts {leading : Text} {texts : List Text}
      (htexts : (Line.ofText t.text).texts = leading :: texts)
      (hlength : texts.length = (Line.ofText t.text).specs.length)
      (hvoid : texts = [] → t.isVoid = true) :
    AddsLine cells t (cells ++ startCells t.line (Line.ofText t.text).specs texts)
  /-- The last cell goes on before the first bar. -/
  | continues {leading : Text} {texts : List Text}
      (htexts : (Line.ofText t.text).texts = leading :: texts)
      (hlength : texts.length = (Line.ofText t.text).specs.length) (hne : trim leading ≠ []) :
    AddsLine cells t (addToLast (t.line, trim leading) cells
      ++ startCells t.line (Line.ofText t.text).specs texts)

theorem addLine_adds (cells : List PendingCell) (hblank : t.kind = .blank → trim t.text = []) :
    AddsLine cells t (addLine cells t) := by
  unfold addLine
  split
  next hkind => exact .nothing (by simp [Token.isVoid, hkind])
  next hkind =>
    have hvoid : t.isVoid = true := by simp [Token.isVoid, hblank hkind]
    split
    next hlast =>
      cases hcells : cells.getLast? with
      | none =>
        rw [hcells] at hlast
        cases hlast
      | some p =>
        rw [hcells] at hlast
        exact .empty hvoid hcells hlast
    next => exact .nothing hvoid
  next =>
    obtain ⟨leading, texts, htexts, hlength, halone⟩ := Line.exists_texts t.text
    dsimp only
    rw [htexts, List.headD_cons, List.drop_succ_cons, List.drop_zero]
    split
    next hempty =>
      have hempty := List.isEmpty_iff.mp hempty
      exact .starts htexts hlength fun hnone => by
        rw [halone hnone] at hempty
        simp [Token.isVoid, hempty]
    next hne => exact .continues htexts hlength (by simpa using hne)

theorem map_lines_startCells {number : Int} {specs texts : List Text}
    (h : texts.length = specs.length) :
    (startCells number specs texts).map (·.lines)
      = texts.map fun text => [(number, trim text)] := by
  have htexts : (specs.zip texts).map Prod.snd = texts := List.map_snd_zip (Nat.le_of_eq h)
  conv_rhs => rw [← htexts]
  rw [startCells, List.map_map, List.map_map]
  rfl

theorem lines_startCells {number : Int} {specs texts : List Text}
    (h : texts.length = specs.length) :
    (startCells number specs texts).flatMap (·.lines)
      = texts.map fun text => (number, trim text) := by
  rw [List.flatMap_def, map_lines_startCells h, ← List.flatMap_def, List.map_eq_flatMap]

theorem lines_addToLast (entry : Int × Text) (cells : List PendingCell) :
    (addToLast entry cells).flatMap (·.lines)
      = cells.flatMap (·.lines) ++ if cells = [] then [] else [entry] := by
  rcases List.eq_nil_or_concat cells with rfl | ⟨before, p, rfl⟩
  · rfl
  · rw [List.concat_eq_append, addToLast_concat, if_neg (by simp)]
    simp

theorem cells_concat (done : List Token) (t : Token) :
    Table.cells (done ++ [t]) = addLine (Table.cells done) t := by
  simp [Table.cells]

/-! ## Where the lines stand -/

/-- A line of a cell at a column of the table line of its number. -/
structure Spot where
  /-- The line of the cell with its number. -/
  entry : Int × Text
  /-- The column. -/
  column : Nat

/-- A spot ends before another begins. -/
def Spot.Before (a b : Spot) : Prop :=
  a.entry.1 < b.entry.1 ∨ a.entry.1 = b.entry.1 ∧ a.column + a.entry.2.length ≤ b.column

/-- Spots are in table lines, one after the other. -/
structure Spread (body : List Token) (spots : List Spot) : Prop where
  /-- Each is in its table line, and has no bars that start cells. -/
  each : ∀ a ∈ spots, ∃ t ∈ body, t.line = a.entry.1 ∧ a.entry.2.OccursAt t.text a.column ∧
    barless false a.entry.2 = true
  /-- Each ends before those after it. -/
  ordered : spots.Pairwise Spot.Before

/-- A text without its outer blanks stands where the text does. -/
theorem exists_occursAt_trim (before x after : Text) :
    ∃ column, before.length ≤ column ∧ column + (trim x).length ≤ before.length + x.length ∧
      (trim x).OccursAt (before ++ (x ++ after)) column := by
  obtain ⟨indent, blanks, hx, -⟩ := exists_trim x
  have hlength := congrArg List.length hx
  simp only [List.length_append] at hlength
  have hline : before ++ (x ++ after) = before ++ indent ++ (trim x ++ (blanks ++ after)) := by
    conv_lhs => rw [hx]
    simp only [List.append_assoc]
  refine ⟨(before ++ indent).length, by simp, by simp only [List.length_append]; omega, ?_⟩
  rw [hline]
  refine ⟨by simp, ?_⟩
  rw [List.drop_left]
  exact List.prefix_append _ _

/-- The texts of a line stand in it one after the other. -/
theorem Line.exists_spots (number : Int) (first : Bool) (before : Text) {pieces : List Text}
    (h : pieces ≠ []) :
    ∃ spots : List Spot, spots.map (·.entry)
        = ((Line.ofPieces first pieces).texts.map fun text => (number, trim text)) ∧
      (∀ a ∈ spots, before.length ≤ a.column ∧
        a.entry.2.OccursAt (before ++ join ['|'] pieces) a.column) ∧
      spots.Pairwise Spot.Before := by
  induction pieces generalizing first before with
  | nil => exact absurd rfl h
  | cons piece rest ih =>
    cases rest with
    | nil =>
      obtain ⟨column, hcolumn, -, hoccurs⟩ := exists_occursAt_trim before piece []
      refine ⟨[⟨(number, trim piece), column⟩], rfl, ?_, List.pairwise_singleton _ _⟩
      rw [List.append_nil] at hoccurs
      simpa [join, List.intercalate] using ⟨hcolumn, hoccurs⟩
    | cons second others =>
      obtain ⟨behind, hpiece⟩ := (Piece.ofText_pieces first piece).1
      obtain ⟨spots, hentries, heach, hordered⟩ :=
        ih false (before ++ (piece ++ ['|'])) (List.cons_ne_nil _ _)
      have hline : before ++ join ['|'] (piece :: second :: others)
          = before ++ (piece ++ ['|']) ++ join ['|'] (second :: others) := by
        simp [join, List.intercalate, List.intersperse]
      obtain ⟨column, hcolumn, hend, hoccurs⟩ := exists_occursAt_trim before
        (Piece.ofText first piece).text (behind ++ '|' :: join ['|'] (second :: others))
      have hshort := congrArg List.length hpiece
      simp only [List.length_append] at hshort
      refine ⟨⟨(number, trim (Piece.ofText first piece).text), column⟩ :: spots, ?_, ?_, ?_⟩
      · rw [List.map_cons, hentries]
        rfl
      · refine List.forall_mem_cons.mpr ⟨⟨hcolumn, ?_⟩, fun a ha => ?_⟩
        · rw [← List.append_assoc (Piece.ofText first piece).text, hpiece] at hoccurs
          rw [hline]
          simpa using hoccurs
        · obtain ⟨hbehind, hoccurs⟩ := heach a ha
          simp only [List.length_append] at hbehind
          exact ⟨by omega, hline ▸ hoccurs⟩
      · refine List.pairwise_cons.mpr ⟨fun a ha => .inr ⟨?_, ?_⟩, hordered⟩
        · have hentry := List.mem_map_of_mem (f := (·.entry)) ha
          rw [hentries] at hentry
          obtain ⟨text, -, htext⟩ := List.mem_map.mp hentry
          rw [← htext]
        · have hbehind := (heach a ha).1
          simp only [List.length_append, List.length_singleton] at hbehind
          dsimp only
          omega

/-- What one more table line adds stands in it. -/
theorem AddsLine.exists_spots {after : List PendingCell} (h : AddsLine cells t after) :
    ∃ spots : List Spot,
      after.flatMap (·.lines) = cells.flatMap (·.lines) ++ spots.map (·.entry) ∧
      (∀ a ∈ spots, t.line = a.entry.1 ∧ a.entry.2.OccursAt t.text a.column ∧
        barless false a.entry.2 = true) ∧
      spots.Pairwise Spot.Before := by
  obtain ⟨spots, hentries, heach, hordered⟩ :=
    Line.exists_spots t.line true [] (barsFrom_ne_nil false t.text)
  have hin : ∀ a ∈ spots, t.line = a.entry.1 ∧ a.entry.2.OccursAt t.text a.column ∧
      barless false a.entry.2 = true := by
    intro a ha
    have hentry := List.mem_map_of_mem (f := (·.entry)) ha
    rw [hentries] at hentry
    obtain ⟨text, hmem, htext⟩ := List.mem_map.mp hentry
    have hoccurs := (heach a ha).2
    rw [List.nil_append, join_barsFrom] at hoccurs
    refine ⟨by rw [← htext], hoccurs, ?_⟩
    rw [← htext]
    exact barless_trim (Line.barless_texts t.text text hmem)
  rw [show Line.ofPieces true (barsFrom false t.text) = Line.ofText t.text from rfl] at hentries
  cases h with
  | nothing => exact ⟨[], by simp, nofun, .nil⟩
  | @empty p hvoid hlast hp =>
    refine ⟨[⟨(t.line, []), 0⟩], ?_, ?_, List.pairwise_singleton _ _⟩
    · rw [lines_addToLast, if_neg (List.ne_nil_of_mem (List.mem_of_getLast? hlast))]
      rfl
    · exact List.forall_mem_singleton.mpr ⟨rfl, ⟨Nat.zero_le _, List.nil_prefix⟩, rfl⟩
  | starts htexts hlength =>
    rw [htexts, List.map_cons] at hentries
    obtain ⟨leading, more, rfl, -, hmore⟩ := List.map_eq_cons_iff.mp hentries
    refine ⟨more, ?_, fun a ha => hin a (List.mem_cons_of_mem _ ha),
      (List.pairwise_cons.mp hordered).2⟩
    rw [List.flatMap_append, lines_startCells hlength, hmore]
  | continues htexts hlength =>
    rw [htexts, List.map_cons] at hentries
    obtain ⟨leading, more, rfl, hleading, hmore⟩ := List.map_eq_cons_iff.mp hentries
    rw [List.flatMap_append, lines_startCells hlength, lines_addToLast, List.append_assoc]
    split
    · exact ⟨more, by rw [hmore]; rfl, fun a ha => hin a (List.mem_cons_of_mem _ ha),
        (List.pairwise_cons.mp hordered).2⟩
    · exact ⟨leading :: more, by rw [List.map_cons, hleading, hmore]; rfl, hin, hordered⟩

/-- The lines of the cells stand in the table lines one after the other. -/
theorem cells_spread (hblank : ∀ t ∈ body, t.kind = .blank → trim t.text = [])
    (hbody : body.Pairwise fun t u => t.line < u.line) :
    ∃ spots : List Spot, spots.map (·.entry) = (Table.cells body).flatMap (·.lines) ∧
      Spread body spots := by
  induction body using List.reverseRecOn with
  | nil => exact ⟨[], rfl, nofun, .nil⟩
  | append_singleton done t ih =>
    obtain ⟨hdone, -, hlt⟩ := List.pairwise_append.mp hbody
    obtain ⟨spots, hentries, hspread⟩ :=
      ih (fun u hu => hblank u (List.mem_append_left _ hu)) hdone
    obtain ⟨more, hmore, heach, hordered⟩ :=
      (addLine_adds (Table.cells done) (hblank t (by simp))).exists_spots
    refine ⟨spots ++ more, by rw [cells_concat, hmore, List.map_append, hentries], ?_, ?_⟩
    · refine List.forall_mem_append.mpr ⟨fun a ha => ?_, fun a ha => ?_⟩
      · obtain ⟨u, hu, hoccurs⟩ := hspread.each a ha
        exact ⟨u, List.mem_append_left _ hu, hoccurs⟩
      · exact ⟨t, by simp, heach a ha⟩
    · refine List.pairwise_append.mpr ⟨hspread.ordered, hordered, fun a ha b hb => .inl ?_⟩
      obtain ⟨u, hu, hline, -⟩ := hspread.each a ha
      rw [← hline, ← (heach b hb).1]
      exact hlt u hu t (List.mem_singleton_self t)

/-! ## Which lines a cell has -/

namespace PendingCell

/-- A cell has something of each table line from its bar to a number, but for those that say
nothing. -/
def Reaches (p : PendingCell) (body : List Token) (number : Int) : Prop :=
  ∀ t ∈ body, p.line ≤ t.line → t.line ≤ number →
    t.isVoid = true ∨ ∃ entry ∈ p.lines, entry.1 = t.line

/-- What is known of the lines of a cell. -/
structure Gathered (p : PendingCell) (body : List Token) : Prop where
  /-- The first is that of its bar; others are not empty, if the cell holds no document. -/
  bar : ∃ text rest, p.lines = (p.line, text) :: rest ∧
    (p.isAsciidoc = false → ∀ entry ∈ rest, entry.2 ≠ [])
  /-- No line between them is left out that says something. -/
  reaches : ∀ entry ∈ p.lines, p.Reaches body entry.1

/-- A later table line is not reached. -/
theorem Reaches.concat {number : Int} (h : p.Reaches body number) (hlt : number < t.line) :
    p.Reaches (body ++ [t]) number := by
  refine List.forall_mem_append.mpr ⟨h, List.forall_mem_singleton.mpr fun _ hle => ?_⟩
  omega

theorem Gathered.concat (h : p.Gathered body) (hlt : ∀ entry ∈ p.lines, entry.1 < t.line) :
    p.Gathered (body ++ [t]) :=
  ⟨h.bar, fun entry hentry => (h.reaches entry hentry).concat (hlt entry hentry)⟩

/-- A cell that goes on has something of the line it goes on with. -/
theorem Gathered.goesOn {text : Text} (h : p.Gathered body)
    (hall : ∀ number, p.Reaches body number) (htext : p.isAsciidoc = false → text ≠ []) :
    { p with lines := p.lines ++ [(t.line, text)] }.Gathered (body ++ [t]) ∧
      ∀ number, { p with lines := p.lines ++ [(t.line, text)] }.Reaches (body ++ [t]) number := by
  obtain ⟨first, rest, hlines, hrest⟩ := h.bar
  have hreaches (number : Int) :
      { p with lines := p.lines ++ [(t.line, text)] }.Reaches (body ++ [t]) number := by
    refine List.forall_mem_append.mpr ⟨fun u hu hfrom hto => ?_,
      List.forall_mem_singleton.mpr fun _ _ => .inr ⟨(t.line, text), by simp, rfl⟩⟩
    refine (hall number u hu hfrom hto).imp id ?_
    rintro ⟨entry, hentry, hnumber⟩
    exact ⟨entry, List.mem_append_left _ hentry, hnumber⟩
  refine ⟨⟨⟨first, rest ++ [(t.line, text)], by rw [hlines]; rfl, fun hplain => ?_⟩,
    fun entry _ => hreaches entry.1⟩, hreaches⟩
  exact List.forall_mem_append.mpr ⟨hrest hplain, List.forall_mem_singleton.mpr (htext hplain)⟩

/-- A cell that is started has something of the line of its bar. -/
theorem gathered_of_mem_startCells {specs texts : List Text}
    (hp : p ∈ startCells t.line specs texts) (hlt : ∀ u ∈ body, u.line < t.line) :
    p.Gathered (body ++ [t]) ∧ ∀ number, p.Reaches (body ++ [t]) number := by
  obtain ⟨hline, text, hlines⟩ := mem_startCells hp
  have hreaches (number : Int) : p.Reaches (body ++ [t]) number := by
    refine List.forall_mem_append.mpr ⟨fun u hu hfrom _ => ?_,
      List.forall_mem_singleton.mpr fun _ _ => .inr ⟨(t.line, text), by simp [hlines], rfl⟩⟩
    have := hlt u hu
    omega
  exact ⟨⟨⟨text, [], by rw [hlines, hline], fun _ => nofun⟩, fun entry _ => hreaches entry.1⟩,
    hreaches⟩

end PendingCell

/-- What is known of cells: all are gathered, and nothing behind the last is left out that says
something. -/
structure GatheredCells (cells : List PendingCell) (body : List Token) : Prop where
  each : ∀ p ∈ cells, p.Gathered body
  last : ∀ p, cells.getLast? = some p → ∀ number, p.Reaches body number

/-- A line that says nothing may be left out. -/
theorem GatheredCells.skip (h : GatheredCells cells body)
    (hbehind : ∀ p ∈ cells, ∀ entry ∈ p.lines, entry.1 < t.line) (ht : t.isVoid = true) :
    GatheredCells cells (body ++ [t]) :=
  ⟨fun p hp => (h.each p hp).concat (hbehind p hp), fun p hp number =>
    List.forall_mem_append.mpr ⟨h.last p hp number,
      List.forall_mem_singleton.mpr fun _ _ => .inl ht⟩⟩

/-- The last cell may go on. -/
theorem GatheredCells.addToLast {text : Text} (h : GatheredCells cells body)
    (hbehind : ∀ p ∈ cells, ∀ entry ∈ p.lines, entry.1 < t.line)
    (htext : ∀ p, cells.getLast? = some p → p.isAsciidoc = false → text ≠ []) :
    GatheredCells (Table.addToLast (t.line, text) cells) (body ++ [t]) := by
  rcases List.eq_nil_or_concat cells with rfl | ⟨before, p, rfl⟩
  · exact ⟨nofun, nofun⟩
  · rw [List.concat_eq_append] at h hbehind htext ⊢
    have hlast : (before ++ [p]).getLast? = some p := List.getLast?_concat
    obtain ⟨hgathered, hreaches⟩ :
        { p with lines := p.lines ++ [(t.line, text)] }.Gathered (body ++ [t]) ∧
          ∀ number, { p with lines := p.lines ++ [(t.line, text)] }.Reaches (body ++ [t]) number :=
      (h.each p (by simp)).goesOn (h.last p hlast) (htext p hlast)
    rw [addToLast_concat]
    refine ⟨List.forall_mem_append.mpr ⟨fun q hq => ?_, List.forall_mem_singleton.mpr hgathered⟩,
      fun q hq => ?_⟩
    · have hq := List.mem_append_left [p] hq
      exact (h.each q hq).concat (hbehind q hq)
    · rw [List.getLast?_concat] at hq
      obtain rfl := Option.some.inj hq
      exact hreaches

/-- Cells may be started behind others. -/
theorem GatheredCells.start {specs texts : List Text}
    (h : ∀ p ∈ cells, p.Gathered (body ++ [t]))
    (hlast : startCells t.line specs texts = [] → GatheredCells cells (body ++ [t]))
    (hlt : ∀ u ∈ body, u.line < t.line) :
    GatheredCells (cells ++ startCells t.line specs texts) (body ++ [t]) := by
  have hnew (p : PendingCell) (hp : p ∈ startCells t.line specs texts) :=
    PendingCell.gathered_of_mem_startCells hp hlt
  refine ⟨List.forall_mem_append.mpr ⟨h, fun p hp => (hnew p hp).1⟩, fun p hp => ?_⟩
  by_cases hnone : startCells t.line specs texts = []
  · rw [hnone, List.append_nil] at hp
    exact (hlast hnone).last p hp
  · rw [List.getLast?_append_of_ne_nil _ hnone] at hp
    exact (hnew p (List.mem_of_getLast? hp)).2

/-- One more table line keeps what is known of the cells. -/
theorem AddsLine.gathered {after : List PendingCell} (h : AddsLine cells t after)
    (hcells : GatheredCells cells body)
    (hbehind : ∀ p ∈ cells, ∀ entry ∈ p.lines, entry.1 < t.line)
    (hlt : ∀ u ∈ body, u.line < t.line) : GatheredCells after (body ++ [t]) := by
  cases h with
  | nothing hvoid => exact hcells.skip hbehind hvoid
  | empty hvoid hlast hp =>
    refine hcells.addToLast hbehind fun q hq hplain => ?_
    obtain rfl := Option.some.inj (hlast.symm.trans hq)
    rw [hp] at hplain
    cases hplain
  | @starts leading texts htexts hlength hvoid =>
    refine .start (fun p hp => (hcells.each p hp).concat (hbehind p hp)) (fun hnone => ?_) hlt
    refine hcells.skip hbehind (hvoid ?_)
    simpa [startCells, ← hlength] using congrArg List.length hnone
  | continues htexts hlength hne =>
    have hmore := hcells.addToLast hbehind fun _ _ _ => hne
    exact .start hmore.each (fun _ => hmore) hlt

/-- All cells of table lines are gathered from them. -/
theorem cells_gathered (hblank : ∀ t ∈ body, t.kind = .blank → trim t.text = [])
    (hbody : body.Pairwise fun t u => t.line < u.line) :
    GatheredCells (Table.cells body) body := by
  induction body using List.reverseRecOn with
  | nil => exact ⟨nofun, nofun⟩
  | append_singleton done t ih =>
    obtain ⟨hdone, -, hlt⟩ := List.pairwise_append.mp hbody
    have hlt : ∀ u ∈ done, u.line < t.line := fun u hu => hlt u hu t (List.mem_singleton_self t)
    rw [cells_concat]
    refine (addLine_adds (Table.cells done) (hblank t (by simp))).gathered
      (ih (fun u hu => hblank u (List.mem_append_left _ hu)) hdone)
      (fun p hp entry hentry => ?_) hlt
    obtain ⟨⟨u, hu, hline⟩, -⟩ := ((cells_numbered hdone).each p hp).lines entry hentry
    rw [← hline]
    exact hlt u hu

end Table

end Asciidoc
