import Asciidoc.Proofs.Table.Gathered
import Asciidoc.Proofs.Table.Specifiers
import Mathlib.Data.List.Range

/-!
# Table lines are cut without loss

The cut of a table line is told by the line alone (`Line.IsCutOf`). One piece ends at each bar that
no backslash precedes. The texts and the specifiers with the bars between them are the line; the one
thing that can get lost is a line feed behind a specifier, and a line has none. What is cut off as a
specifier is one, behind a blank or at the start of the line, and every specifier that stands so
before a bar is cut off.

One more line that is no comment and not blank changes the cells before it by its first text at
most, and starts one cell for each of its bars, with the specifiers and the other texts of its cut
(`addLine_lossless`). So the cells of a table are those that the bars of its lines start, in order,
whatever lines go on with them later (`cells_starts`).
-/

namespace Asciidoc

open Text

namespace Table

variable {cells : List PendingCell} {t : Token} {pieces : List Text} {p : Piece}
  {done rest : List Piece} {first : Bool}

/-! ## Bars -/

/-- Whether there is a bar at an offset of a text, and no backslash just before it. -/
def barAt (t : Text) (offset : Nat) : Bool :=
  t[offset]? = some '|' && (offset = 0 || t[offset - 1]? ≠ some '\\')

/-- The number of bars of a text that no backslash precedes. -/
def barCount (t : Text) : Nat := (List.range t.length).countP (barAt t)

/-- What is just before an offset is the last of what comes before. -/
theorem barAt_append (before : Text) (c : Char) (rest : Text) :
    barAt (before ++ c :: rest) before.length = (c = '|' && !before.getLast? = some '\\') := by
  rcases List.eq_nil_or_concat before with rfl | ⟨start, d, rfl⟩
  · simp [barAt]
  · simp [barAt]

/-- Behind some text, there is one piece more than there are bars. -/
theorem length_barsFrom (before rest : Text) :
    (barsFrom (before.getLast? = some '\\') rest).length
      = (List.range rest.length).countP (fun i => barAt (before ++ rest) (before.length + i))
        + 1 := by
  induction rest generalizing before with
  | nil => rfl
  | cons c rest ih =>
    have hrest := ih (before ++ [c])
    rw [List.getLast?_concat, List.append_assoc, List.singleton_append] at hrest
    have hhead : barAt (before ++ c :: rest) (before.length + 0)
        = (c = '|' && !before.getLast? = some '\\') := barAt_append before c rest
    have htail : (fun i => barAt (before ++ c :: rest) (before.length + i)) ∘ Nat.succ
        = fun i => barAt (before ++ c :: rest) ((before ++ [c]).length + i) := by
      funext i
      simp only [Function.comp_apply, List.length_append, List.length_singleton,
        Nat.succ_eq_add_one, Nat.add_assoc, Nat.add_comm 1]
    rw [List.length_cons, List.range_succ_eq_map, List.countP_cons, List.countP_map, hhead, htail,
      Nat.add_right_comm, ← hrest, barsFrom]
    split
    next hbar =>
      obtain ⟨hc, -⟩ := Bool.and_eq_true_iff.mp hbar
      obtain rfl := of_decide_eq_true hc
      rfl
    next hbar =>
      cases hpieces : barsFrom (c = '\\') rest with
      | nil => exact absurd hpieces (barsFrom_ne_nil _ _)
      | cons piece pieces => simp [hpieces]

theorem length_bars (t : Text) : (bars t).length = barCount t + 1 := by
  have h := length_barsFrom [] t
  simpa [bars, barCount] using h

/-! ## The cut of a line -/

/-- Pieces written out, each with its specifier and the bar that ends it. -/
def written (pieces : List Piece) : Text := pieces.flatMap fun p => p.text ++ p.spec ++ ['|']

/-- A line written out: its texts and specifiers with the bars between them. -/
def Line.written (line : Line) : Text := Table.written line.pieces ++ line.last

/-- A line is the cut of a text. -/
structure Line.IsCutOf (line : Line) (t : Text) : Prop where
  /-- It has a specifier for each bar that no backslash precedes. -/
  bars : line.specs.length = barCount t
  /-- It has a text before each bar and one after the last. -/
  texts : line.texts.length = line.specs.length + 1
  /-- Written out, it is the text. -/
  written : '\n' ∉ t → line.written = t
  /-- A specifier that is not empty is one, and stands in the line behind a blank or, the first of
  them, at the start. -/
  specifier : ∀ done p rest, line.pieces = done ++ p :: rest → p.spec ≠ [] →
    p.spec ∈ specifiers ∧ (EndsBlank (Table.written done ++ p.text) ∨ done = [] ∧ p.text = [])
  /-- What stands so before a bar and is a specifier is the one that is cut off. -/
  taken : ∀ done p rest, line.pieces = done ++ p :: rest → ∀ before spec,
    before ++ spec = p.text ++ p.spec → spec ≠ [] → spec ∈ specifiers →
    (EndsBlank (Table.written done ++ before) ∨ done = [] ∧ before = []) → p.spec = spec

/-- The pieces of a line are cut each on its own; the first of them is the first of the line. -/
theorem Line.eq_ofText_of_ofPieces (h : (Line.ofPieces first pieces).pieces = done ++ p :: rest) :
    ∃ piece, p = Piece.ofText (first && done.isEmpty) piece := by
  induction pieces generalizing first done with
  | nil => simp [ofPieces] at h
  | cons piece others ih =>
    cases others with
    | nil => simp [ofPieces] at h
    | cons second others =>
      cases done with
      | nil =>
        obtain ⟨rfl, -⟩ := List.cons.inj h
        exact ⟨piece, by simp⟩
      | cons q done =>
        obtain ⟨-, hrest⟩ := List.cons.inj h
        simpa using ih hrest

/-- Pieces without line feeds are written out as they were. -/
theorem Line.written_ofPieces (hne : pieces ≠ []) (h : ∀ piece ∈ pieces, '\n' ∉ piece) :
    (Line.ofPieces first pieces).written = join ['|'] pieces := by
  induction pieces generalizing first with
  | nil => exact absurd rfl hne
  | cons piece others ih =>
    obtain ⟨hpiece, hothers⟩ := List.forall_mem_cons.mp h
    cases others with
    | nil => simp [ofPieces, written, Table.written, join, List.intercalate]
    | cons second others =>
      obtain ⟨-, feed, hfeed, hsplit⟩ := Piece.ofText_sound first piece
      obtain rfl : feed = [] := (mem_feeds.mp hfeed).resolve_right fun hfeed =>
        hpiece (by rw [← hsplit, hfeed]; simp)
      rw [List.append_nil] at hsplit
      have hcons : (Line.ofPieces first (piece :: second :: others)).written
          = (Piece.ofText first piece).text ++ (Piece.ofText first piece).spec ++ ['|']
            ++ (Line.ofPieces false (second :: others)).written := by
        simp [ofPieces, written, Table.written]
      have hjoin : join ['|'] (piece :: second :: others)
          = piece ++ ['|'] ++ join ['|'] (second :: others) := by
        simp [join, List.intercalate, List.intersperse]
      rw [hcons, hjoin, hsplit, ih (List.cons_ne_nil _ _) hothers]

/-- Where a specifier may stand in a line is told by its piece and whether that is the first: a bar
is no blank. -/
theorem endsBlank_written (done : List Piece) (before : Text) :
    EndsBlank (written done ++ before) ∨ done = [] ∧ before = [] ↔
      Admits done.isEmpty before := by
  rw [Admits, List.isEmpty_iff]
  refine or_congr_left' fun hstart => ?_
  rcases List.eq_nil_or_concat before with rfl | ⟨start, c, rfl⟩
  · rcases List.eq_nil_or_concat done with rfl | ⟨more, p, rfl⟩
    · exact absurd ⟨rfl, rfl⟩ hstart
    · have hbar : isBlank '|' = false := by decide
      simp [EndsBlank, written, hbar]
  · simp [EndsBlank]

/-- Table lines are cut without loss. -/
theorem Line.isCutOf_ofText (t : Text) : (Line.ofText t).IsCutOf t := by
  have hpiece {done rest : List Piece} {p : Piece}
      (h : (Line.ofText t).pieces = done ++ p :: rest) :
      ∃ piece, p = Piece.ofText done.isEmpty piece :=
    Line.eq_ofText_of_ofPieces h
  refine ⟨?_, (Line.ofText t).length_texts, fun hline => ?_, fun done p rest h hne => ?_,
    fun done p rest h before spec hsplit hne hspec hbefore => ?_⟩
  · have hlength := Line.length_ofPieces true (barsFrom_ne_nil false t)
    exact Nat.succ.inj ((Line.length_texts _).symm.trans (hlength.trans (length_bars t)))
  · have hpieces : ∀ piece ∈ bars t, '\n' ∉ piece := fun piece hpiece hmem => by
      have hwithin : piece <:+: join ['|'] (bars t) := infix_join hpiece
      rw [join_bars] at hwithin
      exact hline (hwithin.subset hmem)
    have hne : bars t ≠ [] := barsFrom_ne_nil false t
    rw [ofText, written_ofPieces hne hpieces, join_bars]
  · obtain ⟨piece, rfl⟩ := hpiece h
    obtain ⟨hspec, hadmits⟩ := (Piece.ofText_sound _ piece).1 hne
    exact ⟨hspec, (endsBlank_written done _).mpr hadmits⟩
  · obtain ⟨piece, rfl⟩ := hpiece h
    obtain ⟨-, feed, hfeed, hwhole⟩ := Piece.ofText_sound done.isEmpty piece
    rw [← hsplit, List.append_assoc] at hwhole
    rw [← hwhole, Piece.ofText_append ((endsBlank_written done _).mp hbefore) hspec hne hfeed]

/-! ## The cells -/

/-- Some cells, of which the last has a line more. -/
def GoesOn (entry : Int × Text) (cells after : List PendingCell) : Prop :=
  ∃ before p, cells = before ++ [p] ∧ after = before ++ [{ p with lines := p.lines ++ [entry] }]

theorem goesOn_addToLast (entry : Int × Text) (hne : cells ≠ []) :
    GoesOn entry cells (addToLast entry cells) := by
  rcases List.eq_nil_or_concat cells with rfl | ⟨before, p, rfl⟩
  · exact absurd rfl hne
  · exact ⟨before, p, List.concat_eq_append, by rw [List.concat_eq_append, addToLast_concat]⟩

/-- Cells of which one has a line more are others. -/
theorem GoesOn.ne {entry : Int × Text} {after : List PendingCell} (h : GoesOn entry cells after) :
    after ≠ cells := by
  obtain ⟨before, p, rfl, rfl⟩ := h
  intro hsame
  have hcell := List.singleton_inj.mp (List.append_cancel_left hsame)
  simpa using congrArg (·.lines) hcell

/-- What a cell is started with: the number of a line and a specifier. -/
def PendingCell.start (p : PendingCell) : Int × Text := (p.line, p.spec)

theorem map_start_startCells {number : Int} {specs texts : List Text}
    (h : texts.length = specs.length) :
    (startCells number specs texts).map PendingCell.start = specs.map (number, ·) := by
  have hspecs : (specs.zip texts).map Prod.fst = specs := List.map_fst_zip (Nat.le_of_eq h.symm)
  conv_rhs => rw [← hspecs]
  rw [startCells, List.map_map, List.map_map]
  rfl

/-- The last of the cells before a line goes on exactly if there is one and the line has something
before its first bar. -/
theorem goesOn_keep_iff (number : Int) (leading : Text) (cells : List PendingCell) :
    GoesOn (number, trim leading) cells (keep number leading cells) ↔
      allBlank leading = false ∧ cells ≠ [] := by
  rw [← Bool.not_eq_true, ← trim_eq_nil_iff, keep]
  split
  next hnil => exact ⟨fun h => absurd rfl h.ne, fun h => absurd (List.isEmpty_iff.mp hnil) h.1⟩
  next hne =>
    refine ⟨fun h => ⟨fun hnil => hne (List.isEmpty_iff.mpr hnil), ?_⟩,
      fun h => goesOn_addToLast _ h.2⟩
    rintro rfl
    exact h.ne rfl

/-- Nothing else happens to them. -/
theorem keep_eq_or_goesOn (number : Int) (leading : Text) (cells : List PendingCell) :
    keep number leading cells = cells ∨
      GoesOn (number, trim leading) cells (keep number leading cells) := by
  rw [keep]
  split
  · exact .inl rfl
  · by_cases hcells : cells = []
    · subst hcells
      exact .inl rfl
    · exact .inr (goesOn_addToLast _ hcells)

theorem addLine_of_texts {leading : Text} {texts : List Text} (hblank : t.kind ≠ .blank)
    (hcomment : t.kind ≠ .comment) (h : (Line.ofText t.text).texts = leading :: texts) :
    addLine cells t = keep t.line leading cells
      ++ startCells t.line (Line.ofText t.text).specs texts := by
  rw [addLine_of_line cells hblank hcomment, h]
  rfl

/-- A table line that is no comment and not blank is cut without loss. The cells before it stay as
they are, but that the last, if there is one, goes on with the first text of the line unless that is
blank. Behind them each bar of the line that no backslash precedes starts a cell, which has the
specifier before the bar and as its only line the text behind it, trimmed. -/
theorem addLine_lossless (cells : List PendingCell) (hblank : t.kind ≠ .blank)
    (hcomment : t.kind ≠ .comment) :
    (Line.ofText t.text).IsCutOf t.text ∧
    ∃ leading texts kept started, (Line.ofText t.text).texts = leading :: texts ∧
      addLine cells t = kept ++ started ∧
      (GoesOn (t.line, trim leading) cells kept ↔ allBlank leading = false ∧ cells ≠ []) ∧
      (kept = cells ∨ GoesOn (t.line, trim leading) cells kept) ∧
      started.length = barCount t.text ∧
      started.map PendingCell.start = (Line.ofText t.text).specs.map (t.line, ·) ∧
      started.map (·.lines) = texts.map fun text => [(t.line, trim text)] := by
  have hcut := Line.isCutOf_ofText t.text
  obtain ⟨leading, texts, htexts, hlength, -⟩ := Line.exists_texts t.text
  have hstarts : (startCells t.line (Line.ofText t.text).specs texts).map PendingCell.start
      = (Line.ofText t.text).specs.map (t.line, ·) := map_start_startCells hlength
  have hbars := congrArg List.length hstarts
  rw [List.length_map, List.length_map, hcut.bars] at hbars
  exact ⟨hcut, leading, texts, _, _, htexts, addLine_of_texts hblank hcomment htexts,
    goesOn_keep_iff t.line leading cells, keep_eq_or_goesOn t.line leading cells, hbars,
    hstarts, map_lines_startCells hlength⟩

/-- A line that goes on with the cell before it, and in which a backslash precedes the second of
three bars. -/
theorem addLine_lossless_escaped :
    let t := Token.ofLine Marker.slashes 3 "x 2+|a \\| b m|c".toList
    let cells : List PendingCell := [⟨2, [], [(2, "y".toList)]⟩]
    t.kind ≠ .blank ∧ t.kind ≠ .comment ∧ '\n' ∉ t.text ∧
      (Line.ofText t.text).texts = ["x ".toList, "a \\| b ".toList, "c".toList] ∧
      (Line.ofText t.text).specs = ["2+".toList, "m".toList] ∧
      (Line.ofText t.text).written = t.text ∧ barCount t.text = 2 ∧ "2+".toList ∈ specifiers ∧
      ∃ kept started, addLine cells t = kept ++ started ∧ GoesOn (3, "x".toList) cells kept ∧
        started.map PendingCell.start = [(3, "2+".toList), (3, "m".toList)] ∧
        started.map (·.lines) = [[(3, "a \\| b".toList)], [(3, "c".toList)]] := by
  intro t cells
  have hblank : t.kind ≠ .blank := by decide
  have hcomment : t.kind ≠ .comment := by decide
  have hfeed : '\n' ∉ t.text := by decide
  have hline : Line.ofText t.text
      = ⟨[⟨"x ".toList, "2+".toList⟩, ⟨"a \\| b ".toList, "m".toList⟩], "c".toList⟩ := by decide
  obtain ⟨hcut, leading, texts, kept, started, htexts, hadd, hkept, -, -, hstarts, hlines⟩ :=
    addLine_lossless cells hblank hcomment
  have hwritten := hcut.written hfeed
  have hbars := hcut.bars
  rw [hline] at hcut htexts hstarts hwritten hbars ⊢
  obtain ⟨rfl, rfl⟩ := List.cons.inj htexts
  obtain ⟨hspec, -⟩ := hcut.specifier [] _ _ rfl (List.cons_ne_nil _ _)
  exact ⟨hblank, hcomment, hfeed, rfl, rfl, hwritten, hbars.symm, hspec, kept, started, hadd,
    hkept.mpr ⟨rfl, List.cons_ne_nil _ _⟩, hstarts, hlines⟩

/-! ## All lines -/

theorem map_start_addToLast (entry : Int × Text) (cells : List PendingCell) :
    (addToLast entry cells).map PendingCell.start = cells.map PendingCell.start := by
  rcases List.eq_nil_or_concat cells with rfl | ⟨before, p, rfl⟩
  · rfl
  · rw [List.concat_eq_append, addToLast_concat, List.map_append, List.map_append]
    rfl

theorem map_start_keep (number : Int) (leading : Text) (cells : List PendingCell) :
    (keep number leading cells).map PendingCell.start = cells.map PendingCell.start := by
  rw [keep]
  split
  · rfl
  · exact map_start_addToLast _ cells

/-- What the cells of a table line are started with. -/
def starts (t : Token) : List (Int × Text) :=
  if t.isSkipped then [] else (Line.ofText t.text).specs.map (t.line, ·)

theorem map_start_addLine (cells : List PendingCell) (t : Token) :
    (addLine cells t).map PendingCell.start = cells.map PendingCell.start ++ starts t := by
  by_cases hcomment : t.kind = .comment
  · simp [addLine, starts, Token.isSkipped, hcomment]
  by_cases hblank : t.kind = .blank
  · have hnone : starts t = [] := by simp [starts, Token.isSkipped, hblank]
    rw [addLine, hblank, hnone, List.append_nil]
    dsimp only
    split
    · exact map_start_addToLast _ cells
    · rfl
  · obtain ⟨leading, texts, htexts, hlength, -⟩ := Line.exists_texts t.text
    have hread : t.isSkipped = false := by simp [Token.isSkipped, hblank, hcomment]
    rw [addLine_of_texts hblank hcomment htexts, List.map_append, map_start_keep,
      map_start_startCells hlength, starts, hread]
    rfl

/-- The cells of a table are those that the bars of its lines start, in order: each keeps the line
and the specifier it is started with, whatever lines go on with it. -/
theorem cells_starts (body : List Token) :
    (Table.cells body).map PendingCell.start = body.flatMap starts := by
  induction body using List.reverseRecOn with
  | nil => rfl
  | append_singleton done t ih =>
    rw [cells_concat, map_start_addLine, ih, List.flatMap_append, List.flatMap_singleton]

end Table

end Asciidoc
