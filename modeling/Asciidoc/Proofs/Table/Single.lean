import Asciidoc.Proofs.Table.InPlace

/-!
# Cells on a line of their own

A line of a table that says nothing before its first bar, or no more than the specifier of the cell
behind it, adds nothing to the cells before it: it only starts cells (`Token.StartsCells`). If all
lines of a table that are neither blank nor comments are such lines, a cell that holds no document
is what stands behind its bar, on that line and no other (`cells_single`). So it has no gaps, and it
is searched on the line it stands on.
-/

namespace Asciidoc

open Text

/-- A table line that has a bar, and before the first no more than blanks and the specifier of the
cell behind it. -/
def Token.StartsCells (t : Token) : Prop :=
  ∃ first second rest, Table.bars t.text = first :: second :: rest ∧
    Table.isSpec (trimLeft first) = true

namespace Table

variable {cells : List PendingCell} {p : PendingCell} {t : Token} {body : List Token}

/-- A line of a table that is left out or only starts cells. -/
def OnlyStarts (t : Token) : Prop := t.kind = .blank ∨ t.kind = .comment ∨ t.StartsCells

/-! ## One line -/

/-- What is before a specifier at the start of a line is blank. -/
theorem Piece.trim_ofText {first : Text} (h : isSpec (trimLeft first) = true) :
    trim (Piece.ofText true first).text = [] := by
  have hfound : (Piece.ofText true first).text = first.takeWhile isBlank ∨
      (Piece.ofText true first).text = first ∧ specOf (trimLeft first) = [] := by
    rw [Piece.ofText, h]
    rw [if_pos (by rfl)]
    cases specOf (trimLeft first) with
    | nil => exact .inr ⟨rfl, rfl⟩
    | cons c spec => exact .inl rfl
  rcases hfound with htext | ⟨htext, hspec⟩
  · rw [htext, trim_eq_nil_iff]
    exact List.all_takeWhile
  · -- A specifier without a mark is empty, as no line feed is left of the blanks.
    have hnone : trimLeft first = [] := by
      cases hleft : trimLeft first with
      | nil => rfl
      | cons c rest =>
        rw [hleft, specOf] at hspec
        split at hspec
        next hlast =>
          obtain rfl : rest = [] := by simpa using congrArg List.length hspec
          obtain rfl := Option.some.inj hlast
          exact absurd (head?_trimLeft (by rw [hleft]; rfl)) (by decide)
        next => cases hspec
    rw [htext, trim, hnone]
    rfl

/-- Nothing is before the first bar of such a line. -/
theorem trim_leading (h : t.StartsCells) : trim ((Line.ofText t.text).texts.headD []) = [] := by
  obtain ⟨first, second, rest, hbars, hspec⟩ := h
  rw [Line.ofText, hbars]
  exact Piece.trim_ofText hspec

/-- Such a line starts its cells and does nothing else. -/
theorem addLine_of_startsCells (hblank : t.kind ≠ .blank) (hcomment : t.kind ≠ .comment)
    (h : t.StartsCells) : addLine cells t = cells ++
      startCells t.line (Line.ofText t.text).specs ((Line.ofText t.text).texts.drop 1) := by
  rw [addLine_of_line cells hblank hcomment, keep, trim_leading h]
  rfl

/-! ## All lines -/

/-- A cell that starts on a line that starts cells, and has no other line unless it holds a
document. -/
structure PendingCell.IsSingle (p : PendingCell) (body : List Token) : Prop where
  starts : ∃ t ∈ body, t.line = p.line ∧ t.kind ≠ .blank ∧ t.kind ≠ .comment ∧ t.StartsCells
  lines : p.isAsciidoc = false → ∃ text, p.lines = [(p.line, text)]

theorem PendingCell.IsSingle.mono {more : List Token} (h : p.IsSingle body) (hmore : body ⊆ more) :
    p.IsSingle more := by
  obtain ⟨⟨t, ht, hstarts⟩, hlines⟩ := h
  exact ⟨⟨t, hmore ht, hstarts⟩, hlines⟩

/-- The last cell may have a line more if it holds a document. -/
theorem forall_mem_addToLast {entry : Int × Text} (h : ∀ p ∈ cells, p.IsSingle body)
    (hlast : cells.getLast?.elim false (·.isAsciidoc) = true) :
    ∀ p ∈ addToLast entry cells, p.IsSingle body := by
  rcases List.eq_nil_or_concat cells with rfl | ⟨before, p, rfl⟩
  · exact nofun
  · rw [List.concat_eq_append] at h hlast ⊢
    rw [List.getLast?_concat] at hlast
    obtain ⟨hbefore, hp⟩ := List.forall_mem_append.mp h
    obtain ⟨hstarts, -⟩ := List.forall_mem_singleton.mp hp
    rw [addToLast_concat]
    refine List.forall_mem_append.mpr ⟨hbefore, List.forall_mem_singleton.mpr ⟨hstarts, ?_⟩⟩
    intro hplain
    have hholds : p.isAsciidoc = true := hlast
    rw [show p.isAsciidoc = false from hplain] at hholds
    cases hholds

/-- Where no line goes on with a cell, all cells are on the line of their bar. -/
theorem cells_single (h : ∀ t ∈ body, OnlyStarts t) : ∀ p ∈ Table.cells body, p.IsSingle body := by
  induction body using List.reverseRecOn with
  | nil => exact nofun
  | append_singleton done t ih =>
    obtain ⟨hdone, ht⟩ := List.forall_mem_append.mp h
    have hbefore : ∀ p ∈ Table.cells done, p.IsSingle (done ++ [t]) := fun p hp =>
      (ih hdone p hp).mono (List.subset_append_left done [t])
    rw [cells_concat]
    by_cases hcomment : t.kind = .comment
    · rw [addLine, hcomment]
      exact hbefore
    by_cases hblank : t.kind = .blank
    · rw [addLine, hblank]
      dsimp only
      split
      next hlast => exact forall_mem_addToLast hbefore hlast
      next => exact hbefore
    · have hstarts : t.StartsCells := (ht t (List.mem_singleton_self t)).resolve_left hblank
        |>.resolve_left hcomment
      rw [addLine_of_startsCells hblank hcomment hstarts]
      refine List.forall_mem_append.mpr ⟨hbefore, fun p hp => ?_⟩
      obtain ⟨hline, hlines⟩ := mem_startCells hp
      exact ⟨⟨t, by simp, hline.symm, hblank, hcomment, hstarts⟩, fun _ => hline ▸ hlines⟩

/-! ## In a text -/

/-- There is a bar in such a line. -/
theorem bar_mem_text (h : t.StartsCells) : '|' ∈ t.text := by
  obtain ⟨first, second, rest, hbars, -⟩ := h
  rw [← join_bars t.text, hbars]
  simp [join, List.intercalate, List.intersperse]

/-- A line with a bar that is read as no comment is none for the search. -/
theorem isKept_of_bar_mem {marker : Text} (hreturn : '\r' ∉ marker) {entry : Int × Text}
    (hbar : '|' ∈ (Token.ofEntry marker entry).text)
    (hcomment : (Token.ofEntry marker entry).kind ≠ .comment) :
    Source.isKept marker entry = true := by
  have hbar : '|' ∈ dropReturns entry.2 := hbar
  have htrim : '|' ∈ trim (dropReturns entry.2) := mem_trim hbar (by decide)
  have hblank : allBlank (dropReturns entry.2) ≠ true := fun hall => by
    rw [(trim_eq_nil_iff _).mpr hall] at htrim
    cases htrim
  have hdelimiter : Token.isCommentDelimiter (dropReturns entry.2) ≠ true := fun hslashes => by
    rw [Token.isCommentDelimiter, Bool.and_eq_true] at hslashes
    exact absurd (List.all_eq_true.mp hslashes.2 '|' htrim) (by decide)
  rw [Token.kind_ofEntry, Token.classify, if_neg hblank, if_neg hdelimiter] at hcomment
  rw [Source.isKept, ← isPrefixOf_dropReturns hreturn]
  split at hcomment
  · exact absurd rfl hcomment
  · rw [Bool.eq_false_iff.mpr ‹¬marker.isPrefixOf (dropReturns entry.2) = true›]
    rfl

/-- The text of a cell with a single line is that line. -/
theorem PendingCell.text_of_lines {number : Int} {text : Text} (h : p.lines = [(number, text)]) :
    p.text = text := by
  rw [PendingCell.text, content, h]
  cases text with
  | nil => rfl
  | cons c rest => exact unlines_singleton (c :: rest)

/-- It has one line, also if it is empty. -/
theorem PendingCell.InTable.lines_text_single {s : Source} {marker : Text} {opening : Token}
    (hp : p.InTable s marker opening body) {number : Int} {text : Text}
    (h : p.lines = [(number, text)]) : p.text.lines = [p.text] := by
  have htext := PendingCell.text_of_lines h
  cases text with
  | nil =>
    rw [htext]
    rfl
  | cons c rest =>
    have hcontent : p.content = [(number, c :: rest)] := by
      rw [content, h]
      rfl
    rw [hp.lines_text (by simp [hcontent]), hcontent, htext]
    rfl

/-- Such a cell has no gaps. -/
theorem PendingCell.IsSingle.isUnbroken {s : Source} {marker : Text} {opening : Token}
    {after : List Token} (hp : p.IsSingle body) (hreturn : '\r' ∉ marker)
    (h : opening :: (body ++ after) <:+ s.tokens marker) (hplain : p.isAsciidoc = false) :
    p.IsUnbroken s marker := by
  obtain ⟨⟨t, ht, hline, -, hcomment, hstarts⟩, hlines⟩ := hp
  obtain ⟨text, hlines⟩ := hlines hplain
  refine ⟨hplain, ?_, ?_⟩
  · rw [content, hlines]
    cases text with
    | nil => exact .inr rfl
    | cons c rest => exact .inl rfl
  · obtain ⟨before, behind, rfl⟩ := List.append_of_mem ht
    have hunread : t :: (behind ++ after) <:+ s.tokens marker :=
      List.IsSuffix.trans ⟨opening :: before, by simp⟩ h
    have hfrom := Source.eq_map_drop hunread
    rw [← (Source.line_of_suffix hunread).1] at hfrom
    obtain ⟨entry, more, hdrop, rfl, -⟩ := List.map_eq_cons_iff.mp hfrom.symm
    have hkept := isKept_of_bar_mem hreturn (bar_mem_text hstarts) hcomment
    rw [hlines, Source.taken, ← hline, hdrop, List.filter_cons_of_pos hkept]
    rfl

end Table

end Asciidoc
