import Asciidoc.Proofs.Table.Specifiers
import Asciidoc.Proofs.Text.Pieces

/-!
# Cells are pieces of the lines of their table

The bars of a table line cut it into pieces, and a piece is cut once more where the specifier of
the cell after it begins. Nothing else is done to the lines, so that the specifier and the lines
of every cell are found in the lines of the table (`cells_from`), and so are all runs of digits
that are read as numbers of columns.
-/

namespace Asciidoc.Table

open Text

variable {t whole spec text cols : Text}

/-! ## Pieces of a line -/

/-- The piece before a bar begins with the text that belongs to the cell before, and has the
specifier of the cell after in it. -/
theorem Piece.ofText_pieces (first : Bool) (t : Text) :
    (Piece.ofText first t).text <+: t ∧ (Piece.ofText first t).spec <:+: t := by
  obtain ⟨-, feed, -, hwhole⟩ := Piece.ofText_sound first t
  exact ⟨⟨_, (List.append_assoc _ _ _).symm.trans hwhole⟩, ⟨_, feed, hwhole⟩⟩

/-- The texts and the specifiers of a line are in the line. -/
theorem Line.ofText_isInfix (t : Text) :
    (∀ x ∈ (Line.ofText t).texts, x <:+: t) ∧ ∀ x ∈ (Line.ofText t).specs, x <:+: t := by
  have hpieces (first : Bool) (pieces : List Text) (h : ∀ x ∈ pieces, x <:+: t) :
      (∀ x ∈ (Line.ofPieces first pieces).texts, x <:+: t) ∧
        ∀ x ∈ (Line.ofPieces first pieces).specs, x <:+: t := by
    induction pieces generalizing first with
    | nil => simp [Line.ofPieces, Line.texts, Line.specs]
    | cons piece rest ih =>
      cases rest with
      | nil => simpa [Line.ofPieces, Line.texts, Line.specs] using h
      | cons second others =>
        obtain ⟨hpiece, hrest⟩ := List.forall_mem_cons.mp h
        obtain ⟨htexts, hspecs⟩ := ih false hrest
        obtain ⟨htext, hspec⟩ := Piece.ofText_pieces first piece
        exact ⟨List.forall_mem_cons.mpr ⟨htext.isInfix.trans hpiece, htexts⟩,
          List.forall_mem_cons.mpr ⟨hspec.trans hpiece, hspecs⟩⟩
  refine hpieces true (bars t) fun x hx => ?_
  have hjoin : x <:+: join ['|'] (bars t) := infix_join hx
  rwa [join_bars] at hjoin

/-! ## Cells -/

/-- The specifier and the lines of a cell are in a text. -/
structure PendingCell.IsFrom (p : PendingCell) (whole : Text) : Prop where
  spec : p.spec <:+: whole
  lines : ∀ entry ∈ p.lines, entry.2 <:+: whole

theorem addToLast_from {entry : Int × Text} (hentry : entry.2 <:+: whole)
    {cells : List PendingCell} (h : ∀ p ∈ cells, p.IsFrom whole) :
    ∀ p ∈ addToLast entry cells, p.IsFrom whole := by
  induction cells with
  | nil => exact nofun
  | cons p rest ih =>
    obtain ⟨hp, hrest⟩ := List.forall_mem_cons.mp h
    cases rest with
    | nil =>
      refine List.forall_mem_singleton.mpr ⟨hp.spec, fun other hother => ?_⟩
      rcases List.mem_append.mp hother with hother | hother
      · exact hp.lines other hother
      · obtain rfl := List.mem_singleton.mp hother
        exact hentry
    | cons second others => exact List.forall_mem_cons.mpr ⟨hp, ih hrest⟩

theorem startCells_from {specs texts : List Text} (hspecs : ∀ x ∈ specs, x <:+: whole)
    (htexts : ∀ x ∈ texts, x <:+: whole) (number : Int) :
    ∀ p ∈ startCells number specs texts, p.IsFrom whole := by
  intro p hp
  obtain ⟨⟨spec, text⟩, hpair, rfl⟩ := List.mem_map.mp hp
  obtain ⟨hspec, htext⟩ := List.of_mem_zip hpair
  refine ⟨hspecs spec hspec, List.forall_mem_singleton.mpr ?_⟩
  exact (trim_isInfix text).trans (htexts text htext)

theorem addLine_from {t : Token} (ht : t.text <:+: whole) {cells : List PendingCell}
    (h : ∀ p ∈ cells, p.IsFrom whole) : ∀ p ∈ addLine cells t, p.IsFrom whole := by
  unfold addLine
  split
  · exact h
  · split
    · exact addToLast_from List.nil_infix h
    · exact h
  · obtain ⟨htexts, hspecs⟩ := Line.ofText_isInfix t.text
    dsimp only
    refine List.forall_mem_append.mpr ⟨?_, startCells_from
      (fun x hx => (hspecs x hx).trans ht)
      (fun x hx => (htexts x (List.mem_of_mem_drop hx)).trans ht) t.line⟩
    split
    · exact h
    · refine addToLast_from ((trim_isInfix _).trans ?_) h
      cases hhead : (Line.ofText t.text).texts with
      | nil => exact List.nil_infix
      | cons text rest => exact (htexts text (hhead ▸ List.mem_cons_self)).trans ht

/-- Every cell of a table is from its lines. -/
theorem cells_from {body : List Token} (h : ∀ t ∈ body, t.text <:+: whole) :
    ∀ p ∈ cells body, p.IsFrom whole := by
  have hfold (body : List Token) (before : List PendingCell)
      (hbefore : ∀ p ∈ before, p.IsFrom whole) (h : ∀ t ∈ body, t.text <:+: whole) :
      ∀ p ∈ body.foldl addLine before, p.IsFrom whole := by
    induction body generalizing before with
    | nil => exact hbefore
    | cons t rest ih =>
      obtain ⟨ht, hrest⟩ := List.forall_mem_cons.mp h
      exact ih _ (addLine_from ht hbefore) hrest
  exact hfold body [] nofun h

/-- The lines of a cell without the empty ones at its ends are some of its lines, in order. -/
theorem PendingCell.content_sublist (p : PendingCell) : p.content.Sublist p.lines := by
  have hdrop (entries : List (Int × Text)) :
      (entries.dropWhile (·.2.isEmpty)).Sublist entries := (List.dropWhile_suffix _).sublist
  have hstop := (hdrop (p.lines.dropWhile (·.2.isEmpty)).reverse).reverse
  rw [List.reverse_reverse] at hstop
  exact hstop.trans (hdrop p.lines)

theorem PendingCell.content_subset (p : PendingCell) : p.content ⊆ p.lines :=
  p.content_sublist.subset

/-! ## Rows -/

/-- The rows of a run of cells, and the cells after them, are the cells in order. -/
theorem flatten_rowsFrom {α : Type} (columns : Nat) (begun : List α) (width : Nat)
    (cells : List (Nat × α)) :
    (rowsFrom columns begun width cells).1.flatten ++ (rowsFrom columns begun width cells).2
      = begun ++ cells.map Prod.snd := by
  induction cells generalizing begun width with
  | nil => simp [rowsFrom]
  | cons cell rest ih =>
    obtain ⟨span, cell⟩ := cell
    rw [rowsFrom]
    split
    · have := ih [] 0
      simp only [List.flatten_cons, List.append_assoc, List.map_cons, this]
      simp
    · rw [ih, List.map_cons, List.append_assoc, List.singleton_append]

/-! ## Numbers of columns -/

/-- The digits that say how many columns a cell spans are digits of its specifier. -/
theorem PendingCell.IsFrom.spanDigits {p : PendingCell} (h : p.IsFrom whole) :
    p.spanDigits <:+: whole ∧ p.spanDigits.all Digit.isDigit = true := by
  rw [PendingCell.spanDigits]
  split
  · exact ⟨(List.takeWhile_prefix _).isInfix.trans h.spec, List.all_takeWhile⟩
  · exact ⟨(List.takeWhile_prefix _).isInfix.trans h.spec, List.all_takeWhile⟩
  · exact ⟨List.nil_infix, rfl⟩

theorem multiplier_isInfix (part : Text) :
    multiplier part <:+: part ∧ (multiplier part).all Digit.isDigit = true := by
  rw [multiplier]
  split
  · exact ⟨(List.takeWhile_prefix _).isInfix.trans (trimLeft_isSuffix part).isInfix,
      List.all_takeWhile⟩
  · exact ⟨List.nil_infix, rfl⟩

/-- The runs of digits that are read to count columns are in the column specification or in the
specifiers of cells. -/
theorem columnNumerals_from {pending : List PendingCell} (hcols : cols <:+: whole)
    (h : ∀ p ∈ pending, p.IsFrom whole) :
    ∀ digits ∈ columnNumerals cols pending,
      digits <:+: whole ∧ digits.all Digit.isDigit = true := by
  intro digits hdigits
  unfold columnNumerals at hdigits
  split at hdigits
  · split at hdigits
    · cases hdigits
    · obtain ⟨p, hp, rfl⟩ := List.mem_map.mp hdigits
      exact (h p (List.mem_of_mem_filter hp)).spanDigits
  · obtain ⟨part, hpart, rfl⟩ := List.mem_map.mp hdigits
    obtain ⟨hpiece, hall⟩ := multiplier_isInfix part
    exact ⟨(hpiece.trans (infix_of_mem_split hpart)).trans hcols, hall⟩

end Asciidoc.Table
