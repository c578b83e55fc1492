import Asciidoc.Proofs.Span.Search

/-!
# The line on which an answer begins

A search that steps over comments begins its answer on the first line of its window from which on
the expected lines stand one after the other. `Source.BeginsAt` says that they stand so from a line
on, the first of them at or behind a column. Where the lines between the first of the window and
some other cannot hold the first expected line, the answer begins on that other line exactly if the
expected lines stand from there on, and not from the first line of the window on
(`find?_begins_iff`).
-/

namespace Asciidoc

open Text

namespace Source

/-- Pieces stand one after the other, but for comments, from a line on, and the first of them at or
behind a column. -/
structure BeginsAt (s : Source) (marker : Text) (pieces : List Text) (column number : Int) :
    Prop where
  /-- They are taken from the line on. -/
  takes : ∃ last, s.Takes marker number pieces last
  /-- The first stands in it, from the column on. -/
  first : ∃ (piece line : Text) (k : Nat), pieces.head? = some piece ∧
    s.line? number = some line ∧ column ≤ k ∧ piece.OccursAt line k

variable {s : Source} {marker : Text} {pieces : List Text} {w : Window} {number : Int}

/-- The lines that pieces are held against are those that they are taken from. -/
theorem linesFor_eq_taken (hskip : w.skipComments = true) (hnumber : 1 ≤ number) :
    s.linesFor marker pieces w number = s.taken marker number pieces.length := by
  rw [linesFor, linesFrom_eq hnumber, Window.kept_of_skip hskip, taken]

/-- A line that pieces are taken from is a line from the first on that is no comment. -/
theorem mem_numbered_of_mem_taken (hnumber : 1 ≤ number) {entry : Int × Text} {count : Nat}
    (h : entry ∈ s.taken marker number count) :
    entry ∈ s.numbered ∧ isKept marker entry = true ∧ number ≤ entry.1 := by
  obtain ⟨hmem, hkept⟩ := List.mem_filter.mp (List.mem_of_mem_take h)
  exact ⟨List.mem_of_mem_drop hmem, hkept, (consecutive_numbered_drop s hnumber).le_of_mem hmem⟩

/-- Lines that are no comments are taken from the lines behind them as from those before. -/
theorem taken_eq_of_head {line other : Int} {count : Nat} {entry : Int × Text} (hline : 1 ≤ line)
    (hhead : (s.taken marker line count).head? = some entry) (hle : line ≤ other)
    (hother : other ≤ entry.1) : s.taken marker other count = s.taken marker line count := by
  -- No line before the first that is taken is one that could be taken.
  have hsplit : s.numbered.drop (line - 1).toNat
      = (s.numbered.drop (line - 1).toNat).take (other - line).toNat
        ++ s.numbered.drop (other - 1).toNat := by
    have hdrop : (other - 1).toNat = (line - 1).toNat + (other - line).toNat := by omega
    rw [hdrop, ← List.drop_drop, List.take_append_drop]
  have hnone : ((s.numbered.drop (line - 1).toNat).take (other - line).toNat).filter
      (isKept marker) = [] := by
    rw [List.filter_eq_nil_iff]
    intro before hbefore hkept
    have hgrowing := s.numbers_numbered.growing.sublist (List.drop_sublist (line - 1).toNat _)
    have hnumber : before.1 < other := by
      obtain ⟨index, hindex⟩ := List.mem_iff_getElem?.mp hbefore
      have hbound := (List.getElem?_eq_some_iff.mp hindex).1
      rw [List.length_take] at hbound
      rw [List.getElem?_take_of_lt (by omega)] at hindex
      have := consecutive_numbered_drop s hline index before hindex
      omega
    rw [taken] at hhead
    have hcount : count ≠ 0 := by
      rintro rfl
      rw [List.take_zero] at hhead
      cases hhead
    rw [List.head?_take, if_neg hcount] at hhead
    have hmem : before ∈ (s.numbered.drop (line - 1).toNat).filter (isKept marker) :=
      List.mem_filter.mpr ⟨List.mem_of_mem_take hbefore, hkept⟩
    obtain ⟨rest, hrest⟩ := List.head?_eq_some_iff.mp hhead
    have hpairwise := hgrowing.sublist (List.filter_sublist (p := isKept marker))
    rw [hrest] at hmem hpairwise
    rcases List.mem_cons.mp hmem with rfl | hmem
    · omega
    · have := (List.pairwise_cons.mp hpairwise).1 before hmem
      omega
  rw [taken, taken]
  conv_rhs => rw [hsplit, List.filter_append, hnone, List.nil_append]

/-- Pieces begin at a line if they match there and that line is the first that is held against
them. -/
theorem beginsAt_iff (hskip : w.skipComments = true) (hnumber : 1 ≤ number) :
    s.BeginsAt marker pieces w.startColumn number ↔
      s.Matches marker pieces w number ∧
        (s.taken marker number pieces.length).head?.map Prod.fst = some number := by
  have hlines : s.linesFor marker pieces w number = s.taken marker number pieces.length :=
    linesFor_eq_taken hskip hnumber
  constructor
  · rintro ⟨⟨last, htakes⟩, piece, line, k, hpiece, hline, hcolumn, hoccurs⟩
    refine ⟨⟨?_, ?_, ?_⟩, htakes.first⟩
    · rw [hlines]
      exact htakes.inLines.length_eq.symm
    · obtain ⟨entry, hentry, hentryNumber⟩ := Option.map_eq_some_iff.mp htakes.first
      obtain ⟨hmem, -⟩ := mem_numbered_of_mem_taken hnumber (List.mem_of_head? hentry)
      have hsame := s.numbers_numbered.line?_eq hmem
      rw [hentryNumber, hline] at hsame
      obtain rfl := Option.some.inj hsame
      exact ⟨piece, entry, k, hpiece, by rw [hlines, hentry], hcolumn, hoccurs⟩
    · rw [hlines]
      have htail := List.forall₂_drop 1 htakes.inLines
      rw [List.drop_one, List.drop_one] at htail
      exact htail.imp fun piece entry hwithin => occursAt_iff_infix.mpr hwithin
  · rintro ⟨⟨hlength, ⟨piece, entry, k, hpiece, hentry, hcolumn, hoccurs⟩, hothers⟩, hfirst⟩
    rw [hlines] at hlength hentry hothers
    rw [hentry] at hfirst
    obtain rfl : entry.1 = number := Option.some.inj hfirst
    obtain ⟨others, rfl⟩ := List.head?_eq_some_iff.mp hpiece
    obtain ⟨rest, hrest⟩ := List.head?_eq_some_iff.mp hentry
    have hne : s.taken marker entry.1 (piece :: others).length ≠ [] := by
      rw [hrest]
      exact List.cons_ne_nil _ _
    refine ⟨⟨_, by rw [hentry]; rfl, ?_, by rw [List.getLast?_eq_some_getLast hne]; rfl⟩, piece,
      entry.2, k, rfl, ?_, hcolumn, hoccurs⟩
    · have hwithin := occursAt_iff_infix.mp ⟨k, hoccurs⟩
      rw [hrest] at hothers ⊢
      exact .cons hwithin (hothers.imp fun piece entry hoccurs => occursAt_iff_infix.mp hoccurs)
    · exact s.numbers_numbered.line?_eq
        (mem_numbered_of_mem_taken hnumber (List.mem_of_head? hentry)).1

/-- Pieces that begin at the first line of a window are found there. -/
theorem find?_of_beginsAt (hskip : w.skipComments = true) (hcolumn : 0 ≤ w.startColumn)
    (hline : 1 ≤ w.minLine) (h : s.BeginsAt marker pieces w.startColumn w.minLine)
    (hmax : w.minLine + pieces.length ≤ w.maxLine + 1) :
    ∃ l, s.find? marker pieces w = some l ∧ s.RunsFrom marker pieces w w.minLine l := by
  obtain ⟨last, htakes⟩ := h.takes
  have hbounds := htakes.bounds
  obtain ⟨hmatches, -⟩ := (beginsAt_iff hskip hline).mp h
  refine exists_find?_of_isLeast hcolumn ⟨⟨⟨?_, ?_⟩, hmatches⟩, fun n hn => ?_⟩
  · omega
  · omega
  · exact Int.le_trans (Int.le_max_left _ _) hn.1.1

/-- The line on which pieces begin is no comment, and holds the first of them. -/
theorem BeginsAt.exists_entry {column : Int} (h : s.BeginsAt marker pieces column number)
    (hnumber : 1 ≤ number) : ∃ piece entry, pieces.head? = some piece ∧ entry ∈ s.numbered ∧
      entry.1 = number ∧ isKept marker entry = true ∧ piece <:+: entry.2 := by
  obtain ⟨⟨last, htakes⟩, piece, line, k, hpiece, hline, -, hoccurs⟩ := h
  obtain ⟨entry, hentry, hsame⟩ := Option.map_eq_some_iff.mp htakes.first
  obtain ⟨hmem, hkept, -⟩ := mem_numbered_of_mem_taken hnumber (List.mem_of_head? hentry)
  rw [← hsame, s.numbers_numbered.line?_eq hmem] at hline
  obtain rfl := Option.some.inj hline
  exact ⟨piece, entry, hpiece, hmem, hsame, hkept, occursAt_iff_infix.mp ⟨k, hoccurs⟩⟩

/-- What is found begins on a line of the window. -/
theorem beginsAt_of_find? (hskip : w.skipComments = true) (hcolumn : 0 ≤ w.startColumn)
    {l : Location} (h : s.find? marker pieces w = some l) :
    w.minLine ≤ l.start.line ∧ s.BeginsAt marker pieces w.startColumn l.start.line := by
  cases pieces with
  | nil => cases h
  | cons first others =>
    have hlines (n : Int) (hn : 1 ≤ n) : s.linesFor marker (first :: others) w n
        = s.taken marker n (first :: others).length := linesFor_eq_taken hskip hn
    obtain ⟨n, hoffers, hmatch, -⟩ := find?_eq_some_iff.mp h
    have hpos : 1 ≤ n := Int.le_trans (Int.le_max_right _ _) hoffers.1
    obtain ⟨hmatches, hruns⟩ := runsFrom_of_match? hcolumn hpos hmatch
    obtain ⟨_, entry, _, -, hentry, -, hstart⟩ := hruns.start
    rw [hlines n hpos] at hentry
    obtain ⟨-, -, hle⟩ := mem_numbered_of_mem_taken hpos (List.mem_of_head? hentry)
    have hsame := taken_eq_of_head hpos hentry hle (Int.le_refl _)
    have hfor : s.linesFor marker (first :: others) w entry.1
        = s.linesFor marker (first :: others) w n := by
      rw [hlines _ (Int.le_trans hpos hle), hsame, hlines n hpos]
    rw [hstart]
    refine ⟨Int.le_trans (Int.le_trans (Int.le_max_left _ _) hoffers.1) hle,
      (beginsAt_iff hskip (Int.le_trans hpos hle)).mpr ⟨?_, by rw [hsame, hentry]; rfl⟩⟩
    obtain ⟨hlength, hfirst, hothers⟩ := hmatches
    rw [← hfor] at hlength hfirst hothers
    exact ⟨hlength, hfirst, hothers⟩

/-- Where pieces begin in a window, they are found on that line or before. -/
theorem exists_find?_le (hskip : w.skipComments = true) (hcolumn : 0 ≤ w.startColumn)
    (hnumber : 1 ≤ number) (hmin : w.minLine ≤ number)
    (hmax : number + pieces.length ≤ w.maxLine + 1)
    (h : s.BeginsAt marker pieces w.startColumn number) :
    ∃ l, s.find? marker pieces w = some l ∧ l.start.line ≤ number := by
  obtain ⟨last, htakes⟩ := h.takes
  have hbounds := htakes.bounds
  obtain ⟨first, others, rfl⟩ := List.exists_cons_of_ne_nil htakes.pieces_ne_nil
  obtain ⟨hmatches, hhead⟩ := (beginsAt_iff hskip hnumber).mp h
  have hoffered : s.Offers (first :: others) w number := ⟨by omega, by omega⟩
  obtain ⟨l, hl⟩ := (exists_find?_iff hcolumn).mpr
    ⟨List.cons_ne_nil _ _, number, hoffered, hmatches⟩
  refine ⟨l, hl, ?_⟩
  obtain ⟨n, hoffers, hmatch, hearlier⟩ := find?_eq_some_iff.mp hl
  have hpos : 1 ≤ n := Int.le_trans (Int.le_max_right _ _) hoffers.1
  have hle : n ≤ number := by
    by_contra hlt
    obtain ⟨found, hfound⟩ := hmatches.exists_match? hcolumn hnumber
    rw [hearlier number hoffered (by omega)] at hfound
    cases hfound
  obtain ⟨-, hruns⟩ := runsFrom_of_match? hcolumn hpos hmatch
  obtain ⟨_, entry, _, -, hentry, -, hstart⟩ := hruns.start
  rw [linesFor_eq_taken hskip hpos] at hentry
  rw [hstart]
  by_contra hbehind
  -- The lines from the number on are those that the answer was held against.
  rw [taken_eq_of_head hpos hentry hle (by dsimp only at hbehind; omega), hentry] at hhead
  exact hbehind (Int.le_of_eq (Option.some.inj hhead))

/-- Where no line between the first of a window and another can hold the first piece, pieces are
found on that other line exactly if they begin there, and not at the first line of the window. -/
theorem find?_begins_iff (hskip : w.skipComments = true) (hcolumn : 0 ≤ w.startColumn)
    (hline : 1 ≤ w.minLine) (hnumber : w.minLine ≤ number)
    (hmax : number + pieces.length ≤ w.maxLine + 1)
    (hbetween : ∀ piece, pieces.head? = some piece → ∀ entry ∈ s.numbered, w.minLine < entry.1 →
      entry.1 < number → isKept marker entry = true → ¬piece <:+: entry.2) :
    (∃ l, s.find? marker pieces w = some l ∧ l.start.line = number) ↔
      s.BeginsAt marker pieces w.startColumn number ∧
        (number ≠ w.minLine → ¬s.BeginsAt marker pieces w.startColumn w.minLine) := by
  constructor
  · rintro ⟨l, hl, rfl⟩
    refine ⟨(beginsAt_of_find? hskip hcolumn hl).2, fun hne hearly => ?_⟩
    obtain ⟨l', hl', hle⟩ :=
      exists_find?_le hskip hcolumn hline (Int.le_refl _) (by omega) hearly
    obtain rfl := Option.some.inj (hl.symm.trans hl')
    exact hne (Int.le_antisymm hle hnumber)
  · rintro ⟨hbegins, hnot⟩
    obtain ⟨l, hl, hle⟩ :=
      exists_find?_le hskip hcolumn (Int.le_trans hline hnumber) hnumber hmax hbegins
    refine ⟨l, hl, Int.le_antisymm hle ?_⟩
    by_contra hlt
    -- An answer before the number begins on the first line of the window, or on one in between.
    obtain ⟨hmin, hthere⟩ := beginsAt_of_find? hskip hcolumn hl
    rcases Int.lt_or_eq_of_le hmin with hbehind | hsame
    · obtain ⟨piece, entry, hpiece, hentry, hsame, hkept, hwithin⟩ :=
        hthere.exists_entry (Int.le_trans hline hmin)
      exact hbetween piece hpiece entry hentry (by omega) (by omega) hkept hwithin
    · exact hnot (by omega) (hsame ▸ hthere)

/-- A single line is found on one line, at or behind the column of the window unless it looks like a
comment. -/
theorem find?_single (hcolumn : 0 ≤ w.startColumn) {piece : Text} {l : Location}
    (h : s.find? marker [piece] w = some l) : l.stop.line = l.start.line ∧
      (¬marker <+: piece → w.startColumn ≤ l.start.column) := by
  obtain ⟨n, hoffers, hmatch, -⟩ := find?_eq_some_iff.mp h
  obtain ⟨⟨hlength, -, -⟩, hruns⟩ :=
    runsFrom_of_match? hcolumn (Int.le_trans (Int.le_max_right _ _) hoffers.1) hmatch
  obtain ⟨entry, hone⟩ := List.length_eq_one_iff.mp hlength
  obtain ⟨first, _, column, hfirst, hentry, hleast, hstart⟩ := hruns.start
  obtain ⟨_, _, _, -, hlast, -, hstop⟩ := hruns.stop
  rw [hone] at hentry hlast
  obtain rfl := Option.some.inj hfirst
  obtain rfl := Option.some.inj hentry
  obtain rfl := Option.some.inj hlast
  rw [hstart, hstop]
  refine ⟨rfl, fun hmark => ?_⟩
  rw [if_neg hmark]
  exact hleast.1.1

end Source

end Asciidoc
