import Asciidoc.Proofs.Span.Found
import Asciidoc.Proofs.Text.Pieces
import Mathlib.Data.List.Forall2
import Mathlib.Data.List.TakeWhile

/-!
# Pieces taken from lines

Pieces are taken from a line on when the first is in that line, and each of the others is in the
next line that is no comment. `Source.taken` are the lines they are taken from, and
`Source.Takes` says that a run of pieces is taken and from which line the last of them is.

A search that steps over comments finds such pieces where they were taken, in every window that
starts at their first line and reaches their last: the first try matches
(`Takes.exists_find?_eq_some`). Where in their lines the location begins and ends is what
`Source.Locates` says.
-/

namespace Asciidoc

open Text

/-- A numbered line that does not begin with the comment marker. -/
def Source.isKept (marker : Text) (entry : Int × Text) : Bool := !marker.isPrefixOf entry.2

/-- The first lines from a line on that are no comments. -/
def Source.taken (s : Source) (marker : Text) (line : Int) (count : Nat) : List (Int × Text) :=
  ((s.numbered.drop (line - 1).toNat).filter (isKept marker)).take count

/-- Pieces are taken from a line on, the last of them from another. -/
structure Source.Takes (s : Source) (marker : Text) (line : Int) (pieces : List Text)
    (last : Int) : Prop where
  /-- The first piece is taken from the line itself. -/
  first : (s.taken marker line pieces.length).head?.map Prod.fst = some line
  /-- Every piece stands in its line. -/
  inLines : List.Forall₂ (fun piece entry => piece <:+: entry.2) pieces
    (s.taken marker line pieces.length)
  /-- The line of the last piece. -/
  last : (s.taken marker line pieces.length).getLast?.map Prod.fst = some last

/-- A position is the end of the last of some pieces in the last of some lines. -/
def EndsIn (pieces : List Text) (entries : List (Int × Text)) (p : Position) : Prop :=
  ∃ (piece : Text) (entry : Int × Text) (column : Nat), pieces.getLast? = some piece ∧
    entries.getLast? = some entry ∧ Text.find? piece entry.2 0 = some column ∧
      p = ⟨entry.1, column + piece.length⟩

/-- The end of pieces is the end of those behind the first, or of the first if there are none. -/
theorem EndsIn.cons {piece : Text} {entry : Int × Text} {column : Nat} {pieces : List Text}
    {entries : List (Int × Text)} {p : Position}
    (hcolumn : Text.find? piece entry.2 0 = some column) (hlength : pieces.length = entries.length)
    (h : pieces = [] ∧ p = ⟨entry.1, column + piece.length⟩ ∨ EndsIn pieces entries p) :
    EndsIn (piece :: pieces) (entry :: entries) p := by
  rcases h with ⟨rfl, rfl⟩ | ⟨last, final, found, hlast, hfinal, hfound, rfl⟩
  · obtain rfl : entries = [] := List.length_eq_zero_iff.mp hlength.symm
    exact ⟨piece, entry, column, rfl, rfl, hcolumn, rfl⟩
  · refine ⟨last, final, found, ?_, ?_, hfound, rfl⟩
    · rw [List.getLast?_cons, hlast, Option.getD_some]
    · rw [List.getLast?_cons, hfinal, Option.getD_some]

/-- A position is the start of the first of some pieces in the first of some lines; a piece that
looks like a comment starts where its line does. -/
def StartsIn (marker : Text) (pieces : List Text) (entries : List (Int × Text)) (p : Position) :
    Prop :=
  ∃ (piece : Text) (entry : Int × Text) (column : Nat), pieces.head? = some piece ∧
    entries.head? = some entry ∧ Text.find? piece entry.2 0 = some column ∧
      p = ⟨entry.1, if marker.isPrefixOf piece then 0 else column⟩

/-- A location runs from the first to the last of pieces in the lines they were taken from. -/
structure Source.Locates (s : Source) (marker : Text) (line : Int) (pieces : List Text)
    (l : Location) : Prop where
  /-- It starts where the first is found. -/
  start : StartsIn marker pieces (s.taken marker line pieces.length) l.start
  /-- It ends behind the last. -/
  stop : EndsIn pieces (s.taken marker line pieces.length) l.stop

/-! ## The search -/

namespace Window

variable {w : Window} {marker : Text}

/-- The lines of a run that are not passed by. -/
def kept (w : Window) (marker : Text) (lines : List (Int × Text)) : List (Int × Text) :=
  if w.skipComments then lines.filter (Source.isKept marker) else lines

theorem kept_of_skip (hskip : w.skipComments = true) (lines : List (Int × Text)) :
    w.kept marker lines = lines.filter (Source.isKept marker) :=
  if_pos hskip

/-- The first lines are kept if none of them is passed by. -/
theorem take_kept {lines : List (Int × Text)} {count : Nat}
    (h : w.skipComments = true → ∀ entry ∈ lines.take count, Source.isKept marker entry = true) :
    (w.kept marker lines).take count = lines.take count := by
  rw [kept]
  split
  · rename_i hskip
    conv_lhs => rw [← List.take_append_drop count lines, List.filter_append,
      List.filter_eq_self.mpr (h hskip)]
    by_cases hcount : count ≤ lines.length
    · rw [List.take_left' (List.length_take_of_le hcount)]
    · rw [List.drop_of_length_le (by omega), List.filter_nil, List.append_nil, List.take_take,
        Nat.min_self]
  · rfl

/-- Passing comments leads to the first line that is kept. -/
theorem exists_pass_eq {lines more : List (Int × Text)} {entry : Int × Text}
    (h : w.kept marker lines = entry :: more) :
    ∃ rest, w.pass marker lines = entry :: rest ∧ w.kept marker rest = more := by
  rw [kept] at h
  split at h
  · rename_i hskip
    obtain ⟨passed, rest, rfl, hpassed, hentry, hrest⟩ := List.filter_eq_cons_iff.mp h
    refine ⟨rest, ?_, (kept_of_skip hskip rest).trans hrest⟩
    rw [pass, if_pos hskip, List.dropWhile_append_of_pos, List.dropWhile_cons_of_neg]
    · simpa only [Source.isKept, Bool.not_eq_true', Bool.not_eq_true] using hentry
    · intro line hline
      simpa [Source.isKept] using hpassed line hline
  · rename_i hskip
    exact ⟨more, by rw [pass, if_neg hskip, h], by rw [kept, if_neg hskip]⟩

/-- The first line that is not passed by is the first that is kept. -/
theorem kept_of_pass {lines rest : List (Int × Text)} {entry : Int × Text}
    (h : w.pass marker lines = entry :: rest) :
    w.kept marker lines = entry :: w.kept marker rest := by
  cases hkept : w.kept marker lines with
  | cons first more =>
    obtain ⟨rest', hpass, hmore⟩ := exists_pass_eq hkept
    obtain ⟨rfl, rfl⟩ := List.cons.inj (h.symm.trans hpass)
    rw [hmore]
  | nil =>
    rw [pass] at h
    rw [kept] at hkept
    split at h
    · rename_i hskip
      rw [if_pos hskip, List.filter_eq_nil_iff] at hkept
      have hall : ∀ line ∈ lines, marker.isPrefixOf line.2 = true := fun line hline => by
        simpa [Source.isKept] using hkept line hline
      have hnone := List.dropWhile_eq_nil_iff.mpr hall
      exact absurd (hnone.symm.trans h) (List.cons_ne_nil _ _).symm
    · rename_i hskip
      rw [if_neg hskip, h] at hkept
      cases hkept

/-- Pieces that are in the lines that are kept are found one after the other, whatever was reached
before them. -/
theorem exists_stop? (reached : Position) {expected : List Text} {lines : List (Int × Text)}
    (h : List.Forall₂ (fun piece entry => piece <:+: entry.2) expected
      ((w.kept marker lines).take expected.length)) :
    ∃ p, w.stop? marker reached expected lines = some p ∧
      (expected = [] ∧ p = reached ∨
        EndsIn expected ((w.kept marker lines).take expected.length) p) := by
  induction expected generalizing reached lines with
  | nil => exact ⟨_, rfl, .inl ⟨rfl, rfl⟩⟩
  | cons first others ih =>
    cases hkept : w.kept marker lines with
    | nil =>
      rw [hkept] at h
      cases h
    | cons next more =>
      obtain ⟨rest, hpass, hrest⟩ := exists_pass_eq hkept
      rw [hkept, List.length_cons, List.take_succ_cons, List.forall₂_cons] at h
      obtain ⟨hfirst, hothers⟩ := h
      obtain ⟨found, hfound⟩ := exists_find?_eq_some hfirst
      rw [← hrest] at hothers
      obtain ⟨p, hstop, hends⟩ := ih ⟨next.1, found + first.length⟩ hothers
      refine ⟨p, ?_, .inr ?_⟩
      · rw [stop?, hpass]
        simp only [hfound]
        exact hstop
      · rw [List.length_cons, List.take_succ_cons, ← hrest]
        exact EndsIn.cons hfound hothers.length_eq hends

/-- Pieces taken one after the other are found one after the other. -/
theorem exists_stop?_eq_some {piece : Text} {entry : Int × Text} {column : Nat}
    (hcolumn : Text.find? piece entry.2 0 = some column) {expected : List Text}
    {lines : List (Int × Text)}
    (h : List.Forall₂ (fun piece entry => piece <:+: entry.2) expected
      ((w.kept marker lines).take expected.length)) :
    ∃ p, w.stop? marker ⟨entry.1, column + piece.length⟩ expected lines = some p ∧
      EndsIn (piece :: expected) (entry :: (w.kept marker lines).take expected.length) p := by
  obtain ⟨p, hstop, hends⟩ := exists_stop? ⟨entry.1, column + piece.length⟩ h
  exact ⟨p, hstop, EndsIn.cons hcolumn h.length_eq hends⟩

/-- Pieces are found at the first line tried when they were taken from there on. -/
theorem exists_match?_eq_some (hcolumn : w.startColumn = 0) {first : Text} {others : List Text}
    {lines : List (Int × Text)}
    (h : List.Forall₂ (fun piece entry => piece <:+: entry.2) (first :: others)
      ((w.kept marker lines).take (first :: others).length)) :
    ∃ l, w.match? marker first others lines = some l ∧
      StartsIn marker (first :: others)
        ((w.kept marker lines).take (first :: others).length) l.start ∧
      EndsIn (first :: others) ((w.kept marker lines).take (first :: others).length) l.stop := by
  cases hkept : w.kept marker lines with
  | nil =>
    rw [hkept] at h
    cases h
  | cons entry more =>
    obtain ⟨rest, hpass, hrest⟩ := exists_pass_eq hkept
    rw [hkept, List.length_cons, List.take_succ_cons, List.forall₂_cons] at h
    obtain ⟨hfirst, hothers⟩ := h
    obtain ⟨column, hfound⟩ := exists_find?_eq_some hfirst
    rw [← hrest] at hothers
    obtain ⟨p, hstop, hends⟩ := exists_stop?_eq_some hfound hothers
    rw [List.length_cons, List.take_succ_cons, ← hrest]
    refine ⟨⟨⟨entry.1, if marker.isPrefixOf first then 0 else column⟩, p⟩, ?_, ?_, hends⟩
    · rw [match?, hpass]
      simp only [hcolumn, hfound, hstop, Option.map_some]
    · exact ⟨first, entry, column, rfl, rfl, hfound, rfl⟩

/-- Pieces that are found one after the other are in the lines that are kept. -/
theorem inLines_of_stop? {expected : List Text} {lines : List (Int × Text)} {reached p : Position}
    (h : w.stop? marker reached expected lines = some p) :
    List.Forall₂ (fun piece entry => piece <:+: entry.2) expected
      ((w.kept marker lines).take expected.length) := by
  induction expected generalizing lines reached with
  | nil => exact .nil
  | cons first others ih =>
    rw [stop?] at h
    split at h
    · cases h
    · rename_i number line rest hpass
      split at h
      · cases h
      · rename_i column hfound
        rw [kept_of_pass hpass, List.length_cons, List.take_succ_cons]
        exact .cons (infix_of_find?_eq_some hfound) (ih h)

theorem inLines_of_match? {first : Text} {others : List Text} {lines : List (Int × Text)}
    {l : Location} (h : w.match? marker first others lines = some l) :
    List.Forall₂ (fun piece entry => piece <:+: entry.2) (first :: others)
      ((w.kept marker lines).take (first :: others).length) := by
  rw [match?] at h
  split at h
  · cases h
  · rename_i number line rest hpass
    split at h
    · cases h
    · rename_i column hfound
      obtain ⟨p, hstop, -⟩ := Option.map_eq_some_iff.mp h
      rw [kept_of_pass hpass, List.length_cons, List.take_succ_cons]
      exact .cons (infix_of_find?_eq_some hfound) (inLines_of_stop? hstop)

/-- A search that could match at a line does not go past it. -/
theorem exists_match?_of_search? {first : Text} {others : List Text} {tries index : Nat}
    {lines : List (Int × Text)} {l found : Location}
    (hindex : w.match? marker first others (lines.drop index) = some found) (htries : index < tries)
    (h : w.search? marker first others tries lines = some l) :
    ∃ i ≤ index, w.match? marker first others (lines.drop i) = some l := by
  induction index generalizing tries lines with
  | zero =>
    obtain ⟨tries, rfl⟩ : ∃ n, tries = n + 1 := ⟨tries - 1, by omega⟩
    cases lines with
    | nil => cases h
    | cons line rest =>
      rw [List.drop_zero] at hindex
      rw [search?, hindex] at h
      exact ⟨0, Nat.le_refl _, h ▸ hindex⟩
  | succ index ih =>
    obtain ⟨tries, rfl⟩ : ∃ n, tries = n + 1 := ⟨tries - 1, by omega⟩
    cases lines with
    | nil => cases h
    | cons line rest =>
      rw [search?] at h
      split at h
      · rename_i hmatch
        exact ⟨0, Nat.zero_le _, by rw [List.drop_zero, hmatch, h]⟩
      · obtain ⟨i, hi, hmatch⟩ := ih hindex (by omega) h
        exact ⟨i + 1, by omega, hmatch⟩

end Window

namespace Source

variable {s : Source} {marker : Text} {line last : Int} {pieces : List Text}

/-- The last of numbers that grow is far from the first. -/
theorem le_of_growing {entries : List (Int × Text)} {first last : Int × Text}
    (hgrowing : entries.Pairwise fun a b => a.1 < b.1) (hfirst : entries.head? = some first)
    (hlast : entries.getLast? = some last) : first.1 + entries.length ≤ last.1 + 1 := by
  induction entries generalizing first with
  | nil => cases hfirst
  | cons entry rest ih =>
    obtain rfl : entry = first := by simpa using hfirst
    cases rest with
    | nil =>
      obtain rfl : entry = last := by simpa using hlast
      simp
    | cons next others =>
      obtain ⟨hnext, hrest⟩ := List.pairwise_cons.mp hgrowing
      have hhead : (next :: others).head? = some next := rfl
      have := ih hrest hhead (by simpa using hlast)
      have := hnext next List.mem_cons_self
      simp only [List.length_cons] at *
      omega

theorem numbers_taken (s : Source) (marker : Text) (line : Int) (count : Nat) :
    s.Numbers (s.taken marker line count) :=
  s.numbers_numbered.sublist
    ((List.take_sublist _ _).trans (List.filter_sublist.trans (List.drop_sublist _ _)))

theorem Takes.pieces_ne_nil (h : s.Takes marker line pieces last) : pieces ≠ [] := by
  rintro rfl
  have := h.first
  simp [taken] at this

/-- Pieces are taken from lines of the text, and the last is as far behind the first as there are
pieces. -/
theorem Takes.bounds (h : s.Takes marker line pieces last) :
    1 ≤ line ∧ line + pieces.length ≤ last + 1 ∧ last ≤ s.count := by
  have hnumbers := s.numbers_taken marker line pieces.length
  obtain ⟨entry, hentry, hline⟩ := Option.map_eq_some_iff.mp h.first
  obtain ⟨final, hfinal, hlast⟩ := Option.map_eq_some_iff.mp h.last
  have hlength := h.inLines.length_eq
  have hspan := le_of_growing hnumbers.growing hentry hfinal
  obtain ⟨i, hi, -⟩ := hnumbers.lines_eq _ (List.mem_of_head? hentry)
  obtain ⟨j, hj, hlines⟩ := hnumbers.lines_eq _ (List.mem_of_getLast? hfinal)
  have hcount : j < s.lines.length := (List.getElem?_eq_some_iff.mp hlines).1
  rw [count]
  omega

/-- Every piece has its line. -/
theorem exists_line_of_mem {pieces : List Text} {entries : List (Int × Text)}
    (h : List.Forall₂ (fun piece entry => piece <:+: entry.2) pieces entries) {piece : Text}
    (hpiece : piece ∈ pieces) : ∃ entry ∈ entries, piece <:+: entry.2 := by
  induction h with
  | nil => cases hpiece
  | @cons first entry _ rest hfirst _ ih =>
    rcases List.mem_cons.mp hpiece with rfl | hpiece
    · exact ⟨entry, List.mem_cons_self, hfirst⟩
    · obtain ⟨found, hfound, hwithin⟩ := ih hpiece
      exact ⟨found, List.mem_cons_of_mem _ hfound, hwithin⟩

theorem Takes.line_le (h : s.Takes marker line pieces last) : line ≤ last := by
  have := h.bounds
  have := List.length_pos_iff.mpr h.pieces_ne_nil
  omega

/-- A piece of a line of the text has no line feed in it. -/
theorem Takes.not_mem (h : s.Takes marker line pieces last) : ∀ piece ∈ pieces, '\n' ∉ piece := by
  intro piece hpiece
  obtain ⟨entry, hentry, hwithin⟩ := exists_line_of_mem h.inLines hpiece
  have hfeed := (s.numbers_taken marker line pieces.length).not_mem hentry
  exact fun hmem => hfeed (hwithin.subset hmem)

/-- A single piece is a single line. -/
theorem Takes.lines_eq {piece : Text} (h : s.Takes marker line [piece] last) :
    piece.lines = [piece] := by
  have := lines_unlines (by simp) h.not_mem
  rwa [unlines_singleton] at this

/-- In a window from their first line to their last or beyond, pieces are found where they were
taken. -/
theorem Takes.exists_find?_eq_some (h : s.Takes marker line pieces last) {w : Window}
    (hskip : w.skipComments = true) (hcolumn : w.startColumn = 0) (hmin : w.minLine = line)
    (hmax : last ≤ w.maxLine) :
    ∃ l, s.find? marker pieces w = some l ∧ s.Locates marker line pieces l := by
  obtain ⟨hline, hspan, hcount⟩ := h.bounds
  obtain ⟨first, others, rfl⟩ := List.exists_cons_of_ne_nil h.pieces_ne_nil
  have hpieces := h.inLines
  rw [taken, ← Window.kept_of_skip hskip] at hpieces
  obtain ⟨l, hmatch, hstart, hstop⟩ := Window.exists_match?_eq_some hcolumn hpieces
  rw [Window.kept_of_skip hskip] at hstart hstop
  refine ⟨l, ?_, hstart, hstop⟩
  have hfirst : (w.candidates s.count (first :: others).length).1 = line := by
    rw [Window.candidates]
    simp only
    omega
  obtain ⟨tries, htries⟩ : ∃ n, (w.candidates s.count (first :: others).length).2 = n + 1 := by
    refine ⟨(w.candidates s.count (first :: others).length).2 - 1, ?_⟩
    rw [Window.candidates]
    simp only
    omega
  rw [find?]
  simp only [hfirst, htries]
  cases hlines : s.numbered.drop (line - 1).toNat with
  | nil =>
    rw [hlines] at hmatch
    simp [Window.match?, Window.pass] at hmatch
  | cons entry rest =>
    rw [Window.search?, ← hlines, hmatch]

/-- Pieces that stand in lines of a window one directly after the other are found there or
before, if no line from the first of the window to the last of theirs is passed by. -/
theorem find?_within {w : Window} (hcolumn : w.startColumn = 0) (hline : 1 ≤ w.minLine)
    (index : Nat) {l : Location}
    (hkept : w.skipComments = true → ∀ entry ∈
      (s.numbered.drop (w.minLine - 1).toNat).take (index + pieces.length),
        isKept marker entry = true)
    (hinLines : List.Forall₂ (fun piece entry => piece <:+: entry.2) pieces
      (((s.numbered.drop (w.minLine - 1).toNat).drop index).take pieces.length))
    (hmax : w.minLine + index + pieces.length ≤ w.maxLine + 1)
    (h : s.find? marker pieces w = some l) :
    w.minLine ≤ l.start.line ∧ l.stop.line < w.minLine + index + pieces.length := by
  cases pieces with
  | nil => cases h
  | cons first others =>
    have hlength := hinLines.length_eq
    rw [List.length_take, List.length_drop, List.length_drop] at hlength
    have hcount : s.numbered.length = s.count := by simp [numbered, count]
    have hpos : 0 < (first :: others).length := List.length_pos_of_mem List.mem_cons_self
    rw [find?] at h
    have htake (i : Nat) (hi : i ≤ index) :
        (w.kept marker ((s.numbered.drop (w.minLine - 1).toNat).drop i)).take
          (first :: others).length
            = ((s.numbered.drop (w.minLine - 1).toNat).drop i).take (first :: others).length := by
      refine Window.take_kept fun hskip entry hentry => hkept hskip entry ?_
      rw [List.take_drop] at hentry
      exact (List.take_sublist_take_left (by omega)).subset (List.mem_of_mem_drop hentry)
    have hfirst : (w.candidates s.count (first :: others).length).1 = w.minLine := by
      rw [Window.candidates]
      simp only
      omega
    have htries : index < (w.candidates s.count (first :: others).length).2 := by
      rw [Window.candidates]
      simp only
      omega
    simp only [hfirst] at h
    rw [← htake index (Nat.le_refl _)] at hinLines
    obtain ⟨found, hfound, -, -⟩ := Window.exists_match?_eq_some hcolumn hinLines
    obtain ⟨i, hi, hmatch⟩ := Window.exists_match?_of_search? hfound htries h
    obtain ⟨l', hl', hstart, hstop⟩ :=
      Window.exists_match?_eq_some hcolumn (Window.inLines_of_match? hmatch)
    obtain rfl : l' = l := Option.some.inj (hl'.symm.trans hmatch)
    rw [htake i hi, List.drop_drop] at hstart hstop
    obtain ⟨_, entry, column, -, hentry, -, hstart⟩ := hstart
    obtain ⟨_, entry', column', -, hentry', -, hstop⟩ := hstop
    rw [List.head?_take, if_neg (by simp), List.head?_drop] at hentry
    rw [List.getLast?_take, if_neg (by simp), List.getElem?_drop,
      List.getElem?_eq_getElem (by omega), Option.some_or] at hentry'
    have := (line_of_getElem?_numbered hentry).1
    have := (line_of_getElem?_numbered
      (List.getElem?_eq_some_iff.mpr ⟨_, Option.some.inj hentry'⟩)).1
    rw [hstart, hstop]
    dsimp only
    omega

/-- The same where comments are not passed by. -/
theorem find?_listed {w : Window} (hcolumn : w.startColumn = 0) (hline : 1 ≤ w.minLine)
    (index : Nat) {l : Location}
    (hinLines : List.Forall₂ (fun piece entry => piece <:+: entry.2) pieces
      (((s.numbered.drop (w.minLine - 1).toNat).drop index).take pieces.length))
    (hmax : w.minLine + index + pieces.length ≤ w.maxLine + 1)
    (h : s.find? marker pieces { w with skipComments := false } = some l) :
    w.minLine ≤ l.start.line ∧ l.stop.line < w.minLine + index + pieces.length :=
  find?_within (w := { w with skipComments := false }) hcolumn hline index nofun hinLines hmax h

theorem Locates.start_line {l : Location} (h : s.Locates marker line pieces l)
    (htakes : s.Takes marker line pieces last) : l.start.line = line := by
  obtain ⟨piece, entry, column, -, hentry, -, hstart⟩ := h.start
  have := htakes.first
  rw [hentry] at this
  rw [hstart]
  simpa using this

theorem Locates.stop_line {l : Location} (h : s.Locates marker line pieces l)
    (htakes : s.Takes marker line pieces last) : l.stop.line = last := by
  obtain ⟨piece, entry, column, -, hentry, -, hstop⟩ := h.stop
  have := htakes.last
  rw [hentry] at this
  rw [hstop]
  simpa using this

/-! ## Lines that stand one directly after the other -/

/-- Lines with consecutive numbers. -/
def Consecutive (line : Int) (lines : List (Int × Text)) : Prop :=
  ∀ (index : Nat) (entry : Int × Text), lines[index]? = some entry → entry.1 = line + index

theorem Consecutive.tail {entry : Int × Text} {rest : List (Int × Text)}
    (h : Consecutive line (entry :: rest)) : Consecutive (line + 1) rest := by
  intro index other hother
  have := h (index + 1) other (by simpa using hother)
  omega

theorem consecutive_numbered_drop (s : Source) (hline : 1 ≤ line) :
    Consecutive line (s.numbered.drop (line - 1).toNat) := by
  intro index entry hentry
  rw [List.getElem?_drop] at hentry
  have := (line_of_getElem?_numbered hentry).1
  omega

theorem Consecutive.le_of_mem {lines : List (Int × Text)} (h : Consecutive line lines)
    {entry : Int × Text} (hentry : entry ∈ lines) : line ≤ entry.1 := by
  obtain ⟨index, hindex⟩ := List.mem_iff_getElem?.mp hentry
  have := h index entry hindex
  omega

/-- As many lines as there are numbers up to the last of them leave none of the numbers out. -/
theorem Consecutive.take_filter {p : Int × Text → Bool} {lines : List (Int × Text)} {count : Nat}
    (h : Consecutive line lines) (hgrowing : lines.Pairwise fun a b => a.1 < b.1)
    (hlength : ((lines.filter p).take count).length = count)
    (hlast : ∀ entry, ((lines.filter p).take count).getLast? = some entry →
      entry.1 + 1 ≤ line + count) :
    (lines.filter p).take count = lines.take count := by
  induction count generalizing line lines with
  | zero => rfl
  | succ count ih =>
    cases lines with
    | nil => cases hlength
    | cons entry rest =>
      have hrest := (List.pairwise_cons.mp hgrowing).2
      by_cases hentry : p entry = true
      · rw [List.filter_cons_of_pos hentry, List.take_succ_cons] at hlength hlast ⊢
        rw [List.take_succ_cons, ih h.tail hrest (Nat.succ.inj hlength) fun other hother => ?_]
        have := hlast other (by rw [List.getLast?_cons, hother]; rfl)
        omega
      · -- A line left out pushes the others behind the last number there is room for.
        rw [List.filter_cons_of_neg hentry] at hlength hlast
        have hne : (rest.filter p).take (count + 1) ≠ [] := by
          intro hnil
          rw [hnil] at hlength
          cases hlength
        have hhead := List.head?_eq_some_head hne
        have hlast' := List.getLast?_eq_some_getLast hne
        have hsub : ((rest.filter p).take (count + 1)).Sublist rest :=
          (List.take_sublist _ _).trans List.filter_sublist
        have hspan := le_of_growing (hrest.sublist hsub) hhead hlast'
        have hfirst := h.tail.le_of_mem (hsub.subset (List.head_mem hne))
        have := hlast _ hlast'
        omega

end Source

end Asciidoc
