import Asciidoc.Proofs.Span.Search

/-!
# Where lines that stand together are found

A search that passes no line by holds its lines against lines that stand directly after one another,
so what it finds has as many lines as it was asked for (`find?_rows`), and it answers with the first
line of its window from which on all of them are found (`find?_holds`). That line may be an earlier
one than the line they were taken from: lines that a block is made of are found too early when each
of them is in the line before its own.
-/

namespace Asciidoc

open Text

namespace Source

/-- Each of some pieces is in a line, one directly after the other from a line on. -/
def HoldsFrom (s : Source) (line : Int) (pieces : List Text) : Prop :=
  List.Forall₂ (fun piece entry => piece <:+: entry.2) pieces
    ((s.numbered.drop (line - 1).toNat).take pieces.length)

instance (s : Source) (line : Int) (pieces : List Text) : Decidable (s.HoldsFrom line pieces) :=
  inferInstanceAs (Decidable (List.Forall₂ _ _ _))

variable {s : Source} {marker : Text} {pieces : List Text} {w : Window} {l : Location}

/-- Pieces that are in lines that stand together are in lines of the text. -/
theorem HoldsFrom.le_count {line : Int} (h : s.HoldsFrom line pieces) (hline : 1 ≤ line)
    (hne : pieces ≠ []) : line + pieces.length ≤ s.count + 1 := by
  have hlength := h.length_eq
  have hpos := List.length_pos_iff.mpr hne
  have hcount : s.numbered.length = s.count := by simp [numbered, count]
  rw [List.length_take, List.length_drop] at hlength
  omega

/-- Where no line is passed by, pieces are found from the first line on from which they are in lines
that stand together. -/
theorem find?_holds (hcolumn : w.startColumn = 0) (hline : 1 ≤ w.minLine) (hne : pieces ≠ [])
    (index : Nat)
    (hkept : w.skipComments = true → ∀ entry ∈
      (s.numbered.drop (w.minLine - 1).toNat).take (index + pieces.length),
        isKept marker entry = true)
    (hholds : s.HoldsFrom (w.minLine + index) pieces)
    (hearlier : ∀ i < index, ¬s.HoldsFrom (w.minLine + i) pieces)
    (hmax : w.minLine + index + pieces.length ≤ w.maxLine + 1) :
    ∃ l, s.find? marker pieces w = some l ∧
      StartsIn marker pieces
        ((s.numbered.drop (w.minLine + index - 1).toNat).take pieces.length) l.start ∧
      EndsIn pieces ((s.numbered.drop (w.minLine + index - 1).toNat).take pieces.length) l.stop := by
  obtain ⟨first, others, rfl⟩ := List.exists_cons_of_ne_nil hne
  have hcount := hholds.le_count (by omega) hne
  have hpos : 0 < (first :: others).length := List.length_pos_of_mem List.mem_cons_self
  have htake (i : Nat) (hi : i ≤ index) :
      (w.kept marker (s.numbered.drop (w.minLine + i - 1).toNat)).take (first :: others).length
        = (s.numbered.drop (w.minLine + i - 1).toNat).take (first :: others).length := by
    have hdrop : (w.minLine + i - 1).toNat = (w.minLine - 1).toNat + i := by omega
    refine Window.take_kept fun hskip entry hentry => hkept hskip entry ?_
    rw [hdrop, ← List.drop_drop, List.take_drop] at hentry
    exact (List.take_sublist_take_left (by omega)).subset (List.mem_of_mem_drop hentry)
  have hinLines := hholds
  rw [HoldsFrom, ← htake index (Nat.le_refl _)] at hinLines
  obtain ⟨l, hmatch, hstart, hstop⟩ := Window.exists_match?_eq_some hcolumn hinLines
  rw [htake index (Nat.le_refl _)] at hstart hstop
  refine ⟨l, find?_eq_some_iff.mpr ⟨w.minLine + index, ?_, hmatch, fun earlier hoffers hlt => ?_⟩,
    hstart, hstop⟩
  · constructor <;> omega
  · obtain ⟨i, rfl⟩ : ∃ i : Nat, earlier = w.minLine + i :=
      ⟨(earlier - w.minLine).toNat, by have := hoffers.1; omega⟩
    cases hfound : w.match? marker first others (s.numbered.drop (w.minLine + i - 1).toNat) with
    | none => rfl
    | some found =>
      have hinLines := Window.inLines_of_match? hfound
      rw [htake i (by omega)] at hinLines
      exact absurd hinLines (hearlier i (by omega))

/-- They are found on the first line if they are in the lines from there on. -/
theorem find?_holds_first (hcolumn : w.startColumn = 0) (hline : 1 ≤ w.minLine) (hne : pieces ≠ [])
    (hkept : w.skipComments = true → ∀ entry ∈
      (s.numbered.drop (w.minLine - 1).toNat).take pieces.length, isKept marker entry = true)
    (hholds : s.HoldsFrom w.minLine pieces) (hmax : w.minLine + pieces.length ≤ w.maxLine + 1) :
    ∃ l, s.find? marker pieces w = some l ∧
      StartsIn marker pieces ((s.numbered.drop (w.minLine - 1).toNat).take pieces.length) l.start ∧
      EndsIn pieces ((s.numbered.drop (w.minLine - 1).toNat).take pieces.length) l.stop := by
  have hfound := find?_holds (s := s) hcolumn hline hne 0 (by rwa [Nat.zero_add])
    (by rwa [Int.natCast_zero, Int.add_zero]) (fun i hi => absurd hi (Nat.not_lt_zero i)) (by omega)
  rwa [Int.natCast_zero, Int.add_zero] at hfound

/-- What is found has the lines of a number on that are not passed by. -/
theorem exists_linesFor (hcolumn : 0 ≤ w.startColumn) (h : s.find? marker pieces w = some l) :
    ∃ number first last, 1 ≤ number ∧
      (s.linesFor marker pieces w number).length = pieces.length ∧
      (s.linesFor marker pieces w number).head? = some first ∧ l.start.line = first.1 ∧
      (s.linesFor marker pieces w number).getLast? = some last ∧ l.stop.line = last.1 := by
  cases pieces with
  | nil => cases h
  | cons piece others =>
    obtain ⟨number, hoffers, hmatch, -⟩ := find?_eq_some_iff.mp h
    have hpos : 1 ≤ number := Int.le_trans (Int.le_max_right _ _) hoffers.1
    obtain ⟨hmatches, hruns⟩ := runsFrom_of_match? hcolumn hpos hmatch
    obtain ⟨_, first, column, -, hfirst, -, hstart⟩ := hruns.start
    obtain ⟨_, last, column', -, hlast, -, hstop⟩ := hruns.stop
    exact ⟨number, first, last, hpos, hmatches.length_eq, hfirst, by rw [hstart], hlast,
      by rw [hstop]⟩

/-- The lines that something is found in grow. -/
theorem numbers_linesFor (number : Int) : s.Numbers (s.linesFor marker pieces w number) :=
  s.numbers_numbered.sublist ((List.take_sublist _ _).trans List.filter_sublist)

/-- Where comments are part of what is searched, as many lines are found as there are pieces. -/
theorem find?_rows (hcolumn : 0 ≤ w.startColumn) (hskip : w.skipComments = false)
    (h : s.find? marker pieces w = some l) :
    l.stop.line + 1 = l.start.line + pieces.length := by
  obtain ⟨number, first, last, hpos, hlength, hfirst, hstart, hlast, hstop⟩ :=
    exists_linesFor hcolumn h
  have hlines : s.linesFor marker pieces w number
      = (s.numbered.drop (number - 1).toNat).take pieces.length := by
    rw [linesFor, linesFrom_eq hpos, Window.kept, hskip, if_neg Bool.false_ne_true]
  rw [hlines] at hlength hfirst hlast
  have hne : 0 < pieces.length := by
    rw [← hlength]
    exact List.length_pos_of_mem (List.mem_of_head? hfirst)
  rw [List.length_take, List.length_drop] at hlength
  rw [List.head?_take, if_neg (by omega), List.head?_drop] at hfirst
  rw [List.getLast?_take, if_neg (by omega), List.getElem?_drop,
    List.getElem?_eq_getElem (by omega), Option.some_or] at hlast
  have hfirstNumber := (line_of_getElem?_numbered hfirst).1
  have hlastNumber := (line_of_getElem?_numbered
    (List.getElem?_eq_some_iff.mpr ⟨_, Option.some.inj hlast⟩)).1
  omega

/-- As many lines as there are numbers between the first and the last leave none of them out. -/
theorem exists_of_growing {entries : List (Int × Text)} {first last : Int × Text}
    (hgrowing : entries.Pairwise fun a b => a.1 < b.1) (hfirst : entries.head? = some first)
    (hlast : entries.getLast? = some last) (hspan : last.1 + 1 ≤ first.1 + entries.length)
    {number : Int} (hlow : first.1 ≤ number) (hhigh : number ≤ last.1) :
    ∃ entry ∈ entries, entry.1 = number := by
  induction entries generalizing first with
  | nil => cases hfirst
  | cons entry rest ih =>
    obtain rfl : entry = first := Option.some.inj hfirst
    by_cases hnumber : number = entry.1
    · exact ⟨entry, List.mem_cons_self, hnumber.symm⟩
    cases rest with
    | nil =>
      obtain rfl : entry = last := Option.some.inj hlast
      omega
    | cons next others =>
      obtain ⟨hnext, hrest⟩ := List.pairwise_cons.mp hgrowing
      have := hnext next List.mem_cons_self
      rw [List.getLast?_cons_cons] at hlast
      have := le_of_growing hrest rfl hlast
      rw [List.length_cons] at hspan
      obtain ⟨found, hfound, hnumber⟩ := ih hrest rfl hlast (by omega) (by omega)
      exact ⟨found, List.mem_cons_of_mem _ hfound, hnumber⟩

/-- Where comments are passed by, none of the lines is a comment between the ends of what is found on
as many lines as there are pieces. -/
theorem isKept_of_find? (hcolumn : 0 ≤ w.startColumn) (hskip : w.skipComments = true)
    (h : s.find? marker pieces w = some l)
    (hrows : l.stop.line + 1 ≤ l.start.line + pieces.length) {entry : Int × Text}
    (hentry : entry ∈ s.numbered) (hlow : l.start.line ≤ entry.1) (hhigh : entry.1 ≤ l.stop.line) :
    isKept marker entry = true := by
  obtain ⟨number, first, last, -, hlength, hfirst, hstart, hlast, hstop⟩ :=
    exists_linesFor hcolumn h
  obtain ⟨found, hfound, hnumber⟩ := exists_of_growing (numbers_linesFor number).growing hfirst
    hlast (by omega) (hstart ▸ hlow) (hstop ▸ hhigh)
  have hmem := List.mem_of_mem_take hfound
  rw [linesFrom, List.mem_filter, hskip, Bool.true_and, Bool.and_eq_true] at hmem
  -- A number has only one line.
  obtain rfl : found = entry := by
    obtain ⟨i, hi⟩ := List.mem_iff_getElem?.mp hmem.1
    obtain ⟨j, hj⟩ := List.mem_iff_getElem?.mp hentry
    have hline := line_of_getElem?_numbered hi
    have hother := line_of_getElem?_numbered hj
    obtain rfl : i = j := by omega
    exact Option.some.inj (hi.symm.trans hj)
  exact hmem.2.2

/-- Lines that are asked for without the carriage returns at their ends are found as wholes. -/
theorem eq_of_wholes {entries : List (Int × Text)} {first last : Int × Text}
    (hfirst : entries.head? = some first) (hlast : entries.getLast? = some last)
    (hstart : StartsIn marker (entries.map fun entry => dropReturns entry.2) entries l.start)
    (hstop : EndsIn (entries.map fun entry => dropReturns entry.2) entries l.stop) :
    l = ⟨⟨first.1, 0⟩, ⟨last.1, (dropReturns last.2).length⟩⟩ := by
  obtain ⟨l₁, l₂⟩ := l
  obtain ⟨piece, entry, column, hpiece, hentry, hcolumn, rfl⟩ := hstart
  obtain ⟨piece', entry', column', hpiece', hentry', hcolumn', rfl⟩ := hstop
  obtain rfl : first = entry := Option.some.inj (hfirst.symm.trans hentry)
  obtain rfl : last = entry' := Option.some.inj (hlast.symm.trans hentry')
  rw [List.head?_map, hfirst, Option.map_some] at hpiece
  rw [List.getLast?_map, hlast, Option.map_some] at hpiece'
  obtain rfl := Option.some.inj hpiece
  obtain rfl := Option.some.inj hpiece'
  rw [find?_atStart (dropReturns_isPrefix _)] at hcolumn hcolumn'
  obtain rfl := Option.some.inj hcolumn
  obtain rfl := Option.some.inj hcolumn'
  simp

end Source

end Asciidoc
