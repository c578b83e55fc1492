import Asciidoc.Proofs.Span.Places
import Asciidoc.Span.Finder

/-!
# What the search finds is in the text

Whatever lines are expected and whatever the window, a location that is found runs between two
positions of the text, and never backwards (`find?_hasLocation`, `find?_ordered`). No bound of
the window is trusted for that: the search only ever holds expected lines against numbered lines
of the text, and `stop?_reaches` says what one expected line after the other does to the end
reached so far.
-/

namespace Asciidoc

open Text

/-- Numbered lines that are lines of a text, in the order of their numbers. -/
structure Source.Numbers (s : Source) (lines : List (Int × Text)) : Prop where
  /-- Every line is the line of its number. -/
  lines_eq : ∀ entry ∈ lines, ∃ index : Nat,
    entry.1 = index + 1 ∧ s.lines[index]? = some entry.2
  /-- The numbers grow. -/
  growing : lines.Pairwise fun a b => a.1 < b.1

namespace Source

variable {s : Source}

/-- A numbered line is the line of its index, and has the number of it. -/
theorem line_of_getElem?_numbered {index : Nat} {entry : Int × Text}
    (h : s.numbered[index]? = some entry) :
    entry.1 = index + 1 ∧ s.lines[index]? = some entry.2 := by
  rw [numbered, List.getElem?_map, List.getElem?_zipIdx] at h
  obtain ⟨⟨line, found⟩, hfound, rfl⟩ := Option.map_eq_some_iff.mp h
  obtain ⟨line', hline, hpair⟩ := Option.map_eq_some_iff.mp hfound
  obtain ⟨rfl, rfl⟩ := Prod.mk.inj hpair
  exact ⟨by simp, hline⟩

theorem numbers_numbered (s : Source) : s.Numbers s.numbered := by
  constructor
  · intro entry hentry
    obtain ⟨index, hindex⟩ := List.mem_iff_getElem?.mp hentry
    exact ⟨index, line_of_getElem?_numbered hindex⟩
  · rw [numbered, List.pairwise_map]
    refine (List.pairwise_iff_getElem.mpr ?_)
    intro i j hi hj hij
    simp only [List.getElem_zipIdx]
    omega

theorem Numbers.sublist {lines others : List (Int × Text)} (h : s.Numbers lines)
    (hsub : others.Sublist lines) : s.Numbers others :=
  ⟨fun entry hentry => h.lines_eq entry (hsub.subset hentry), h.growing.sublist hsub⟩

/-- A numbered line is the line of its number. -/
theorem Numbers.line?_eq {lines : List (Int × Text)} (h : s.Numbers lines) {entry : Int × Text}
    (hentry : entry ∈ lines) : s.line? entry.1 = some entry.2 := by
  obtain ⟨index, hnumber, hline⟩ := h.lines_eq entry hentry
  rw [line?, fromEitherEnd?, hnumber, if_pos (by omega), ← hline]
  congr 1
  omega

/-- A line has no line feed in it. -/
theorem Numbers.not_mem {lines : List (Int × Text)} (h : s.Numbers lines) {entry : Int × Text}
    (hentry : entry ∈ lines) : '\n' ∉ entry.2 := by
  obtain ⟨index, -, hline⟩ := h.lines_eq entry hentry
  have hmem := List.mem_of_getElem? hline
  rw [s.lines_eq] at hmem
  exact not_mem_of_mem_split '\n' s.text entry.2 hmem

/-- A column of a numbered line of the text is a position. -/
theorem Numbers.hasPosition {lines : List (Int × Text)} {number : Int} {line : Text}
    (h : s.Numbers lines) (hmem : (number, line) ∈ lines) {column : Nat}
    (hcolumn : column ≤ line.length) : s.HasPosition ⟨number, column⟩ := by
  obtain ⟨index, rfl, hline⟩ := h.lines_eq _ hmem
  exact hasPosition_iff.mpr ⟨index, column, line, hline, hcolumn, rfl⟩

end Source

/-- Passing comment lines leaves an end of the lines. -/
theorem Window.pass_suffix (w : Window) (marker : Text) (lines : List (Int × Text)) :
    w.pass marker lines <:+ lines := by
  rw [pass]
  split
  · exact List.dropWhile_suffix _
  · exact List.suffix_refl _

/-- The text found in a line ends in that line. -/
theorem Text.find?_end_le {needle haystack : Text} {start : Int} {column : Nat}
    (h : Text.find? needle haystack start = some column) :
    column + needle.length ≤ haystack.length := by
  obtain ⟨-, hle, hpre⟩ := find?_eq_some h
  have := hpre.length_le
  rw [List.length_drop] at this
  omega

namespace Window

variable {s : Source} {w : Window} {marker : Text}

/-- The end of expected lines is the end reached before them, or a position on a later line. -/
theorem stop?_reaches {expected : List Text} {lines : List (Int × Text)} {reached p : Position}
    (hlines : s.Numbers lines) (hlater : ∀ entry ∈ lines, reached.line < entry.1)
    (h : w.stop? marker reached expected lines = some p) :
    p = reached ∨ s.HasPosition p ∧ reached.line < p.line := by
  induction expected generalizing lines reached with
  | nil =>
    obtain rfl : reached = p := by simpa [stop?] using h
    exact .inl rfl
  | cons first others ih =>
    have hsuffix := w.pass_suffix marker lines
    rw [stop?] at h
    split at h
    · cases h
    · rename_i number line rest hpass
      rw [hpass] at hsuffix
      split at h
      · cases h
      · rename_i column hfound
        have hnumbers := hlines.sublist hsuffix.sublist
        have hmem : (number, line) ∈ (number, line) :: rest := List.mem_cons_self
        have hnext := hlater _ (hsuffix.subset hmem)
        have hposition := hnumbers.hasPosition hmem (Text.find?_end_le hfound)
        have hrest := hnumbers.sublist (List.sublist_cons_self _ _)
        right
        rcases ih hrest (List.pairwise_cons.mp hnumbers.growing).1 h with rfl | ⟨hp, hline⟩
        · exact ⟨hposition, hnext⟩
        · exact ⟨hp, Int.lt_trans hnext hline⟩

/-- Where the search matches, both ends are positions, and the second is not before the first. -/
theorem match?_reaches {first : Text} {others : List Text} {lines : List (Int × Text)}
    {l : Location} (hlines : s.Numbers lines)
    (h : w.match? marker first others lines = some l) :
    s.HasLocation l ∧ (l.start.line < l.stop.line
      ∨ l.start.line = l.stop.line ∧ l.start.column ≤ l.stop.column) := by
  have hsuffix := w.pass_suffix marker lines
  rw [match?] at h
  split at h
  · cases h
  · rename_i number line rest hpass
    rw [hpass] at hsuffix
    have hnumbers := hlines.sublist hsuffix.sublist
    have hmem : (number, line) ∈ (number, line) :: rest := List.mem_cons_self
    have hrest := hnumbers.sublist (List.sublist_cons_self _ _)
    split at h
    · cases h
    · rename_i column hfound
      have hend := Text.find?_end_le hfound
      obtain ⟨p, hstop, rfl⟩ := Option.map_eq_some_iff.mp h
      have hstart : s.HasPosition ⟨number, if marker.isPrefixOf first then 0 else column⟩ := by
        split
        · exact hnumbers.hasPosition hmem (Nat.zero_le line.length)
        · exact hnumbers.hasPosition hmem (by omega)
      have hfirst : (if marker.isPrefixOf first then 0 else (column : Int)) ≤ column := by
        split <;> omega
      have hreached := stop?_reaches hrest (List.pairwise_cons.mp hnumbers.growing).1 hstop
      rcases hreached with rfl | ⟨hp, hline⟩
      · refine ⟨⟨hstart, hnumbers.hasPosition hmem hend⟩, .inr ⟨rfl, ?_⟩⟩
        simp only
        omega
      · exact ⟨⟨hstart, hp⟩, .inl hline⟩

theorem search?_reaches {first : Text} {others : List Text} {tries : Nat}
    {lines : List (Int × Text)} {l : Location} (hlines : s.Numbers lines)
    (h : w.search? marker first others tries lines = some l) :
    s.HasLocation l ∧ (l.start.line < l.stop.line
      ∨ l.start.line = l.stop.line ∧ l.start.column ≤ l.stop.column) := by
  induction tries generalizing lines with
  | zero => cases lines <;> simp [search?] at h
  | succ tries ih =>
    cases lines with
    | nil => simp [search?] at h
    | cons line rest =>
      rw [search?] at h
      split at h
      · rename_i found hmatch
        obtain rfl : found = l := by simpa using h
        exact match?_reaches hlines hmatch
      · exact ih (hlines.sublist (List.sublist_cons_self _ _)) h

end Window

namespace Source

variable {s : Source} {w : Window} {marker : Text} {expected : List Text} {l : Location}

theorem find?_reaches (h : s.find? marker expected w = some l) :
    s.HasLocation l ∧ (l.start.line < l.stop.line
      ∨ l.start.line = l.stop.line ∧ l.start.column ≤ l.stop.column) := by
  cases expected with
  | nil => simp [find?] at h
  | cons first others =>
    rw [find?] at h
    exact Window.search?_reaches (s.numbers_numbered.sublist (List.drop_sublist _ _)) h

/-- Both ends of a location that was found are positions of the text. -/
theorem find?_hasLocation (h : s.find? marker expected w = some l) : s.HasLocation l :=
  (find?_reaches h).1

/-- The range of a location that was found is not turned around. -/
theorem find?_ordered (h : s.find? marker expected w = some l) {r : Range}
    (hr : s.range? l = some r) : r.start ≤ r.stop := by
  obtain ⟨⟨hstart, hstop⟩, horder⟩ := find?_reaches h
  obtain ⟨ha, hb⟩ := range?_eq_some hr
  exact offset_mono hstart hstop ha hb horder

end Source

end Asciidoc
