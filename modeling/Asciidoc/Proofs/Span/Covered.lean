import Asciidoc.Proofs.Span.Search

/-!
# What a location covers

A location that was found is cut out of the text by offsets, without a look at its lines. What is
cut out are lines all the same: the end of the first, the lines between, and the start of the last
(`slice_lines`).

The expected lines are in these, in order, where the comments between the first and the last are
left out if they were passed by (`FoundAt`). The last expected line ends the last of them and the
first begins the first, unless it looks like a comment and is reported from the start of its line
(`InStep`).
-/

namespace Asciidoc

open Text

/-! ## Lines and offsets -/

namespace Text

/-- Lines behind others: the others, each with its line feed, and then they. -/
theorem unlines_append (before : List Text) {lines : List Text} (h : lines ≠ []) :
    unlines (before ++ lines) = before.flatMap (· ++ ['\n']) ++ unlines lines := by
  induction before with
  | nil => rfl
  | cons first rest ih =>
    obtain ⟨second, others, hrest⟩ :=
      List.exists_cons_of_ne_nil (List.append_ne_nil_of_right_ne_nil rest h)
    rw [List.cons_append, hrest, unlines_cons_cons, ← hrest, ih]
    simp

theorem exists_unlines_cons (line : Text) (rest : List Text) :
    ∃ behind, unlines (line :: rest) = line ++ behind := by
  cases rest with
  | nil => exact ⟨[], by simp⟩
  | cons second others => exact ⟨_, unlines_cons_cons line second others⟩

/-- A piece between offsets inside the text. -/
theorem slice_append (before piece behind : Text) {start stop : Nat} (hstart : start ≤ stop)
    (hstop : stop ≤ piece.length) :
    slice (before ++ piece ++ behind) ((before.length + start : Nat) : Int)
      ((before.length + stop : Nat) : Int) = (piece.take stop).drop start := by
  have hcolumn (length offset : Nat) : column length (offset : Int) = offset := by
    rw [column, if_neg (by omega), Int.toNat_natCast]
  have hlength : before.length + piece.length ≤ (before ++ piece ++ behind).length := by
    simp
  rw [slice, hcolumn, hcolumn, Nat.min_eq_left (by omega), Nat.min_eq_left (by omega)]
  rw [List.append_assoc, List.take_length_add_append, List.drop_length_add_append,
    List.take_append_of_le_length hstop]

end Text

theorem lineStart_append (before after : List Text) :
    lineStart (before ++ after) before.length = (before.flatMap (· ++ ['\n'])).length := by
  induction before with
  | nil => simp
  | cons first rest ih =>
    rw [List.cons_append, List.length_cons, lineStart_cons_succ, ih]
    simp
    omega

namespace Source

variable {s : Source} {before between after : List Text} {line final : Text} {r : Range}

theorem text_eq (s : Source) : s.text = unlines s.lines := by
  rw [s.lines_eq, unlines, Text.lines, join_split]

/-- The offset of a position on the line behind some lines. -/
theorem offset_behind (hlines : s.lines = before ++ after) (column : Nat) {offset : Int}
    (h : s.offset? ⟨(before.length : Int) + 1, column⟩ = some offset) :
    offset = (((before.flatMap (· ++ ['\n'])).length + column : Nat) : Int) := by
  have hcount : before.length ≤ s.count := by
    rw [count, hlines, List.length_append]
    omega
  rw [offset?_eq hcount, hlines, lineStart_append] at h
  exact (Option.some.inj h).symm

/-- A location on one line covers a piece of it. -/
theorem slice_line (hlines : s.lines = before ++ line :: after) {start stop : Nat}
    (hstart : start ≤ stop) (hstop : stop ≤ line.length)
    (h : s.range? ⟨⟨before.length + 1, start⟩, ⟨before.length + 1, stop⟩⟩ = some r) :
    s.slice r = (line.take stop).drop start := by
  obtain ⟨hfirst, hlast⟩ := range?_eq_some h
  obtain ⟨behind, hbehind⟩ := exists_unlines_cons line after
  rw [slice, offset_behind hlines start hfirst, offset_behind hlines stop hlast, text_eq, hlines,
    unlines_append before (List.cons_ne_nil _ _), hbehind, ← List.append_assoc]
  exact slice_append _ line behind hstart hstop

/-- A location on several lines covers the end of the first, the lines between and the start of the
last. -/
theorem slice_lines (hlines : s.lines = before ++ line :: (between ++ final :: after))
    {start stop : Nat} (hstart : start ≤ line.length) (hstop : stop ≤ final.length)
    (h : s.range? ⟨⟨before.length + 1, start⟩,
      ⟨((before ++ line :: between).length : Int) + 1, stop⟩⟩ = some r) :
    s.slice r = unlines (line.drop start :: (between ++ [final.take stop])) := by
  obtain ⟨hfirst, hlast⟩ := range?_eq_some h
  obtain ⟨behind, hbehind⟩ := exists_unlines_cons final after
  have hlines' : s.lines = (before ++ line :: between) ++ final :: after := by
    rw [hlines]
    simp
  -- From the start of the first line up to the start of the last.
  have hupto : (before ++ line :: between).flatMap (· ++ ['\n'])
      = before.flatMap (· ++ ['\n']) ++ (line ++ '\n' :: between.flatMap (· ++ ['\n'])) := by
    simp
  have hcut : unlines (line.drop start :: (between ++ [final.take stop]))
      = line.drop start ++ '\n' :: (between.flatMap (· ++ ['\n']) ++ final.take stop) := by
    rw [← List.cons_append, unlines_append _ (List.cons_ne_nil _ _), unlines_singleton,
      List.flatMap_cons]
    simp
  rw [slice, offset_behind hlines start hfirst, offset_behind hlines' stop hlast, text_eq, hlines',
    unlines_append _ (List.cons_ne_nil _ _), hbehind, hcut, hupto]
  generalize before.flatMap (· ++ ['\n']) = passed
  generalize between.flatMap (· ++ ['\n']) = inner
  have hbegins : start ≤ (line ++ '\n' :: inner).length + stop := by
    simp only [List.length_append]
    omega
  have hends : (line ++ '\n' :: inner).length + stop
      ≤ ((line ++ '\n' :: inner) ++ final).length := by
    simp only [List.length_append]
    omega
  have hdrop : ((line ++ '\n' :: inner) ++ final.take stop).drop start
      = line.drop start ++ '\n' :: (inner ++ final.take stop) := by
    rw [List.append_assoc, List.cons_append, List.drop_append_of_le_length hstart]
  have hslice := slice_append passed _ behind hbegins hends
  rw [List.take_length_add_append, hdrop] at hslice
  rw [← hslice]
  simp only [List.append_assoc, List.length_append, Nat.add_assoc]

end Source

/-! ## Where expected lines are found -/

/-- The lines of a run without the comments, where comments are passed by. -/
def Text.keptLines (marker : Text) (skip : Bool) (lines : List Text) : List Text :=
  lines.filter fun line => !(skip && marker.isPrefixOf line)

/-- The column from which an expected line is reported: where it was found, or the start of its
line if it looks like a comment. -/
def Text.reportedFrom (marker piece : Text) (column : Nat) : Nat :=
  if marker.isPrefixOf piece then 0 else column

theorem Text.natCast_reportedFrom (marker piece : Text) (column : Nat) :
    ((reportedFrom marker piece column : Nat) : Int)
      = if marker.isPrefixOf piece then 0 else (column : Int) := by
  unfold reportedFrom
  split
  · rfl
  · rfl

/-- Where expected lines are found: a single one in a line, or the first and the last of them in
two lines and the others in the lines between that are not passed by. -/
inductive Source.FoundAt (s : Source) (marker : Text) (skip : Bool) :
    List Text → Location → Prop where
  | oneLine {before after : List Text} {line piece : Text} {column : Nat}
      (hlines : s.lines = before ++ line :: after) (hpiece : piece.OccursAt line column) :
    FoundAt s marker skip [piece]
      ⟨⟨before.length + 1, reportedFrom marker piece column⟩,
        ⟨before.length + 1, (column + piece.length : Nat)⟩⟩
  | severalLines {before between after others : List Text} {line final first last : Text}
      {column lastColumn : Nat} (hlines : s.lines = before ++ line :: (between ++ final :: after))
      (hfirst : first.OccursAt line column)
      (hothers : List.Forall₂ (fun piece line => piece <:+: line) others
        (keptLines marker skip between)) (hlast : last.OccursAt final lastColumn) :
    FoundAt s marker skip (first :: (others ++ [last]))
      ⟨⟨before.length + 1, reportedFrom marker first column⟩,
        ⟨((before ++ line :: between).length : Int) + 1, (lastColumn + last.length : Nat)⟩⟩

namespace Source

variable {s : Source} {marker : Text} {expected : List Text} {w : Window} {l : Location}

/-- A numbered line by the lines before it and behind it. -/
theorem numbered_eq_append {before behind : List (Int × Text)} {entry : Int × Text}
    (h : s.numbered = before ++ entry :: behind) : entry.1 = (before.map Prod.snd).length + 1 ∧
      s.lines = before.map Prod.snd ++ entry.2 :: behind.map Prod.snd := by
  have hlines : s.numbered.map Prod.snd = s.lines := by
    simp [numbered, Function.comp_def]
  have hentry : s.numbered[before.length]? = some entry := by
    rw [h, List.getElem?_append_right (Nat.le_refl _), Nat.sub_self]
    rfl
  refine ⟨?_, ?_⟩
  · rw [List.length_map]
    exact (line_of_getElem?_numbered hentry).1
  · rw [← hlines, h, List.map_append, List.map_cons]

/-- A line that is found from some column on is one that a text stands in. -/
theorem occursAt_of_find? {piece line : Text} {start : Int} {column : Nat}
    (h : Text.find? piece line start = some column) : piece.OccursAt line column :=
  (Text.find?_eq_some h).2

/-- What is kept up to one of the lines that are kept. -/
theorem exists_of_filter_eq {α : Type} {p : α → Bool} {xs kept more : List α} {x : α}
    (h : xs.filter p = kept ++ x :: more) :
    ∃ between after, xs = between ++ x :: after ∧ between.filter p = kept := by
  obtain ⟨front, back, rfl, hfront, hback⟩ := List.filter_eq_append_iff.mp h
  obtain ⟨passed, after, rfl, hpassed, -, -⟩ := List.filter_eq_cons_iff.mp hback
  refine ⟨front ++ passed, after, by simp, ?_⟩
  rw [List.filter_append, hfront, List.filter_eq_nil_iff.mpr hpassed, List.append_nil]

/-- The lines that all but the last of some texts are found in, up to the line of the last. -/
theorem exists_between {skip : Bool} {behind : List (Int × Text)} {others : List Text}
    {last : Text} {final : Int × Text}
    (hothers : List.Forall₂ (fun piece entry => piece <:+: entry.2) (others ++ [last])
      ((behind.filter fun entry => !(skip && marker.isPrefixOf entry.2)).take
        (others ++ [last]).length))
    (hfinal : ((behind.filter fun entry => !(skip && marker.isPrefixOf entry.2)).take
      (others ++ [last]).length).getLast? = some final) :
    ∃ between after, behind = between ++ final :: after ∧
      List.Forall₂ (fun piece line => piece <:+: line) others
        (keptLines marker skip (between.map Prod.snd)) := by
  obtain ⟨entries, hentries⟩ := List.getLast?_eq_some_iff.mp hfinal
  have hkept := List.take_append_drop (others ++ [last]).length
    (behind.filter fun entry => !(skip && marker.isPrefixOf entry.2))
  rw [hentries, List.append_assoc, List.singleton_append] at hkept
  obtain ⟨between, after, rfl, hbetween⟩ := exists_of_filter_eq hkept.symm
  refine ⟨between, after, rfl, ?_⟩
  rw [hentries] at hothers
  have hlength : others.length = entries.length := by simpa using hothers.length_eq
  have hfound := List.forall₂_take_append _ _ _ hothers
  rw [List.take_left' hlength] at hfound
  rw [keptLines, List.filter_map, List.forall₂_map_right_iff]
  exact hbetween ▸ hfound

/-- What a search finds is found in lines of the text, one behind the other. -/
theorem foundAt_of_find? (h : s.find? marker expected w = some l) :
    s.FoundAt marker w.skipComments expected l := by
  cases expected with
  | nil => cases h
  | cons first others =>
    obtain ⟨number, -, hmatch, -⟩ := find?_eq_some_iff.mp h
    obtain ⟨entry, more, column, hkept, hcolumn, hothers, hstart, hstop⟩ :=
      Window.exists_of_match? hmatch
    rw [Window.kept_eq_filter] at hkept
    obtain ⟨passed, behind, hdrop, -, -, rfl⟩ := List.filter_eq_cons_iff.mp hkept
    obtain ⟨before, hnumbered⟩ : ∃ before, s.numbered = before ++ entry :: behind :=
      ⟨s.numbered.take (number - 1).toNat ++ passed, by
        rw [List.append_assoc, ← hdrop, List.take_append_drop]⟩
    obtain ⟨hentry, hlines⟩ := numbered_eq_append hnumbered
    have hfirst := occursAt_of_find? hcolumn
    obtain ⟨start, stop⟩ := l
    obtain rfl : start = _ := hstart
    rw [hentry, ← natCast_reportedFrom]
    rcases hstop with ⟨rfl, hstop⟩ | ⟨last, final, lastColumn, hlast, hfinal, hfound, hstop⟩
    · obtain rfl : stop = _ := hstop
      rw [hentry, ← Int.natCast_add]
      exact .oneLine hlines hfirst
    · obtain rfl : stop = _ := hstop
      obtain ⟨inner, rfl⟩ := List.getLast?_eq_some_iff.mp hlast
      obtain ⟨between, after, rfl, hinner⟩ := exists_between hothers hfinal
      have hnumbered' : s.numbered = (before ++ entry :: between) ++ final :: after := by
        rw [hnumbered]
        simp
      obtain ⟨hfinal, -⟩ := numbered_eq_append hnumbered'
      rw [List.map_append, List.map_cons] at hlines hfinal
      rw [hfinal, ← Int.natCast_add]
      exact .severalLines hlines hfirst hinner (occursAt_of_find? hfound)

end Source

/-! ## What is covered and what was expected -/

/-- The lines of a piece of source; without the comments between the first and the last where
comments are passed by. -/
def Text.sourceLines (marker : Text) (skip : Bool) (raw : Text) : List Text :=
  match raw.lines with
  | [] => []
  | first :: others => first :: (keptLines marker skip others.dropLast ++ others.getLast?.toList)

/-- A reported text and the source it was reported for agree line by line. -/
structure Text.InStep (marker : Text) (skip : Bool) (value raw : Text) : Prop where
  /-- There are as many lines of the one as of the other, and each is in its line. -/
  within : List.Forall₂ (fun piece line => piece <:+: line) value.lines
    (sourceLines marker skip raw)
  /-- The first begins its line, unless it looks like a comment. -/
  first : ∀ piece line, value.lines.head? = some piece →
    (sourceLines marker skip raw).head? = some line → ¬marker <+: piece → piece <+: line
  /-- The last ends its line. -/
  last : ∀ piece line, value.lines.getLast? = some piece →
    (sourceLines marker skip raw).getLast? = some line → piece <:+ line
  /-- A single line that does not look like a comment is the source. -/
  single : '\n' ∉ value → ¬marker <+: value → raw = value

namespace Source

variable {s : Source} {marker : Text} {skip : Bool} {value : Text} {l : Location} {r : Range}

theorem not_mem_line {line : Text} (h : line ∈ s.lines) : '\n' ∉ line := by
  rw [s.lines_eq] at h
  exact not_mem_of_mem_split '\n' s.text line h

/-- Up to where a piece ends in a line and from where it starts there is the piece. -/
theorem drop_take_of_occursAt {piece line : Text} {column : Nat} (h : piece.OccursAt line column) :
    (line.take (column + piece.length)).drop column = piece := by
  rw [List.drop_take, Nat.add_sub_cancel_left]
  exact (List.prefix_iff_eq_take.mp h.2).symm

theorem suffix_of_occursAt {piece line : Text} {start column : Nat} (hstart : start ≤ column)
    (h : piece.OccursAt line column) :
    piece <:+ (line.take (column + piece.length)).drop start := by
  have hdrop := drop_take_of_occursAt h
  rw [← Nat.add_sub_of_le hstart, ← List.drop_drop, Nat.add_sub_of_le hstart] at hdrop
  conv_lhs => rw [← hdrop]
  exact List.drop_suffix _ _

theorem infix_of_occursAt {piece line : Text} {start column : Nat} (hstart : start ≤ column)
    (h : piece.OccursAt line column) : piece <:+: line.drop start := by
  have hbegins := h.2
  rw [← Nat.add_sub_of_le hstart, ← List.drop_drop] at hbegins
  exact hbegins.isInfix.trans (List.drop_suffix _ _).isInfix

theorem length_le_of_occursAt {piece line : Text} {column : Nat} (h : piece.OccursAt line column) :
    column + piece.length ≤ line.length := by
  obtain ⟨hcolumn, hbegins⟩ := h
  have := hbegins.length_le
  rw [List.length_drop] at this
  omega

theorem reportedFrom_le (marker piece : Text) (column : Nat) :
    reportedFrom marker piece column ≤ column := by
  unfold reportedFrom
  split
  · exact Nat.zero_le _
  · exact Nat.le_refl _

theorem reportedFrom_eq {piece : Text} (h : ¬marker <+: piece) (column : Nat) :
    reportedFrom marker piece column = column := by
  rw [reportedFrom, if_neg (by rwa [List.isPrefixOf_iff_prefix])]

/-- A piece of source on several lines, without the comments between the first and the last. -/
theorem sourceLines_unlines {first last : Text} {between : List Text}
    (h : ∀ line ∈ first :: (between ++ [last]), '\n' ∉ line) :
    sourceLines marker skip (unlines (first :: (between ++ [last])))
      = first :: (keptLines marker skip between ++ [last]) := by
  rw [sourceLines, lines_unlines (List.cons_ne_nil _ _) h]
  simp

/-- A text found in one line is what is covered, or the end of it. -/
theorem inStep_oneLine {before after : List Text} {line piece : Text} {column : Nat}
    (hlines : s.lines = before ++ line :: after) (hpiece : piece.OccursAt line column)
    (hvalue : value.lines = [piece])
    (hr : s.range? ⟨⟨before.length + 1, reportedFrom marker piece column⟩,
      ⟨before.length + 1, (column + piece.length : Nat)⟩⟩ = some r) :
    InStep marker skip value (s.slice r) := by
  have hle := reportedFrom_le marker piece column
  rw [slice_line hlines (Nat.le_add_right_of_le hle) (length_le_of_occursAt hpiece) hr]
  obtain rfl : value = piece := by
    rw [← join_split '\n' value, ← Text.lines, hvalue]
    exact unlines_singleton piece
  have hends := suffix_of_occursAt hle hpiece
  have hsame (hplain : ¬marker <+: value) :
      (line.take (column + value.length)).drop (reportedFrom marker value column) = value := by
    rw [reportedFrom_eq hplain, drop_take_of_occursAt hpiece]
  generalize hraw : (line.take (column + value.length)).drop (reportedFrom marker value column)
    = raw at hends hsame ⊢
  have hfeed : '\n' ∉ raw := by
    intro hmem
    have hline : line ∈ s.lines := hlines ▸ List.mem_append_right _ List.mem_cons_self
    exact not_mem_line hline (List.mem_of_mem_take (List.mem_of_mem_drop (hraw ▸ hmem)))
  have hsource : sourceLines marker skip raw = [raw] := by
    rw [sourceLines, Text.lines, split_of_not_mem hfeed]
    rfl
  refine ⟨?_, ?_, ?_, fun _ => hsame⟩
  · rw [hvalue, hsource]
    exact .cons hends.isInfix .nil
  · rw [hvalue, hsource]
    rintro _ _ ⟨⟩ ⟨⟩ hplain
    obtain rfl := hsame hplain
    exact List.prefix_refl raw
  · rw [hvalue, hsource]
    rintro _ _ ⟨⟩ ⟨⟩
    exact hends

/-- Of several lines the first stands at the end of its line from where it is covered, and the last
ends where the other is covered up to. -/
theorem inStep_severalLines {before between after others : List Text}
    {line final first last : Text} {column lastColumn : Nat}
    (hlines : s.lines = before ++ line :: (between ++ final :: after))
    (hfirst : first.OccursAt line column)
    (hothers : List.Forall₂ (fun piece line => piece <:+: line) others
      (keptLines marker skip between)) (hlast : last.OccursAt final lastColumn)
    (hvalue : value.lines = first :: (others ++ [last]))
    (hr : s.range? ⟨⟨before.length + 1, reportedFrom marker first column⟩,
      ⟨((before ++ line :: between).length : Int) + 1, (lastColumn + last.length : Nat)⟩⟩
        = some r) :
    InStep marker skip value (s.slice r) := by
  have hle := reportedFrom_le marker first column
  rw [slice_lines hlines (Nat.le_trans hle hfirst.1) (length_le_of_occursAt hlast) hr]
  have hstart := infix_of_occursAt hle hfirst
  have hends := suffix_of_occursAt (Nat.zero_le _) hlast
  rw [List.drop_zero] at hends
  have hbegins (hplain : ¬marker <+: first) :
      first <+: line.drop (reportedFrom marker first column) := by
    rw [reportedFrom_eq hplain]
    exact hfirst.2
  have hfeeds : ∀ x ∈ line.drop (reportedFrom marker first column)
      :: (between ++ [final.take (lastColumn + last.length)]), '\n' ∉ x := by
    have hmem : ∀ x ∈ line :: (between ++ final :: after), '\n' ∉ x := fun x hx =>
      not_mem_line (hlines ▸ List.mem_append_right before hx)
    obtain ⟨hline, hrest⟩ := List.forall_mem_cons.mp hmem
    obtain ⟨hbetween, hfinal⟩ := List.forall_mem_append.mp hrest
    refine List.forall_mem_cons.mpr ⟨fun h => hline (List.mem_of_mem_drop h),
      List.forall_mem_append.mpr ⟨hbetween, List.forall_mem_singleton.mpr fun h => ?_⟩⟩
    exact hfinal final List.mem_cons_self (List.mem_of_mem_take h)
  refine ⟨?_, ?_, ?_, fun hfeed => ?_⟩
  · rw [hvalue, sourceLines_unlines hfeeds]
    exact .cons hstart (List.rel_append hothers (.cons hends.isInfix .nil))
  · rw [hvalue, sourceLines_unlines hfeeds]
    rintro _ _ ⟨⟩ ⟨⟩
    exact hbegins
  · rw [hvalue, sourceLines_unlines hfeeds, ← List.cons_append, ← List.cons_append,
      List.getLast?_concat, List.getLast?_concat]
    rintro _ _ ⟨⟩ ⟨⟩
    exact hends
  · rw [Text.lines, split_of_not_mem hfeed] at hvalue
    simp at hvalue

/-- Whatever is covered by a location at which a text was found agrees with it line by line. -/
theorem FoundAt.inStep (h : s.FoundAt marker skip value.lines l) (hr : s.range? l = some r) :
    InStep marker skip value (s.slice r) := by
  generalize hpieces : value.lines = pieces at h
  cases h with
  | oneLine hlines hpiece => exact inStep_oneLine hlines hpiece hpieces hr
  | severalLines hlines hfirst hothers hlast =>
    exact inStep_severalLines hlines hfirst hothers hlast hpieces hr

end Source

end Asciidoc
