import Asciidoc.Proofs.Span.Covered
import Mathlib.Data.List.ModifyLast
import Mathlib.Order.RelIso.Basic

/-!
# Positions and offsets are the same order

The positions of a text in the order of reading and the offsets from its start to its end
correspond one to one: the offset of a position and the position of an offset undo each other, and
a position comes before another exactly if its offset is the smaller one (`Source.offsetIso`). An
offset in the text has a position because the lines and their line feeds leave no gap: the last
column of a line is the place of its line feed, and what comes next is the start of the next line.

Other offsets have positions too: those before the text its start, those behind it its end. And
what is between two positions can be read off the lines: they are cut at the two columns and joined
again (`slice_eq_pieces`).
-/

namespace Asciidoc

open Text

/-! ## Every offset is on a line -/

/-- An offset before the end of some lines is on one of them or at its line feed. -/
theorem exists_lineStart {lines : List Text} {offset : Nat}
    (h : offset < lineStart lines lines.length) :
    ∃ index column line, lines[index]? = some line ∧ column ≤ line.length ∧
      offset = lineStart lines index + column := by
  induction lines generalizing offset with
  | nil => simp at h
  | cons first rest ih =>
    rw [List.length_cons, lineStart_cons_succ] at h
    by_cases hfirst : offset ≤ first.length
    · exact ⟨0, offset, first, rfl, hfirst, by simp⟩
    · have hrest : offset - (first.length + 1) < lineStart rest rest.length := by omega
      obtain ⟨index, column, line, hline, hcolumn, hoffset⟩ := ih hrest
      refine ⟨index + 1, column, line, by simpa using hline, hcolumn, ?_⟩
      rw [lineStart_cons_succ]
      omega

/-- Of two positions one is before the other, or they are the same. -/
theorem Position.before_trichotomy (p q : Position) : p.before q ∨ p = q ∨ q.before p := by
  obtain ⟨line, column⟩ := p
  obtain ⟨line', column'⟩ := q
  simp only [before, mk.injEq]
  omega

theorem Position.not_before_self (p : Position) : ¬p.before p := by
  simp [before]

namespace Source

variable {s : Source} {p q : Position} {a b : Int}

/-- Behind the last line another one would start one past the end of the text. -/
theorem lineStart_count (s : Source) : lineStart s.lines s.count = s.text.length + 1 := by
  have hne : s.lines ≠ [] := List.ne_nil_of_length_pos s.count_pos
  rw [count, lineStart_length '\n' s.lines hne, s.lines_eq, Text.lines, join_split]

/-- Every offset from the start of a text to its end is the offset of a position. -/
theorem exists_hasPosition (h : 0 ≤ a) (hend : a ≤ s.text.length) :
    ∃ p, s.HasPosition p ∧ s.offset? p = some a := by
  have hlines : a.toNat < lineStart s.lines s.lines.length := by
    have := s.lineStart_count
    rw [count] at this
    omega
  obtain ⟨index, column, line, hline, hcolumn, hoffset⟩ := exists_lineStart hlines
  have hindex : index ≤ s.count := Nat.le_of_lt (List.getElem?_eq_some_iff.mp hline).1
  refine ⟨⟨index + 1, column⟩, hasPosition_iff.mpr ⟨index, column, line, hline, hcolumn, rfl⟩, ?_⟩
  rw [offset?_eq hindex, ← hoffset, Int.toNat_of_nonneg h]

/-- A position of the text is that of its offset. -/
theorem position_of_offset? (hp : s.HasPosition p) (ha : s.offset? p = some a) :
    s.position a = p := by
  obtain ⟨offset, hoffset, hback⟩ := hp.offset
  obtain rfl : a = offset := Option.some.inj (ha.symm.trans hoffset)
  exact hback

/-- An offset in the text is that of its position, which the text has. -/
theorem hasPosition_position (h : 0 ≤ a) (hend : a ≤ s.text.length) :
    s.HasPosition (s.position a) ∧ s.offset? (s.position a) = some a := by
  obtain ⟨p, hp, ha⟩ := exists_hasPosition h hend
  rw [position_of_offset? hp ha]
  exact ⟨hp, ha⟩

/-- Positions come in the order of their offsets. -/
theorem offset_lt_iff (hp : s.HasPosition p) (hq : s.HasPosition q) (ha : s.offset? p = some a)
    (hb : s.offset? q = some b) : a < b ↔ p.before q := by
  have hmono {p q : Position} {a b : Int} (hp : s.HasPosition p) (hq : s.HasPosition q)
      (ha : s.offset? p = some a) (hb : s.offset? q = some b) (h : p.before q) : a ≤ b :=
    offset_mono hp hq ha hb (h.imp_right fun h => ⟨h.1, Int.le_of_lt h.2⟩)
  constructor
  · intro h
    rcases p.before_trichotomy q with hbefore | rfl | hafter
    · exact hbefore
    · obtain rfl : a = b := Option.some.inj (ha.symm.trans hb)
      exact absurd h (Int.lt_irrefl a)
    · have := hmono hq hp hb ha hafter
      omega
  · intro h
    have hle := hmono hp hq ha hb h
    -- Two positions with one offset are the position of that offset.
    have hne : a ≠ b := by
      rintro rfl
      rw [← position_of_offset? hp ha, position_of_offset? hq hb] at h
      exact q.not_before_self h
    omega

/-- The positions of a text. -/
abbrev Place (s : Source) : Type := { p : Position // s.HasPosition p }

/-- The offsets of a text, its end included. -/
abbrev Offset (s : Source) : Type := { a : Int // 0 ≤ a ∧ a ≤ s.text.length }

/-- The positions of a text in the order of reading are its offsets in the order of numbers. -/
def offsetIso (s : Source) :
    (fun p q : s.Place => p.1.before q.1) ≃r (fun a b : s.Offset => a.1 < b.1) where
  toFun p := ⟨(s.offset? p.1).get (by obtain ⟨a, ha, -⟩ := p.2.offset; simp [ha]),
    p.2.offset_le (Option.some_get _).symm⟩
  invFun a := ⟨s.position a.1, (hasPosition_position a.2.1 a.2.2).1⟩
  left_inv p := Subtype.ext (position_of_offset? p.2 (Option.some_get _).symm)
  right_inv a := Subtype.ext
    (Option.some.inj ((Option.some_get _).trans (hasPosition_position a.2.1 a.2.2).2))
  map_rel_iff' {p q} := offset_lt_iff p.2 q.2 (Option.some_get _).symm (Option.some_get _).symm

theorem offset?_eq_offsetIso (p : s.Place) : s.offset? p.1 = some (s.offsetIso p).1 :=
  (Option.some_get _).symm

theorem position_eq_offsetIso (a : s.Offset) : s.position a.1 = (s.offsetIso.symm a).1 := rfl

/-! ## Offsets outside the text -/

theorem mem_starts {start : Nat} (h : start ∈ s.starts) : start ≤ s.text.length + 1 := by
  obtain ⟨index, hindex⟩ := List.mem_iff_getElem?.mp h
  have hle : index ≤ s.count := by
    have := (List.getElem?_eq_some_iff.mp hindex).1
    rw [s.length_starts] at this
    omega
  rw [getElem?_starts hle] at hindex
  obtain rfl := Option.some.inj hindex
  have := lineStart_mono s.lines hle
  rwa [s.lineStart_count] at this

/-- Before the text there is its start. -/
theorem position_of_neg (h : a < 0) : s.position a = .origin := by
  have hstarted : s.starts.filter (fun (start : Nat) => decide ((start : Int) ≤ a)) = [] := by
    refine List.filter_eq_nil_iff.mpr fun start _ => ?_
    simp only [decide_eq_true_eq]
    omega
  have hstart := getElem?_starts (s := s) (Nat.zero_le _)
  simp only [position, hstarted, List.length_nil, Nat.zero_sub, Nat.zero_min, hstart, lineStart_zero,
    Option.getD_some, Position.origin, Position.mk.injEq]
  omega

/-- Behind the text there is its end. -/
theorem position_of_past (h : s.text.length < a) {last : Text} (hlast : s.lines.getLast? = some last) :
    s.position a = ⟨s.count, last.length⟩ := by
  have hstarted : s.starts.filter (fun (start : Nat) => decide ((start : Int) ≤ a)) = s.starts := by
    refine List.filter_eq_self.mpr fun start hstart => ?_
    have := mem_starts hstart
    simp only [decide_eq_true_eq]
    omega
  have hcount := s.count_pos
  have hindex : min (s.count + 1 - 1) (s.count - 1) = s.count - 1 := by omega
  rw [List.getLast?_eq_getElem?] at hlast
  have hstart := getElem?_starts (s := s) (Nat.sub_le s.count 1)
  have hend := lineStart_succ hlast
  have hall := s.lineStart_count
  rw [← count, Nat.sub_add_cancel hcount, hall] at hend
  rw [← count] at hlast
  simp only [position, hstarted, s.length_starts, hindex, hstart, hlast, Option.getD_some,
    Position.mk.injEq]
  omega

/-! ## Between two positions -/

/-- A list around one of its members. -/
theorem exists_append_of_getElem? {α : Type} {xs : List α} {index : Nat} {x : α}
    (h : xs[index]? = some x) : ∃ before after, xs = before ++ x :: after ∧ index = before.length := by
  obtain ⟨hindex, rfl⟩ := List.getElem?_eq_some_iff.mp h
  refine ⟨xs.take index, xs.drop (index + 1), ?_, ?_⟩
  · rw [← List.drop_eq_getElem_cons hindex, List.take_append_drop]
  · rw [List.length_take, Nat.min_eq_left (Nat.le_of_lt hindex)]

/-- What lines have between two positions: the lines from one to the other, the last up to a column
and the first from a column on. -/
def pieces (s : Source) (l : Location) : List Text :=
  (((s.lines.drop (l.start.line - 1).toNat).take (l.stop.line - l.start.line + 1).toNat).modifyLast
    (·.take l.stop.column.toNat)).modifyHead (·.drop l.start.column.toNat)

/-- What lies between two positions on one line. -/
theorem pieces_oneLine {before after : List Text} {line : Text}
    (hlines : s.lines = before ++ line :: after) (start stop : Nat) :
    s.pieces ⟨⟨before.length + 1, start⟩, ⟨before.length + 1, stop⟩⟩
      = [(line.take stop).drop start] := by
  have hcut := List.modifyLast_concat (List.take stop) line []
  rw [List.nil_append] at hcut
  simp [pieces, hlines, hcut]

/-- What lies between positions on two lines. -/
theorem pieces_severalLines {before between after : List Text} {line final : Text}
    (hlines : s.lines = before ++ line :: (between ++ final :: after)) (start stop : Nat) :
    s.pieces ⟨⟨before.length + 1, start⟩, ⟨((before ++ line :: between).length : Int) + 1, stop⟩⟩
      = line.drop start :: (between ++ [final.take stop]) := by
  have hcount : ((((before ++ line :: between).length : Int) + 1)
      - ((before.length : Int) + 1) + 1).toNat = (line :: between ++ [final]).length := by
    simp only [List.length_append, List.length_cons, List.length_nil]
    omega
  have hdrop : s.lines.drop ((before.length : Int) + 1 - 1).toNat
      = (line :: between ++ [final]) ++ after := by
    simp [hlines]
  rw [pieces, hdrop, hcount, List.take_left' rfl, List.modifyLast_concat]
  rfl

/-- The text between two positions is what the lines have between them, joined again. -/
theorem slice_eq_pieces (hp : s.HasPosition p) (hq : s.HasPosition q) (h : ¬q.before p) :
    ∃ r, s.range? ⟨p, q⟩ = some r ∧ s.slice r = unlines (s.pieces ⟨p, q⟩) := by
  obtain ⟨r, hr, -⟩ := HasLocation.range (l := ⟨p, q⟩) ⟨hp, hq⟩
  refine ⟨r, hr, ?_⟩
  obtain ⟨i, start, line, hline, hstart, rfl⟩ := hasPosition_iff.mp hp
  obtain ⟨j, stop, final, hfinal, hstop, rfl⟩ := hasPosition_iff.mp hq
  obtain ⟨before, behind, hlines, rfl⟩ := exists_append_of_getElem? hline
  simp only [Position.before] at h
  by_cases hij : j = before.length
  · subst hij
    obtain rfl : line = final := Option.some.inj (hline.symm.trans hfinal)
    rw [pieces_oneLine hlines, unlines_singleton]
    exact slice_line hlines (by omega) hstop hr
  · have hbehind : behind[j - (before.length + 1)]? = some final := by
      have hsplit : j - before.length = j - (before.length + 1) + 1 := by omega
      rwa [hlines, List.getElem?_append_right (by omega), hsplit,
        List.getElem?_cons_succ] at hfinal
    obtain ⟨between, after, rfl, hlength⟩ := exists_append_of_getElem? hbehind
    obtain rfl : j = (before ++ line :: between).length := by
      simp only [List.length_append, List.length_cons]
      omega
    rw [pieces_severalLines hlines]
    exact slice_lines hlines hstart hstop hr

/-- The positions of a text in the order of reading correspond one to one to its offsets in the
order of numbers, each the position of its offset and the other way round; an offset before the
text is at its start and one behind it at the end of its last line; and the text between two
positions is what the lines from one to the other have between them, joined by line feeds. -/
theorem offsets_orderIso (s : Source) :
    (∃ iso : (fun p q : s.Place => p.1.before q.1) ≃r (fun a b : s.Offset => a.1 < b.1),
      (∀ p, s.offset? p.1 = some (iso p).1) ∧ ∀ a, s.position a.1 = (iso.symm a).1) ∧
    (∀ a : Int, a < 0 → s.position a = .origin) ∧
    (∀ a : Int, s.text.length < a → ∃ last, s.lines.getLast? = some last ∧
      s.position a = ⟨s.count, last.length⟩) ∧
    ∀ start stop : Position, s.HasPosition start → s.HasPosition stop → ¬stop.before start →
      ∃ r, s.range? ⟨start, stop⟩ = some r ∧ s.slice r = unlines (s.pieces ⟨start, stop⟩) := by
  refine ⟨⟨s.offsetIso, offset?_eq_offsetIso, position_eq_offsetIso⟩, fun a => position_of_neg,
    fun a ha => ?_, fun start stop => slice_eq_pieces⟩
  have hlast := List.getLast?_eq_some_getLast (List.ne_nil_of_length_pos s.count_pos)
  exact ⟨_, hlast, position_of_past ha hlast⟩

/-- Three lines, the second of them empty. -/
theorem offsets_orderIso_emptyLine :
    (ofText "ab\n\nc".toList).position 3 = ⟨2, 0⟩ ∧
      (ofText "ab\n\nc".toList).position (-5) = .origin ∧
      (ofText "ab\n\nc".toList).position 9 = ⟨3, 1⟩ ∧
      ∃ r, (ofText "ab\n\nc".toList).range? ⟨⟨1, 1⟩, ⟨3, 1⟩⟩ = some r ∧
        (ofText "ab\n\nc".toList).slice r = "b\n\nc".toList := by
  obtain ⟨⟨iso, hoffset, hposition⟩, hneg, hpast, hslice⟩ := offsets_orderIso (ofText "ab\n\nc".toList)
  have hfirst : (ofText "ab\n\nc".toList).HasPosition ⟨1, 1⟩ :=
    hasPosition_iff.mpr ⟨0, 1, "ab".toList, rfl, by decide, rfl⟩
  have hempty : (ofText "ab\n\nc".toList).HasPosition ⟨2, 0⟩ :=
    hasPosition_iff.mpr ⟨1, 0, [], rfl, by decide, rfl⟩
  have hlast : (ofText "ab\n\nc".toList).HasPosition ⟨3, 1⟩ :=
    hasPosition_iff.mpr ⟨2, 1, "c".toList, rfl, by decide, rfl⟩
  refine ⟨?_, hneg (-5) (by decide), ?_, hslice _ _ hfirst hlast (by decide)⟩
  · have hthree : 3 = (iso ⟨_, hempty⟩).1 := Option.some.inj (hoffset ⟨_, hempty⟩)
    rw [hthree, hposition, iso.symm_apply_apply]
  · obtain ⟨last, hmem, hend⟩ := hpast 9 (by decide)
    obtain rfl : "c".toList = last := Option.some.inj hmem
    exact hend

end Source

end Asciidoc
