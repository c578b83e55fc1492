import Asciidoc.Proofs.Node.Consistent
import Asciidoc.Proofs.Span.Offsets

/-!
# Trees with locations on lines that are not there

A location in a tree from outside may be on any line. The validator looks the line up from either
end of the table of line starts, so three things can come of a line that the text does not have:

* the number is in the table all the same. Zero and the number after the last line stand for what
  comes after the text, a number below zero counts back from the last line (`Source.Strays`), and
  the column can make up for the difference. Such a location is not reported if it comes to the
  range of its node.
* the number is in the table and comes to another offset, which is reported.
* the number is not in the table. Then the whole tree cannot be judged, unless the range of the node
  is wrong by itself.

Besides, a number that has to be told may be too long for it. `violations?_of_strays` says that
nothing else happens: a tree is judged exactly when no node that the validator comes to is of the
third kind or has to be told with such a number (`Node.IsJudged`), and a tree that is found right has
stray locations of the first kind only.
-/

namespace Asciidoc

open Text

namespace Source

variable {s : Source} {p : Position} {offset : Int}

/-- How a position on no line of the text comes to an offset all the same. -/
inductive Strays (s : Source) (offset : Int) (p : Position) : Prop where
  /-- It counts back from the place after the text and one line feed. -/
  | after (hline : p.line = 0 ∨ p.line = s.count + 1) (hoffset : offset = s.text.length + 1 + p.column)
  /-- It counts from the start of a line, which is told by what is left to the place after all lines. -/
  | back (index : Nat) (hindex : index < s.count) (hline : p.line = (index : Int) - s.count)
      (hoffset : offset = lineStart s.lines index + p.column)

theorem strays_iff (hline : ¬(1 ≤ p.line ∧ p.line ≤ s.count)) :
    s.Strays offset p ↔ s.offset? p = some offset := by
  have hpos := s.count_pos
  have hend := s.lineStart_count
  rw [offset?_eq_some_iff]
  constructor
  · rintro (⟨hzero | hlast, rfl⟩ | ⟨index, hindex, hback, rfl⟩)
    · exact ⟨s.count, Nat.le_refl _, by omega, by omega⟩
    · exact ⟨s.count, Nat.le_refl _, by omega, by omega⟩
    · exact ⟨index, Nat.le_of_lt hindex, .inr hback, rfl⟩
  · rintro ⟨index, hle, hnumber, rfl⟩
    rcases Nat.lt_or_eq_of_le hle with hlt | rfl
    · exact .back index hlt (by omega) rfl
    · exact .after (by omega) (by omega)

/-- A number behind the text that has too many digits cannot be written. -/
theorem writes_eq_false {n : Nat} (htext : s.text.length < n) (hlong : 10 ^ Digit.longest ≤ n) :
    s.writes n = false := by
  have hdigits := Decimal.lt_length_ofNat hlong
  rw [writes, Int.natAbs_natCast, Bool.or_eq_false_iff, Bool.and_eq_false_iff]
  exact ⟨.inr (decide_eq_false (by omega)), decide_eq_false (by omega)⟩

end Source

namespace Node

variable {κ : Type} [DecidableEq κ] [CodePoints κ]

/-- What becomes of locations on lines that the text does not have. The tree is judged unless the
validator comes to one whose line is not in the table either, in a node with a range that is right
by itself, or has to tell a number that is too long. If nothing is found wrong in the tree, every
end that is on no line of the text counts back to the range of its node, from the last line or from
what comes after it. -/
theorem violations?_of_strays (s : Source) (n : Node (Json κ)) :
    ((∃ found, n.violations? s = some found) ↔ ∀ m, n.ComesTo m → m.IsJudged s) ∧
    (n.violations? s = some [] → ∀ m ∈ n.preorder,
      (¬(1 ≤ m.loc.start.line ∧ m.loc.start.line ≤ s.count) →
        s.Strays m.range.start m.loc.start) ∧
      (¬(1 ≤ m.loc.stop.line ∧ m.loc.stop.line ≤ s.count) →
        s.Strays m.range.stop m.loc.stop)) := by
  refine ⟨exists_violations?_iff, fun h m hm => ?_⟩
  have hexact := (violations?_eq_nil_iff_forall.mp h m hm).1
  obtain ⟨hstart, hstop⟩ := Source.range?_eq_some hexact.range_eq
  exact ⟨fun hline => (Source.strays_iff hline).mpr hstart,
    fun hline => (Source.strays_iff hline).mpr hstop⟩

/-- A letter on the third line of a text of one letter keeps the tree from being judged, and so does
a range from a number of 4301 digits on. From two before the place after the text to one behind the
start of the last line, the letter is found right. -/
theorem violations?_of_strays_letter :
    (Node.mk (.str (.string ['a'])) ⟨⟨3, 0⟩, ⟨3, 1⟩⟩ ⟨0, 1⟩ (some (.string ['a'])) []).violations?
      (Source.ofText ['a']) = none ∧
    (Node.mk (.str (.string ['a'])) ⟨⟨1, 0⟩, ⟨1, 1⟩⟩ ⟨(10 ^ Digit.longest : Nat), 1⟩
      (some (.string ['a'])) []).violations? (Source.ofText ['a']) = none ∧
    (Node.mk (.str (.string ['a'])) ⟨⟨0, -2⟩, ⟨-1, 1⟩⟩ ⟨0, 1⟩ (some (.string ['a'])) []).violations?
      (Source.ofText ['a']) = some [] ∧
    (Source.ofText ['a']).Strays 0 ⟨0, -2⟩ ∧ (Source.ofText ['a']).Strays 1 ⟨-1, 1⟩ := by
  have hright : (Node.mk (.str (.string ['a'])) ⟨⟨0, -2⟩, ⟨-1, 1⟩⟩ ⟨0, 1⟩ (some (.string ['a']))
      []).violations? (Source.ofText ['a']) = some [] := by
    decide
  have hstrays := (violations?_of_strays _ _).2 hright _ (mem_preorder_self _)
  refine ⟨?_, ?_, hright, hstrays.1 (by decide), hstrays.2 (by decide)⟩
  · refine Option.eq_none_iff_forall_ne_some.mpr fun found hfound => ?_
    have hreaches := ((violations?_of_strays _ _).1.mp ⟨found, hfound⟩ _ (.self _)).reaches
      ⟨by decide, by decide, by decide⟩
    exact absurd hreaches.start.2 (by decide)
  · refine Option.eq_none_iff_forall_ne_some.mpr fun found hfound => ?_
    have hrange := ((violations?_of_strays _ _).1.mp ⟨found, hfound⟩ _ (.self _)).range
    have hwrites : (Source.ofText ['a']).writes (10 ^ Digit.longest : Nat) = true :=
      List.all_eq_true.mp hrange _ List.mem_cons_self
    have hbeyond : 1 < 10 ^ Digit.longest := Nat.one_lt_pow (by decide) (by decide)
    rw [Source.writes_eq_false hbeyond (Nat.le_refl _)] at hwrites
    cases hwrites

end Node

end Asciidoc
