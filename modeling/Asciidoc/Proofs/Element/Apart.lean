import Asciidoc.Proofs.Element.Parts
import Asciidoc.Proofs.Element.Spans

/-!
# Elements whose texts are found apart

Two texts on one line are searched for one at a time, each from the start of the line, so the
second may be found inside the first. Outside of tables there is one place where an element
starts on the line of another: a description behind its term. `Element.TermsFirst` asks that it
is found behind the term.

Lines are searched where they do not stand in two cases: the search steps over the comments in a
literal block between delimiters, which are part of it, and it does not step over the comments
in a paragraph that is a listing by its style, which are not. `Element.IsPlain` leaves these and
tables aside.
-/

namespace Asciidoc

open Text

namespace Source

/-- The column at which a piece is found to start in a line. -/
def startOf? (s : Source) (marker : Text) (line : Int) (piece : Text) : Option Nat :=
  (s.line? line).bind fun text =>
    (Text.find? piece text 0).map fun column => if marker.isPrefixOf piece then 0 else column

/-- The column at which a piece is found to end in a line. -/
def stopOf? (s : Source) (line : Int) (piece : Text) : Option Nat :=
  (s.line? line).bind fun text =>
    (Text.find? piece text 0).map fun column => column + piece.length

/-- The text of an item is not on the line of another item, or found behind the other text. -/
def IsBehind (s : Source) (marker : Text) : Element → Element → Prop
  | .item (some line) (some term) _ _, .item (some other) (some text) _ _ =>
    line = other →
      match s.stopOf? line term, s.startOf? marker line (text.lines.headD []) with
      | some stop, some start => stop ≤ start
      | _, _ => True
  | _, _ => True

variable {s : Source} {marker : Text} {line last : Int} {pieces : List Text} {l : Location}

/-- What starts on another line is behind. -/
theorem isBehind_of_ne {term d : Element} (h : term.line ≠ d.line) : s.IsBehind marker term d := by
  unfold IsBehind
  split
  · intro hline
    exact absurd (congrArg some hline) h
  · trivial

/-- Pieces are located from where the first is found to start. -/
theorem Locates.startOf? (h : s.Locates marker line pieces l)
    (htakes : s.Takes marker line pieces last) :
    ∃ column, s.startOf? marker line (pieces.headD []) = some column ∧
      l.start = ⟨line, column⟩ := by
  have hline := h.start_line htakes
  obtain ⟨piece, entry, column, hpiece, hentry, hcolumn, hstart⟩ := h.start
  have hfound := (s.numbers_taken marker line _).line?_eq (List.mem_of_head? hentry)
  rw [hstart] at hline ⊢
  obtain rfl : entry.1 = line := hline
  refine ⟨if marker.isPrefixOf piece then 0 else column, ?_, ?_⟩
  · rw [Source.startOf?, hfound, List.headD_eq_head?_getD, hpiece]
    simp [hcolumn]
  · split <;> rfl

/-- A single piece is located up to where it is found to end. -/
theorem Locates.stopOf? {piece : Text} (h : s.Locates marker line [piece] l)
    (htakes : s.Takes marker line [piece] line) :
    ∃ column, s.stopOf? line piece = some column ∧ l.stop = ⟨line, column⟩ := by
  have hline := h.stop_line htakes
  obtain ⟨found, entry, column, hpiece, hentry, hcolumn, hstop⟩ := h.stop
  obtain rfl : piece = found := Option.some.inj hpiece
  have hfound := (s.numbers_taken marker line _).line?_eq (List.mem_of_getLast? hentry)
  rw [hstop] at hline ⊢
  obtain rfl : entry.1 = line := hline
  refine ⟨column + piece.length, ?_, by rw [Int.natCast_add]⟩
  rw [Source.stopOf?, hfound]
  simp [hcolumn]

/-! ## Lines that stand one directly after the other -/

/-- Pieces on as many lines as there are pieces stand on lines one directly after the other. -/
theorem Takes.inLines_of_last (h : s.Takes marker line pieces last)
    (hlast : last + 1 ≤ line + pieces.length) :
    List.Forall₂ (fun piece entry => piece <:+: entry.2) pieces
      ((s.numbered.drop (line - 1).toNat).take pieces.length) := by
  have hinLines := h.inLines
  have hnumbers := s.numbers_numbered.sublist (List.drop_sublist (line - 1).toNat _)
  have htake : s.taken marker line pieces.length
      = (s.numbered.drop (line - 1).toNat).take pieces.length := by
    refine (consecutive_numbered_drop s h.bounds.1).take_filter hnumbers.growing
      hinLines.length_eq.symm fun entry hentry => ?_
    have hfinal := h.last
    rw [taken, hentry] at hfinal
    obtain rfl := Option.some.inj hfinal
    exact hlast
  rwa [htake] at hinLines

/-- Lines that stand in the text are in its lines. -/
theorem Stands.inLines {lines : List Text} (h : s.Stands line lines) :
    List.Forall₂ (fun piece entry => piece <:+: entry.2) lines
      ((s.numbered.drop (line - 1).toNat).take lines.length) := by
  conv => arg 2; rw [← h]
  rw [List.forall₂_map_left_iff]
  exact List.forall₂_same.mpr fun entry _ => (dropReturns_isPrefix entry.2).isInfix

/-- Lines that stand in the text have no line feeds in them. -/
theorem Stands.not_mem {lines : List Text} (h : s.Stands line lines) :
    ∀ text ∈ lines, '\n' ∉ text := by
  intro text htext
  rw [← h] at htext
  obtain ⟨entry, hentry, rfl⟩ := List.mem_map.mp htext
  have hfeed := s.numbers_numbered.not_mem (List.mem_of_mem_drop (List.mem_of_mem_take hentry))
  exact fun hmem => hfeed ((dropReturns_isPrefix entry.2).subset hmem)

/-- Lines that stand behind a line are in the lines from there on without the first. -/
theorem Stands.inLines_behind {lines : List Text} (h : s.Stands (line + 1) lines)
    (hline : 1 ≤ line) :
    List.Forall₂ (fun piece entry => piece <:+: entry.2) lines
      (((s.numbered.drop (line - 1).toNat).drop 1).take lines.length) := by
  have hinLines := h.inLines
  rwa [show (line + 1 - 1).toNat = (line - 1).toNat + 1 by omega, ← List.drop_drop] at hinLines

/-- A delimiter and the lines behind it are no comments if none of these lines looks like one. -/
theorem Stands.isKept {lines : List Text} (h : s.Stands (line + 1) lines)
    (hreturn : '\r' ∉ marker) (hline : 1 ≤ line) (hopens : s.opensLiteral marker line = true)
    (hplain : ∀ text ∈ lines, marker.isPrefixOf text = false) :
    ∀ entry ∈ (s.numbered.drop (line - 1).toNat).take (1 + lines.length),
      isKept marker entry = true := by
  intro entry hentry
  rw [List.take_add, List.drop_drop,
    show (line - 1).toNat + 1 = (line + 1 - 1).toNat by omega] at hentry
  rcases List.mem_append.mp hentry with hentry | hentry
  · obtain ⟨index, hindex⟩ := List.mem_iff_getElem?.mp hentry
    rw [List.getElem?_take] at hindex
    split at hindex
    · have hnumber := consecutive_numbered_drop s hline index entry hindex
      obtain rfl : index = 0 := by omega
      have hfound := s.numbers_numbered.line?_eq
        (List.mem_of_mem_drop (List.mem_of_mem_take hentry))
      obtain rfl : entry.1 = line := by omega
      rw [opensLiteral, hfound] at hopens
      have hkind : (Token.ofEntry marker entry).kind = .blockDelimiter .literal :=
        of_decide_eq_true hopens
      exact isKept_of_isKept hreturn (by constructor <;> simp [hkind])
    · cases hindex
  · have hmem : dropReturns entry.2 ∈ lines := by
      rw [← h]
      exact List.mem_map_of_mem hentry
    rw [Source.isKept, ← isPrefixOf_dropReturns hreturn, hplain _ hmem]
    rfl

/-- Pieces that are searched from the line they are taken from are found there. -/
theorem Takes.lines_of_find? (h : s.Takes marker line pieces last) {w : Window}
    (hskip : w.skipComments = true) (hcolumn : w.startColumn = 0) (hmin : w.minLine = line)
    (hmax : last ≤ w.maxLine) (hl : s.find? marker pieces w = some l) :
    l.start.line = line ∧ l.stop.line = last := by
  obtain ⟨found, hfound, hlocates⟩ := h.exists_find?_eq_some hskip hcolumn hmin hmax
  obtain rfl := Option.some.inj (hfound.symm.trans hl)
  exact ⟨hlocates.start_line h, hlocates.stop_line h⟩

end Source

namespace Element

variable {s : Source} {marker : Text}

/-- The descriptions of a description list are found behind their terms. -/
def TermsFirst (s : Source) (marker : Text) : Element → Prop
  | .descriptionList _ _ entries =>
    ∀ entry ∈ entries, ∀ term ∈ entry.terms, ∀ d ∈ entry.description, s.IsBehind marker term d
  | _ => True

/-- An element whose own lines are searched where they stand. -/
def IsPlain (s : Source) (marker : Text) : Element → Prop
  | .table .. | .cell .. => False
  | .literal line lines =>
    line.any (s.opensLiteral marker) = true → ∀ text ∈ lines, marker.isPrefixOf text = false
  | .listing line lines _ => ∀ first ∈ line, s.Stands first lines ∨ s.Stands (first + 1) lines
  | _ => True

/-- In an element that is no description list it is about the elements directly inside it. -/
theorem forall_iff_every {e : Element} {es : List Element} (h : e.TermsFirst s marker)
    (hparts : e.parts = es) :
    (∀ x ∈ es, x.Every (TermsFirst s marker)) ↔ e.Every (TermsFirst s marker) := by
  subst hparts
  exact ⟨fun he => .intro h he, fun he _ hx => he.part hx⟩

/-- In an element with nothing inside it there is nothing to ask. -/
theorem true_iff_every {e : Element} (h : e.TermsFirst s marker) (hparts : e.parts = []) :
    True ↔ e.Every (TermsFirst s marker) :=
  iff_of_true trivial (.intro h (by simp [hparts]))

end Element

end Asciidoc
