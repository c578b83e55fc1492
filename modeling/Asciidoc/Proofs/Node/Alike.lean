import Asciidoc.Proofs.Node.Moved
import Asciidoc.Proofs.Span.Found

/-!
# Lines that are searched alike

A search holds what it expects against one line after the other. Where each line of a text has a
line of another standing for it, further down, that is passed by when it is and has the same pieces
at the same columns, the search of the other text goes the same way and ends at the line that
stands for the one it ends at (`Source.Alike.find?`). With that two texts are searched alike
wherever offsets and pieces of the text agree as well (`Source.Alike.follows`).
-/

namespace Asciidoc

open Text

/-- A line of a text and one that stands for it in another text. What `A` admits to be searched,
a piece from a column on, is in both at the same column. -/
structure LineAlike (A : Text → Int → Prop) (k : Int) (marker : Text)
    (entry entry' : Int × Text) : Prop where
  number : entry'.1 = entry.1 + k
  length : entry.2.length ≤ entry'.2.length
  marked : marker.isPrefixOf entry'.2 = marker.isPrefixOf entry.2
  found : ∀ piece start, A piece start → find? piece entry'.2 start = find? piece entry.2 start

/-- The lines of a text have lines standing for them in another text, behind some others. -/
def Source.Alike (A : Text → Int → Prop) (k : Nat) (marker : Text) (s s' : Source) : Prop :=
  List.Forall₂ (LineAlike A k marker) s.numbered (s'.numbered.drop k)

variable {A : Text → Int → Prop} {marker first : Text} {others : List Text} {w : Window}
  {lines lines' : List (Int × Text)}

/-! ## Steps of a search -/

namespace Window

variable {k : Int}

variable (w) in
theorem pass_alike (h : List.Forall₂ (LineAlike A k marker) lines lines') :
    List.Forall₂ (LineAlike A k marker) (w.pass marker lines) ((w.down k).pass marker lines') := by
  have hskip : (w.down k).skipComments = w.skipComments := rfl
  rw [pass, pass, hskip]
  split
  · induction h with
    | nil => exact .nil
    | cons hline hrest ih =>
      simp only [List.dropWhile_cons, hline.marked]
      split
      · exact ih
      · exact .cons hline hrest
  · exact h

variable (w) in
theorem stop?_alike (reached : Position) {expected : List Text}
    (hexpected : ∀ piece ∈ expected, A piece 0)
    (h : List.Forall₂ (LineAlike A k marker) lines lines') :
    (w.down k).stop? marker (reached.down k) expected lines'
      = (w.stop? marker reached expected lines).map (Position.down k) := by
  induction expected generalizing reached lines lines' with
  | nil => rfl
  | cons piece others ih =>
    obtain ⟨hpiece, hothers⟩ := List.forall_mem_cons.mp hexpected
    rw [stop?, stop?]
    have hpass := w.pass_alike h
    generalize w.pass marker lines = kept at hpass ⊢
    generalize (w.down k).pass marker lines' = kept' at hpass ⊢
    cases hpass with
    | nil => rfl
    | @cons entry entry' rest rest' hline hrest =>
      dsimp only
      rw [hline.found piece 0 hpiece, hline.number]
      cases Text.find? piece entry.2 0 with
      | none => rfl
      | some column => exact ih ⟨entry.1, column + piece.length⟩ hothers hrest

theorem match?_alike (hfirst : A first w.startColumn) (hothers : ∀ piece ∈ others, A piece 0)
    (h : List.Forall₂ (LineAlike A k marker) lines lines') :
    (w.down k).match? marker first others lines'
      = (w.match? marker first others lines).map (Location.down k) := by
  have hcolumn : (w.down k).startColumn = w.startColumn := rfl
  rw [match?, match?, hcolumn]
  have hpass := w.pass_alike h
  generalize w.pass marker lines = kept at hpass ⊢
  generalize (w.down k).pass marker lines' = kept' at hpass ⊢
  cases hpass with
  | nil => rfl
  | @cons entry entry' rest rest' hline hrest =>
    dsimp only
    rw [hline.found first w.startColumn hfirst, hline.number]
    cases Text.find? first entry.2 w.startColumn with
    | none => rfl
    | some column =>
      have hstop := w.stop?_alike ⟨entry.1, column + first.length⟩ hothers hrest
      dsimp only [Position.down] at hstop ⊢
      rw [hstop, Option.map_map, Option.map_map]
      rfl

theorem search?_alike (hfirst : A first w.startColumn) (hothers : ∀ piece ∈ others, A piece 0)
    (tries : Nat) (h : List.Forall₂ (LineAlike A k marker) lines lines') :
    (w.down k).search? marker first others tries lines'
      = (w.search? marker first others tries lines).map (Location.down k) := by
  induction tries generalizing lines lines' with
  | zero => rfl
  | succ tries ih =>
    have hmatch := match?_alike hfirst hothers h
    cases h with
    | nil => rfl
    | cons hline hrest =>
      rw [search?, search?, hmatch, ih hrest]
      cases w.match? marker first others _ <;> rfl

end Window

namespace Source.Alike

variable {s s' : Source} {k : Nat}

theorem count (h : s.Alike A k marker s') : s'.count = s.count + k := by
  have hlength := List.Forall₂.length_eq h
  have hpos := s.count_pos
  rw [List.length_drop, length_numbered, length_numbered] at hlength
  omega

/-- The lines to try are as many, further down. -/
theorem candidates (h : s.Alike A k marker s') (hline : 1 ≤ w.minLine) (expected : Nat) :
    (w.down k).candidates s'.count expected
      = ((w.candidates s.count expected).1 + k, (w.candidates s.count expected).2) := by
  rw [Window.candidates, Window.candidates, h.count]
  dsimp only [Window.down]
  refine Prod.ext ?_ ?_ <;> dsimp only <;> omega

/-- The lines from one on are alike. -/
theorem drop (h : s.Alike A k marker s') {start : Int} (hstart : 1 ≤ start) :
    List.Forall₂ (LineAlike A k marker) (s.numbered.drop (start - 1).toNat)
      (s'.numbered.drop (start + k - 1).toNat) := by
  have hdrop := List.forall₂_drop (start - 1).toNat h
  rw [List.drop_drop] at hdrop
  rw [show (start + k - 1).toNat = k + (start - 1).toNat by omega]
  exact hdrop

theorem find? (h : s.Alike A k marker s') (hline : 1 ≤ w.minLine)
    (hfirst : A first w.startColumn) (hothers : ∀ piece ∈ others, A piece 0) :
    s'.find? marker (first :: others) (w.down k)
      = (s.find? marker (first :: others) w).map (Location.down k) := by
  rw [Source.find?, Source.find?, h.candidates hline]
  exact Window.search?_alike hfirst hothers _ (h.drop (Int.le_max_right _ _))

/-- Whether a search comes to the marker is told from the lines to try alone. -/
theorem needsMarker (h : s.Alike A k marker s') (hline : 1 ≤ w.minLine)
    (hfirst : A first w.startColumn) :
    s'.needsMarker (first :: others) (w.down k) = s.needsMarker (first :: others) w := by
  have hcolumn : (w.down k).startColumn = w.startColumn := rfl
  have hskip : (w.down k).skipComments = w.skipComments := rfl
  have hlines (s : Source) : s.lines = s.numbered.map Prod.snd := by
    simp [numbered, Function.comp_def]
  rw [Source.needsMarker, Source.needsMarker, h.candidates hline, hcolumn, hskip]
  have hstart : 1 ≤ (w.candidates s.count (first :: others).length).1 := Int.le_max_right _ _
  generalize w.candidates s.count (first :: others).length = candidates at hstart ⊢
  have htried := List.forall₂_take candidates.2 (h.drop hstart)
  dsimp only
  rw [hlines, hlines, ← List.map_drop, ← List.map_drop, ← List.map_take, ← List.map_take,
    List.any_map, List.any_map]
  generalize (s.numbered.drop _).take candidates.2 = tried at htried ⊢
  generalize (s'.numbered.drop _).take candidates.2 = tried' at htried ⊢
  induction htried with
  | nil => rfl
  | cons hentry _ ih =>
    rw [List.any_cons, List.any_cons, ih]
    dsimp only [Function.comp_apply]
    rw [hentry.found first w.startColumn hfirst]

/-- Every line has one that stands for it. -/
theorem line (h : s.Alike A k marker s') {index : Nat} {line : Text}
    (hline : s.lines[index]? = some line) :
    ∃ line', s'.lines[k + index]? = some line' ∧ line.length ≤ line'.length ∧
      marker.isPrefixOf line' = marker.isPrefixOf line := by
  have hnumbered : s.numbered[index]? = some ((index : Int) + 1, line) := by
    rw [numbered, List.getElem?_map, List.getElem?_zipIdx, hline]
    simp
  obtain ⟨hindex, hentry⟩ := List.getElem?_eq_some_iff.mp hnumbered
  have hindex' := List.Forall₂.length_eq h ▸ hindex
  have halike := List.Forall₂.get h hindex hindex'
  rw [List.get_eq_getElem, List.get_eq_getElem, hentry, List.getElem_drop] at halike
  have hnumbered' := List.getElem?_eq_getElem (l := s'.numbered) (i := k + index)
    (by rw [List.length_drop] at hindex'; omega)
  exact ⟨_, (line_of_getElem?_numbered hnumbered').2, halike.length, halike.marked⟩

theorem hasPosition (h : s.Alike A k marker s') {p : Position} (hp : s.HasPosition p) :
    s'.HasPosition (p.down k) := by
  obtain ⟨index, column, line, hline, hcolumn, rfl⟩ := hasPosition_iff.mp hp
  obtain ⟨line', hline', hlength, -⟩ := h.line hline
  refine hasPosition_iff.mpr ⟨k + index, column, line', hline', hcolumn.trans hlength, ?_⟩
  rw [Position.down, Position.mk.injEq]
  dsimp only
  exact ⟨by omega, rfl⟩

end Source.Alike

/-! ## Texts that are searched alike -/

namespace Locating

variable {P : Char → Prop} {B : Int → Prop} {k : Nat} {m : Move} {env env' : Locating}

theorem find_moved {expected : List Text} (hmarker : env'.marker = env.marker)
    (hfind : env'.source.find? env.marker.textD expected (w.down m.lines)
      = (env.source.find? env.marker.textD expected w).map (Location.down m.lines))
    (hneeds : env'.source.needsMarker expected (w.down m.lines)
      = env.source.needsMarker expected w) (kind : Text) (line : Hint) :
    env'.find kind (Hint.down m.lines line) expected (w.down m.lines)
      = m.found (env.find kind line expected w) := by
  rw [find, find, hmarker, hfind, hneeds]
  split
  · rfl
  · cases env.source.find? env.marker.textD expected w <;> rfl

/-- A search for what is admitted finds the same, moved. -/
theorem find_alike (h : env.source.Alike A k env.marker.textD env'.source)
    (hmarker : env'.marker = env.marker) (hlines : m.lines = k) (kind : Text) (line : Hint)
    {expected : List Text} (hline : 1 ≤ w.minLine)
    (hfirst : ∀ piece, expected.head? = some piece → A piece w.startColumn)
    (hothers : ∀ piece ∈ expected, A piece 0) :
    env'.find kind (Hint.down m.lines line) expected (w.down m.lines)
      = m.found (env.find kind line expected w) := by
  cases expected with
  | nil =>
    apply find_moved hmarker
    · rfl
    · rfl
  | cons first others =>
    apply find_moved hmarker
    · rw [hlines]
      exact h.find? hline (hfirst first rfl) (List.forall_mem_cons.mp hothers).2
    · rw [hlines]
      exact h.needsMarker hline (hfirst first rfl)

/-- Texts with lines that are alike are searched alike, where offsets and pieces agree as well and
cells are found. -/
theorem follows_of_alike (h : env.source.Alike A k env.marker.textD env'.source)
    (hmarker : env'.marker = env.marker) (hlines : m.lines = k)
    (hheader : env'.includeTableHeader = env.includeTableHeader) (hnewline : P '\n')
    (hpiece : ∀ piece : Text, (∀ c ∈ piece, P c) → A piece 0)
    (hoffset : ∀ {p : Position} {o : Int}, env.source.HasPosition p →
      env.source.offset? p = some o →
        env'.source.offset? (p.down m.lines) = some (o + m.offsets p.line))
    (hslice : ∀ {l : Location} {r : Range}, env.source.HasLocation l →
      env.source.range? l = some r →
        env'.source.slice (r.moved m l) = m.raw (env.source.slice r))
    (hcell : ∀ (kind : Text) (line : Hint) {text : Text} {w : Window},
      (∀ c ∈ text, P c) → text.head? ≠ some '\n' → 1 ≤ w.minLine → B w.minLine →
        env.source.HasPosition ⟨w.minLine, w.startColumn⟩ →
          env'.find kind (Hint.down m.lines line) text.lines (w.down m.lines)
            = m.found (env.find kind line text.lines w)) :
    env.Follows P B m env' where
  newline := hnewline
  includeTableHeader := hheader
  count := by
    rw [h.count, hlines]
    exact Int.natCast_add _ _
  hasPosition hp := hlines ▸ h.hasPosition hp
  offset := hoffset
  slice := hslice
  find kind line _ _ hexpected hline hcolumn :=
    find_alike h hmarker hlines kind line hline
      (fun piece hfirst => hcolumn ▸ hpiece piece (hexpected piece (List.mem_of_head? hfirst)))
      fun piece hmem => hpiece piece (hexpected piece hmem)
  findCell := hcell

end Locating

end Asciidoc
