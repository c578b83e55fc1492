import Asciidoc.Proofs.Node.Alike
import Asciidoc.Proofs.Reading.Below
import Asciidoc.Proofs.Reading.Spelled
import Asciidoc.Proofs.Text.Returns

/-!
# Converting a text with carriage returns

A text without carriage returns, written with one before every line feed, becomes the same tree
(`convert_withReturns`). Lines are classified without the returns at their ends, so the same
document is read. The search holds the lines with their returns against texts that have none, and
finds them at the same columns; only the empty text could be found behind a line, and no text but
that of an empty cell is empty and looked for from a column on, in the line of the cell, where it is
found at once.
-/

namespace Asciidoc

open Text

/-- Places in a text with a carriage return before every line feed. -/
def Move.returns : Move where
  lines := 0
  offsets line := line - 1
  raw := withReturns

/-- A numbered line and the same with a carriage return at its end, if it has one. -/
def Returned (entry entry' : Int × Text) : Prop :=
  entry'.1 = entry.1 ∧ (entry'.2 = entry.2 ∨ entry'.2 = entry.2 ++ ['\r'])

variable {marker : Text}

/-! ## The document -/

theorem Tokens.numbered_returned (t : Text) :
    List.Forall₂ Returned (numbered t) (numbered t.withReturns) := by
  have hindexed {lines lines' : List Text} (index : Nat)
      (h : List.Forall₂ (fun line line' => line' = line ∨ line' = line ++ ['\r']) lines lines') :
      List.Forall₂ Returned
        ((lines.zipIdx index).map fun entry => ((entry.2 : Int) + 1, entry.1))
        ((lines'.zipIdx index).map fun entry => ((entry.2 : Int) + 1, entry.1)) := by
    induction h generalizing index with
    | nil => exact .nil
    | cons hline _ ih => exact .cons ⟨rfl, hline⟩ (ih (index + 1))
  rw [numbered_eq, numbered_eq, lines_withReturns]
  exact hindexed 0 (forall₂_returned t.lines)

theorem Returned.dropReturns {entry entry' : Int × Text} (h : Returned entry entry') :
    dropReturns entry'.2 = dropReturns entry.2 := by
  rcases h.2 with heq | heq
  · rw [heq]
  · rw [heq, Text.dropReturns, List.reverse_append]
    rfl

/-- The lines are classified the same. -/
theorem Tokens.ofLines?_withReturns (marker : Marker) (t : Text) :
    ofLines? marker (numbered t.withReturns) = ofLines? marker (numbered t) := by
  have hmap {α : Type} (f : Int × Text → α)
      (hf : ∀ entry entry', Returned entry entry' → f entry = f entry') :
      (numbered t.withReturns).map f = (numbered t).map f := by
    rw [eq_comm, ← List.forall₂_eq_eq_eq, List.forall₂_map_left_iff, List.forall₂_map_right_iff]
    exact (numbered_returned t).imp hf
  have hneeds : (numbered t.withReturns).any (fun entry => Token.needsMarker entry.2)
      = (numbered t).any fun entry => Token.needsMarker entry.2 := by
    have hmapped := hmap (fun entry => Token.needsMarker entry.2) fun entry entry' h => by
      rw [Token.needsMarker, Token.needsMarker, h.dropReturns]
    have hany := congrArg (List.any · id) hmapped
    rwa [List.any_map, List.any_map] at hany
  have hlines : ofLines marker.textD (numbered t.withReturns)
      = ofLines marker.textD (numbered t) := by
    have hlast (lines : List (Int × Text)) :
        lines.getLast?.elim 0 (·.1) = (lines.map Prod.fst).getLast?.getD 0 := by
      rw [List.getLast?_map]
      cases lines.getLast? <;> rfl
    rw [ofLines, ofLines, hlast, hlast, hmap Prod.fst fun entry entry' h => h.1.symm]
    congr 1
    exact hmap _ fun entry entry' h => by simp only [Token.ofLine, h.dropReturns, h.1]
  rw [ofLines?_eq, ofLines?_eq, hneeds, hlines]

/-- With carriage returns a text is read as the same document, but for the text that it records. -/
theorem Element.ofText_withReturns (rules : Rules.Reading) (marker : Marker) (t : Text) :
    ofText rules marker t.withReturns =
      ⟨(ofText rules marker t).document.map fun e => e.withSource t.withReturns,
        (ofText rules marker t).notices⟩ := by
  unfold ofText ofLines
  rw [Tokens.ofLines?_withReturns]
  cases Tokens.ofLines? marker (Tokens.numbered t) with
  | none => rfl
  | some tokens =>
    let start : Cursor := { unread := tokens.list }
    have hread : start.readDocument ⟨rules, marker.textD⟩ true t.withReturns
        = (((start.readDocument ⟨rules, marker.textD⟩ true t).1).withSource t.withReturns,
          (start.readDocument ⟨rules, marker.textD⟩ true t).2) := rfl
    dsimp only
    rw [hread]
    cases (start.readDocument ⟨rules, marker.textD⟩ true t).2.fault? with
    | none => rfl
    | some met => rfl

/-- Nothing is further down in a text that nothing stands before. -/
theorem Element.document_down_zero (rules : Rules.Reading) (marker : Marker) (t source : Text) :
    (ofText rules marker t).document.map (fun e => (e.down 0).withSource source)
      = (ofText rules marker t).document.map fun e => e.withSource source := by
  have hnothing := congrArg Loaded.document
    (@ofText_below marker [] rules (fun _ h => absurd h List.not_mem_nil) t)
  rw [show t.below [] = t from rfl] at hnothing
  cases hread : (ofText rules marker t).document with
  | error fault => rfl
  | ok root =>
    rw [hread] at hnothing
    have hroot : root = (root.down 0).withSource t := Except.ok.inj hnothing
    have htwice (e : Element) : (e.withSource t).withSource source = e.withSource source := by
      cases e <;> rfl
    show Except.ok ((root.down 0).withSource source) = Except.ok (root.withSource source)
    rw [← htwice, ← hroot]

/-! ## Where it is found -/

/-- What may be searched: texts without carriage returns, from a column on if they are not empty. -/
def Text.NoReturnFrom (piece : Text) (start : Int) : Prop :=
  '\r' ∉ piece ∧ 0 ≤ start ∧ (piece = [] → start = 0)

/-- A line that is no comment for the search. -/
def Source.Unmarked (s : Source) (marker : Text) (number : Int) : Prop :=
  ∃ (index : Nat) (line : Text), number = index + 1 ∧ s.lines[index]? = some line ∧
    marker.isPrefixOf line = false

theorem Returned.alike (hreturn : '\r' ∉ marker) {entry entry' : Int × Text}
    (h : Returned entry entry') : LineAlike NoReturnFrom (0 : Nat) marker entry entry' := by
  obtain ⟨hnumber, hline | hline⟩ := h
  · exact ⟨by simp [hnumber], by rw [hline], by rw [hline], fun _ _ _ => by rw [hline]⟩
  · refine ⟨by simp [hnumber], by simp [hline], ?_, fun piece start hpiece => ?_⟩
    · rw [hline, isPrefixOf_concat_return hreturn]
    · rw [hline, find?_concat_return hpiece.1 hpiece.2.1 hpiece.2.2]

/-- A text whose first line is empty begins with a line feed, if it is not empty. -/
theorem Text.head?_of_lines {t : Text} (hne : t ≠ []) (h : t.lines.head? = some []) :
    t.head? = some '\n' := by
  obtain ⟨c, rest, rfl⟩ := List.exists_cons_of_ne_nil hne
  by_cases hc : c = '\n'
  · rw [hc]
    rfl
  · rw [lines, split, if_neg hc] at h
    split at h <;> cases h

theorem Text.find?_empty {line : Text} {column : Nat} (h : column ≤ line.length) :
    Text.find? [] line column = some column := by
  have hcolumn : Text.column line.length (column : Int) = column := by
    rw [Text.column, if_neg (by omega), Int.toNat_natCast]
  have hoccurs (t : Text) : occurrence? [] t = some 0 := by
    cases t <;> rfl
  rw [Text.find?, hcolumn, if_neg (by omega), hoccurs]
  rfl

theorem Window.match?_empty {line : Text} {column : Nat} (w : Window) (number : Int)
    (hmarker : marker.isPrefixOf line = false)
    (hfind : Text.find? [] line w.startColumn = some column) (rest : List (Int × Text)) :
    w.match? marker [] [] ((number, line) :: rest)
      = some ⟨⟨number, if marker.isPrefixOf [] then 0 else column⟩, ⟨number, column⟩⟩ := by
  have hpass : w.pass marker ((number, line) :: rest) = (number, line) :: rest := by
    rw [pass]
    split
    · exact List.dropWhile_cons_of_neg (by simp [hmarker])
    · rfl
  rw [match?, hpass]
  dsimp only
  rw [hfind]
  simp [stop?]

namespace Source

theorem alike_withReturns (hreturn : '\r' ∉ marker) (t : Text) :
    (ofText t).Alike NoReturnFrom 0 marker (ofText t.withReturns) :=
  (Tokens.numbered_returned t).imp fun _ _ => Returned.alike hreturn

/-- Lines start further on by a return for each line before them. -/
theorem lineStart_returned {lines : List Text} {index : Nat} (h : index < lines.length) :
    lineStart (returned lines) index = lineStart lines index + index := by
  induction lines using returned.induct generalizing index with
  | case1 line next rest ih =>
    cases index with
    | zero => simp
    | succ index =>
      rw [returned, lineStart_cons_succ, lineStart_cons_succ, ih (by simpa using h),
        List.length_append, List.length_singleton]
      omega
  | case2 lines hshort =>
    rcases lines with _ | ⟨line, _ | ⟨next, rest⟩⟩
    · cases h
    · obtain rfl : index = 0 := by simpa using h
      simp
    · exact absurd rfl (hshort line next rest)

theorem offset?_withReturns (t : Text) {p : Position} {o : Int} (hp : (ofText t).HasPosition p)
    (ho : (ofText t).offset? p = some o) :
    (ofText t.withReturns).offset? (p.down 0) = some (o + (p.line - 1)) := by
  obtain ⟨index, column, line, hline, -, rfl⟩ := hasPosition_iff.mp hp
  have hindex : index < (ofText t).count := (List.getElem?_eq_some_iff.mp hline).1
  have hlines : (ofText t.withReturns).lines = returned (ofText t).lines := lines_withReturns t
  have hindex' : index ≤ (ofText t.withReturns).count := by
    rw [count, hlines, length_returned]
    exact Nat.le_of_lt hindex
  rw [offset?_eq (Nat.le_of_lt hindex)] at ho
  obtain rfl := Option.some.inj ho
  have hposition : (⟨(index : Int) + 1, column⟩ : Position).down 0 = ⟨(index : Int) + 1, column⟩ := by
    simp [Position.down]
  rw [hposition, offset?_eq hindex', hlines, lineStart_returned hindex]
  congr 1
  dsimp only
  omega

/-- Up to a position there stand the lines before it and the start of its own. -/
theorem take_offset {s : Source} {p : Position} {o : Nat} (hp : s.HasPosition p)
    (ho : s.offset? p = some (o : Int)) : ∃ (before : List Text) (start : Text),
      p.line = before.length + 1 ∧ (∀ line ∈ before, '\n' ∉ line) ∧ '\n' ∉ start ∧
        s.text.take o = before.flatMap (· ++ ['\n']) ++ start ∧ (s.text.take o).length = o := by
  obtain ⟨index, column, line, hline, hcolumn, rfl⟩ := hasPosition_iff.mp hp
  obtain ⟨hindex, rfl⟩ := List.getElem?_eq_some_iff.mp hline
  have hlines : ∀ line ∈ s.lines, '\n' ∉ line := by
    rw [s.lines_eq]
    exact not_mem_of_mem_split '\n' s.text
  have hsplit := List.take_append_drop index s.lines
  rw [List.drop_eq_getElem_cons hindex] at hsplit
  have hlength : (s.lines.take index).length = index :=
    List.length_take_of_le (Nat.le_of_lt hindex)
  obtain ⟨behind, hbehind⟩ := exists_unlines_cons s.lines[index] (s.lines.drop (index + 1))
  have htext : s.text
      = (s.lines.take index).flatMap (· ++ ['\n']) ++ (s.lines[index] ++ behind) := by
    rw [← hbehind, ← unlines_append _ (List.cons_ne_nil _ _), hsplit, ← s.text_eq]
  have hoffset : o = ((s.lines.take index).flatMap (· ++ ['\n'])).length + column :=
    Int.ofNat.inj (offset_behind hsplit.symm column (hlength.symm ▸ ho))
  have htake : s.text.take o
      = (s.lines.take index).flatMap (· ++ ['\n']) ++ s.lines[index].take column := by
    rw [hoffset, htext, List.take_length_add_append, List.take_append_of_le_length hcolumn]
  refine ⟨s.lines.take index, s.lines[index].take column, by rw [hlength],
    fun line hline => hlines line (List.mem_of_mem_take hline), fun hmem => ?_, htake, ?_⟩
  · exact hlines _ (List.getElem_mem hindex) (List.mem_of_mem_take hmem)
  · rw [htake, List.length_append, List.length_take, Nat.min_eq_left hcolumn, ← hoffset]

theorem count_lines {before : List Text} (h : ∀ line ∈ before, '\n' ∉ line) :
    (before.flatMap (· ++ ['\n'])).count '\n' = before.length := by
  induction before with
  | nil => rfl
  | cons line rest ih =>
    obtain ⟨hline, hrest⟩ := List.forall_mem_cons.mp h
    rw [List.flatMap_cons, List.count_append, List.count_append, List.count_eq_zero.mpr hline,
      ih hrest, List.count_singleton_self, List.length_cons]
    omega

/-- Up to a position there are as many line feeds as lines before it. -/
theorem length_withReturns_take (t : Text) {p : Position} {o : Nat}
    (hp : (ofText t).HasPosition p) (ho : (ofText t).offset? p = some (o : Int)) :
    ((withReturns (t.take o)).length : Int) = o + (p.line - 1) := by
  obtain ⟨before, start, hline, hbefore, hstart, htake, hlength⟩ := take_offset hp ho
  have hcount := congrArg (List.count '\n') htake
  rw [List.count_append, count_lines hbefore, List.count_eq_zero.mpr hstart] at hcount
  rw [length_withReturns, show (t.take o).length = o from hlength,
    show (t.take o).count '\n' = before.length from hcount, hline]
  omega

theorem slice_withReturns (t : Text) {l : Location} {r : Range} (hl : (ofText t).HasLocation l)
    (hr : (ofText t).range? l = some r) :
    (ofText t.withReturns).slice (r.moved .returns l) = withReturns ((ofText t).slice r) := by
  obtain ⟨hstart, hstop⟩ := range?_eq_some hr
  obtain ⟨a, ha⟩ := Int.eq_ofNat_of_zero_le (hl.1.offset_le hstart).1
  obtain ⟨b, hb⟩ := Int.eq_ofNat_of_zero_le (hl.2.offset_le hstop).1
  rw [ha] at hstart
  rw [hb] at hstop
  show Text.slice t.withReturns (r.start + (l.start.line - 1)) (r.stop + (l.stop.line - 1))
    = withReturns (Text.slice t r.start r.stop)
  rw [ha, hb, ← length_withReturns_take t hl.1 hstart, ← length_withReturns_take t hl.2 hstop]
  exact Text.slice_withReturns t a b

/-- The empty text is found at once, on a line that is no comment. -/
theorem find?_empty {s : Source} {w : Window} (hmarked : s.Unmarked marker w.minLine)
    (hposition : s.HasPosition ⟨w.minLine, w.startColumn⟩) :
    (s.find? marker [[]] w = if (w.candidates s.count 1).2 = 0 then none else
      some ⟨⟨w.minLine, if marker.isPrefixOf [] then 0 else w.startColumn⟩,
        ⟨w.minLine, w.startColumn⟩⟩) ∧
      s.needsMarker [[]] w = decide ((w.candidates s.count 1).2 ≠ 0) := by
  obtain ⟨index, line, hnumber, hline, hmarker⟩ := hmarked
  obtain ⟨index', column, line', hline', hcolumn, heq⟩ := hasPosition_iff.mp hposition
  obtain ⟨hnumber', hstart⟩ := Position.mk.inj heq
  obtain rfl : index = index' := by omega
  obtain rfl : line = line' := Option.some.inj (hline.symm.trans hline')
  have hfirst : (w.candidates s.count 1).1 = index + 1 := by
    show max w.minLine 1 = _
    omega
  have hindex : index < s.lines.length := (List.getElem?_eq_some_iff.mp hline).1
  have hlines : s.lines.drop index = line :: s.lines.drop (index + 1) := by
    rw [List.drop_eq_getElem_cons hindex, (List.getElem?_eq_some_iff.mp hline).2]
  obtain ⟨rest, hnumbered⟩ : ∃ rest, s.numbered.drop index = ((index : Int) + 1, line) :: rest := by
    have hlength : index < s.numbered.length := s.length_numbered ▸ hindex
    obtain ⟨hentry, hentry'⟩ := line_of_getElem?_numbered (List.getElem?_eq_getElem hlength)
    refine ⟨_, (List.drop_eq_getElem_cons hlength).trans (congrArg (· :: _) (Prod.ext hentry ?_))⟩
    exact Option.some.inj (hentry'.symm.trans hline)
  have hfind : Text.find? [] line w.startColumn = some column := by
    rw [hstart]
    exact Text.find?_empty hcolumn
  have hmatch := w.match?_empty (index + 1) hmarker hfind rest
  rw [find?, needsMarker]
  dsimp only [List.length_singleton]
  rw [hfirst, Int.add_sub_cancel, Int.toNat_natCast, hnumbered, hlines]
  cases (w.candidates s.count 1).2 with
  | zero => exact ⟨rfl, rfl⟩
  | succ tries =>
    rw [Window.search?, hmatch, List.take_succ_cons, List.any_cons, hfind, hnumber, hstart]
    simp

/-- So it is in a text with lines that are alike, at the same column. -/
theorem Alike.find?_empty {A : Text → Int → Prop} {k : Nat} {s s' : Source} {w : Window}
    (h : s.Alike A k marker s') (hline : 1 ≤ w.minLine) (hmarked : s.Unmarked marker w.minLine)
    (hposition : s.HasPosition ⟨w.minLine, w.startColumn⟩) :
    s'.find? marker [[]] (w.down k) = (s.find? marker [[]] w).map (Location.down k) ∧
      s'.needsMarker [[]] (w.down k) = s.needsMarker [[]] w := by
  have hmarked' : s'.Unmarked marker (w.down k).minLine := by
    obtain ⟨index, line, hnumber, hline, hmarker⟩ := hmarked
    obtain ⟨line', hline', -, hmarked⟩ := h.line hline
    refine ⟨k + index, line', ?_, hline', hmarked.trans hmarker⟩
    rw [Window.down, hnumber]
    dsimp only
    omega
  obtain ⟨hfind, hneeds⟩ := Source.find?_empty hmarked hposition
  obtain ⟨hfind', hneeds'⟩ := Source.find?_empty hmarked' (h.hasPosition hposition)
  rw [h.candidates hline] at hfind' hneeds'
  refine ⟨?_, hneeds'.trans hneeds.symm⟩
  rw [hfind', hfind]
  split <;> rfl

/-- In a text without carriage returns cells start on lines that are no comments. -/
theorem tokens_spelled (hreturn : '\r' ∉ marker) {t : Text} (ht : '\r' ∉ t) :
    ∀ u ∈ (ofText t).tokens marker, u.SpelledIn (· ≠ '\r') ((ofText t).Unmarked marker) := by
  intro u hu
  obtain ⟨entry, hentry, rfl⟩ := List.mem_map.mp hu
  obtain ⟨index, hnumber, hline⟩ := (ofText t).numbers_numbered.lines_eq entry hentry
  have hpiece : entry.2 <:+: t := infix_of_mem_split (List.mem_of_getElem? hline)
  apply Token.ofLine_spelled
  · intro c hc hreturn
    exact ht (hpiece.subset (hreturn ▸ hc))
  · intro hcomment hblank hbar
    refine ⟨index, entry.2, hnumber, hline, ?_⟩
    rw [← isPrefixOf_dropReturns hreturn]
    exact Token.not_isPrefixOf_of_bar hbar hblank hcomment

end Source

/-! ## Trees -/

/-- A text and the same with carriage returns are searched alike. -/
theorem Rules.locating_withReturns (rules : Rules) (hreturn : '\r' ∉ rules.marker.textD) (t : Text) :
    (rules.locating t).Follows (· ≠ '\r') ((Source.ofText t).Unmarked rules.marker.textD) .returns
      (rules.locating t.withReturns) := by
  have halike : (rules.locating t).source.Alike NoReturnFrom 0 (rules.locating t).marker.textD
      (rules.locating t.withReturns).source := Source.alike_withReturns hreturn t
  have hpiece {piece : Text} (h : ∀ c ∈ piece, c ≠ '\r') : piece.NoReturnFrom 0 :=
    ⟨fun hmem => h '\r' hmem rfl, Int.le_refl 0, fun _ => rfl⟩
  refine Locating.follows_of_alike halike rfl rfl rfl (by decide) (fun _ => hpiece)
    (Source.offset?_withReturns t) (Source.slice_withReturns t) ?_
  intro kind line text w htext hhead hline hmarked hposition
  have hlines : ∀ piece ∈ text.lines, ∀ c ∈ piece, c ≠ '\r' := fun piece hmem c hc =>
    htext c ((infix_of_mem_split hmem).subset hc)
  by_cases hempty : text = []
  · subst hempty
    obtain ⟨hfind, hneeds⟩ := halike.find?_empty hline hmarked hposition
    refine Locating.find_moved ?_ hfind hneeds kind line
    rfl
  · refine Locating.find_alike halike rfl rfl kind line hline (fun piece hfirst => ?_)
      fun piece hmem => hpiece (hlines piece hmem)
    refine ⟨fun hmem => hlines piece (List.mem_of_head? hfirst) '\r' hmem rfl, ?_, fun hnil => ?_⟩
    · exact hposition.column_nonneg
    · exact absurd (head?_of_lines hempty (hnil ▸ hfirst)) hhead

/-- What a text without carriage returns is converted to with one before every line feed: the same
document, and the same tree with the same locations, every offset greater by the number of lines
before it, and the returns in the pieces of the text. -/
theorem convert_withReturns (rules : Rules) (hmarker : '\r' ∉ rules.marker.textD) (t : Text)
    (ht : '\r' ∉ t) :
    ((Element.ofText rules.reading rules.marker t.withReturns).document
        = (Element.ofText rules.reading rules.marker t).document.map fun e =>
          e.withSource t.withReturns) ∧
      Conversion.Moved .returns (Conversion.ofText rules t).result
        (Conversion.ofText rules t.withReturns).result := by
  have hload := congrArg Loaded.document
    (Element.ofText_withReturns rules.reading rules.marker t)
  refine ⟨hload, ?_⟩
  apply Conversion.ofText_follows (rules.locating_withReturns hmarker t)
  · exact hload.trans (Element.document_down_zero _ _ _ _).symm
  · intro root hroot
    exact Element.ofText_hintedIn hroot (by decide) (Source.tokens_spelled hmarker ht)

/-- Two paragraphs with a blank line between them. -/
theorem convert_withReturns_twoParagraphs :
    '\r' ∉ ({} : Rules).marker.textD ∧ '\r' ∉ "a\n\nb".toList ∧
    (Conversion.ofText {} "a\r\n\r\nb".toList).result =
      .ok (.mk .document ⟨⟨1, 0⟩, ⟨3, 1⟩⟩ ⟨0, 6⟩ (some "a\r\n\r\nb".toList)
        [.mk .paragraph ⟨⟨1, 0⟩, ⟨1, 1⟩⟩ ⟨0, 1⟩ (some ['a'])
          [.mk (.str ['a']) ⟨⟨1, 0⟩, ⟨1, 1⟩⟩ ⟨0, 1⟩ (some ['a']) []],
        .mk .paragraph ⟨⟨3, 0⟩, ⟨3, 1⟩⟩ ⟨5, 6⟩ (some ['b'])
          [.mk (.str ['b']) ⟨⟨3, 0⟩, ⟨3, 1⟩⟩ ⟨5, 6⟩ (some ['b']) []]]) := by
  have hmarker : '\r' ∉ ({} : Rules).marker.textD := by decide
  have htext : '\r' ∉ "a\n\nb".toList := by decide
  have hresult : (Conversion.ofText {} "a\n\nb".toList).result =
      .ok (.mk .document ⟨⟨1, 0⟩, ⟨3, 1⟩⟩ ⟨0, 4⟩ (some "a\n\nb".toList)
        [.mk .paragraph ⟨⟨1, 0⟩, ⟨1, 1⟩⟩ ⟨0, 1⟩ (some ['a'])
          [.mk (.str ['a']) ⟨⟨1, 0⟩, ⟨1, 1⟩⟩ ⟨0, 1⟩ (some ['a']) []],
        .mk .paragraph ⟨⟨3, 0⟩, ⟨3, 1⟩⟩ ⟨3, 4⟩ (some ['b'])
          [.mk (.str ['b']) ⟨⟨3, 0⟩, ⟨3, 1⟩⟩ ⟨3, 4⟩ (some ['b']) []]]) := by
    with_unfolding_all rfl
  obtain ⟨-, hmoved⟩ := convert_withReturns {} hmarker "a\n\nb".toList htext
  refine ⟨hmarker, htext, ?_⟩
  show (Conversion.ofText {} (withReturns "a\n\nb".toList)).result = _
  rw [hresult] at hmoved
  generalize (Conversion.ofText {} (withReturns "a\n\nb".toList)).result = moved at hmoved ⊢
  cases hmoved with
  | tree h =>
    rw [h.moved nofun]
    rfl

end Asciidoc
