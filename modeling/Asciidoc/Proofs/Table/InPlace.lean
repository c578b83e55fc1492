import Asciidoc.Proofs.Reading.Spelled
import Asciidoc.Proofs.Reading.Tables
import Asciidoc.Proofs.Span.Begins

/-!
# Where the texts of cells are found

The text of a cell is searched from the line of its bar on, and from the column where the cell
before it in its row was found to end. It is found where it was gathered exactly if it stands there
as the search expects it (`PendingCell.IsOffered`): its lines follow one another but for comments,
and where none of them is on the line of the bar, they do not stand from that line on as well
(`PendingCell.InTable.find?_iff`).

A cell whose text begins on the line of its bar and goes on without a gap is always found there, if
the search does not begin behind it, and it is found to end no later than its text does
(`PendingCell.InTable.find?_unbroken`).
-/

namespace Asciidoc

open Text

theorem Text.OccursAt.of_isPrefix {needle t line : Text} {column : Nat}
    (h : needle.OccursAt t column) (ht : t <+: line) : needle.OccursAt line column := by
  obtain ⟨behind, rfl⟩ := ht
  refine ⟨Nat.le_trans h.1 (by simp), ?_⟩
  rw [List.drop_append_of_le_length h.1]
  exact h.2.trans (List.prefix_append _ _)

namespace Table

variable {s : Source} {marker : Text} {opening : Token} {body after : List Token}
  {p : PendingCell} {w : Window}

/-! ## The text of a cell -/

/-- The text of a cell begins with the first of its lines that is not empty. -/
theorem PendingCell.exists_lines {first : Int × Text} (h : p.content.head? = some first) :
    ∃ before rest, p.lines = before ++ first :: rest ∧ (∀ entry ∈ before, entry.2 = []) ∧
      first.2 ≠ [] := by
  have hsplit : p.lines = p.lines.takeWhile (·.2.isEmpty) ++ p.lines.dropWhile (·.2.isEmpty) :=
    List.takeWhile_append_dropWhile.symm
  have hbegins : p.content <+: p.lines.dropWhile (·.2.isEmpty) := by
    rw [← List.reverse_suffix, content, List.reverse_reverse]
    exact List.dropWhile_suffix _
  obtain ⟨more, hmore⟩ := List.head?_eq_some_iff.mp h
  obtain ⟨behind, hbehind⟩ := hbegins
  rw [hmore, List.cons_append] at hbehind
  refine ⟨_, _, hbehind ▸ hsplit, fun entry hentry => ?_, ?_⟩
  · simpa using List.mem_takeWhile_imp hentry
  · have hhead := List.head?_dropWhile_not (·.2.isEmpty) p.lines
    rw [← hbehind] at hhead
    simpa using hhead

/-- A cell without a text has only empty lines. -/
theorem PendingCell.forall_of_content_eq_nil (h : p.content = []) :
    ∀ entry ∈ p.lines, entry.2 = [] := by
  rw [content, List.reverse_eq_nil_iff, List.dropWhile_eq_nil_iff] at h
  intro entry hentry
  rw [← List.takeWhile_append_dropWhile (p := (·.2.isEmpty)) (l := p.lines)] at hentry
  rcases List.mem_append.mp hentry with hentry | hentry
  · simpa using List.mem_takeWhile_imp hentry
  · exact List.isEmpty_iff.mp (h entry (List.mem_reverse.mpr hentry))

theorem PendingCell.text_eq_nil_iff : p.text = [] ↔ p.content = [] := by
  refine ⟨fun h => ?_, fun h => by rw [text, h]; rfl⟩
  cases hcontent : p.content with
  | nil => rfl
  | cons first rest =>
    have hfirst : p.content.head? = some first := by rw [hcontent, List.head?_cons]
    obtain ⟨_, _, -, -, hne⟩ := p.exists_lines hfirst
    rw [text, hcontent] at h
    exact absurd h (unlines_ne_nil hne _)

/-! ## The lines of a table -/

/-- The lines of a table in a text are lines of the text. -/
theorem areLines_body (h : opening :: (body ++ after) <:+ s.tokens marker) :
    Reading.AreLines body := by
  have hunread := (Reading.areLines_tokens s marker).suffix ((List.suffix_cons _ _).trans h)
  obtain ⟨hgrow, hblank⟩ := hunread
  exact ⟨(List.pairwise_append.mp hgrow).1, fun t ht => hblank t (List.mem_append_left _ ht)⟩

/-- They are numbered behind the line that opens the table. -/
theorem line_body (h : opening :: (body ++ after) <:+ s.tokens marker) {t : Token}
    (ht : t ∈ body) : opening.line < t.line ∧ t.line ≤ opening.line + body.length := by
  obtain ⟨-, hnext, -⟩ := Source.line_of_suffix h
  obtain ⟨hlow, hhigh⟩ := Source.line_bounds body ((List.suffix_cons _ _).trans h) ht
  rw [hnext] at hlow
  rw [Source.lineAt, List.length_append] at hnext
  rw [Source.lineAt] at hhigh
  omega

/-- A line of the text between two of them is one of them. -/
theorem mem_body (h : opening :: (body ++ after) <:+ s.tokens marker) {entry : Int × Text}
    (hentry : entry ∈ s.numbered) (hlow : opening.line < entry.1) {t : Token} (ht : t ∈ body)
    (hhigh : entry.1 ≤ t.line) : Token.ofEntry marker entry ∈ body := by
  obtain ⟨before, hsplit⟩ := h
  have hmem : Token.ofEntry marker entry ∈ s.tokens marker := List.mem_map_of_mem hentry
  have hgrow : (s.tokens marker).Pairwise fun t u => t.line < u.line := (s.tokens_grow marker).1
  rw [← hsplit] at hmem hgrow
  obtain ⟨-, htable, hbefore⟩ := List.pairwise_append.mp hgrow
  obtain ⟨-, hlines⟩ := List.pairwise_cons.mp htable
  obtain ⟨-, -, hafter⟩ := List.pairwise_append.mp hlines
  rcases List.mem_append.mp hmem with hmem | hmem
  · have := hbefore _ hmem opening List.mem_cons_self
    rw [Token.line_ofEntry] at this
    omega
  · rcases List.mem_cons.mp hmem with rfl | hmem
    · rw [Token.line_ofEntry] at hlow
      omega
    rcases List.mem_append.mp hmem with hmem | hmem
    · exact hmem
    · have := hafter t ht _ hmem
      rw [Token.line_ofEntry] at this
      omega

/-- A spot is in the line of its number. -/
def Spot.In (s : Source) (a : Spot) : Prop :=
  ∃ line, (a.entry.1, line) ∈ s.numbered ∧ a.entry.2.OccursAt line a.column

/-- The lines of cells stand in lines of a text, one after the other. -/
structure StandAt (s : Source) (cells : List PendingCell) (spots : List Spot) : Prop where
  entries : spots.map (·.entry) = cells.flatMap (·.lines)
  each : ∀ a ∈ spots, a.In s
  ordered : spots.Pairwise Spot.Before

/-- Cells stand where the first of them stand, and behind these the others. -/
theorem StandAt.append {first others : List PendingCell} {spots : List Spot}
    (h : StandAt s (first ++ others) spots) :
    ∃ own more, spots = own ++ more ∧ StandAt s first own ∧ StandAt s others more ∧
      ∀ a ∈ own, ∀ b ∈ more, a.Before b := by
  obtain ⟨hentries, heach, hordered⟩ := h
  rw [List.flatMap_append] at hentries
  obtain ⟨own, more, rfl, hown, hmore⟩ := List.map_eq_append_iff.mp hentries
  obtain ⟨hownEach, hmoreEach⟩ := List.forall_mem_append.mp heach
  obtain ⟨hownOrdered, hmoreOrdered, hapart⟩ := List.pairwise_append.mp hordered
  exact ⟨own, more, rfl, ⟨hown, hownEach, hownOrdered⟩, ⟨hmore, hmoreEach, hmoreOrdered⟩, hapart⟩

theorem StandAt.cons {others : List PendingCell} {spots : List Spot}
    (h : StandAt s (p :: others) spots) :
    ∃ own more, spots = own ++ more ∧ StandAt s [p] own ∧ StandAt s others more ∧
      ∀ a ∈ own, ∀ b ∈ more, a.Before b :=
  append h

/-- The lines of the cells of a table stand in the lines of the text, one after the other. -/
theorem exists_standAt (h : opening :: (body ++ after) <:+ s.tokens marker) :
    ∃ spots, StandAt s (Table.cells body) spots := by
  obtain ⟨hgrow, hblank⟩ := areLines_body h
  obtain ⟨spots, hentries, heach, hordered⟩ := cells_spread hblank hgrow
  refine ⟨spots, hentries, fun a ha => ?_, hordered⟩
  obtain ⟨t, ht, hline, hoccurs, -⟩ := heach a ha
  have hmem := h.subset (List.mem_cons_of_mem _ (List.mem_append_left after ht))
  obtain ⟨entry, hentry, rfl⟩ := List.mem_map.mp hmem
  refine ⟨entry.2, ?_, hoccurs.of_isPrefix (dropReturns_isPrefix entry.2)⟩
  rw [← hline]
  exact hentry

/-- So do the lines of cells of a table that follow one another. -/
theorem exists_standAt_of_isInfix (h : opening :: (body ++ after) <:+ s.tokens marker)
    {pending : List PendingCell} (hpending : pending <:+: Table.cells body) :
    ∃ spots, StandAt s pending spots := by
  obtain ⟨spots, hspots⟩ := exists_standAt h
  obtain ⟨before, behind, hcells⟩ := hpending
  rw [← hcells] at hspots
  obtain ⟨front, _, -, hfront, -⟩ := hspots.append
  obtain ⟨_, own, -, -, hown, -⟩ := hfront.append
  exact ⟨own, hown⟩

/-- What is known of a cell of a table in a text. -/
structure PendingCell.InTable (p : PendingCell) (s : Source) (marker : Text) (opening : Token)
    (body : List Token) : Prop where
  /-- Where it starts and which lines it has. -/
  gathered : p.Gathered body
  numbered : p.Numbered fun n => ∃ t ∈ body, t.line = n
  /-- Its lines are pieces of lines of the text. -/
  infixes : ∀ entry ∈ p.lines, ∃ line, (entry.1, line) ∈ s.numbered ∧ entry.2 <:+: line
  /-- None of them begins with a blank. -/
  heads : ∀ entry ∈ p.lines, ∀ c, entry.2.head? = some c → isBlank c = false

theorem inTable_of_mem_cells (h : opening :: (body ++ after) <:+ s.tokens marker)
    (hp : p ∈ Table.cells body) : p.InTable s marker opening body := by
  obtain ⟨hgrow, hblank⟩ := areLines_body h
  obtain ⟨spots, hentries, hspots, -⟩ := exists_standAt h
  refine ⟨(cells_gathered hblank hgrow).each p hp, (cells_numbered hgrow).each p hp, ?_,
    (cells_spelled (fun t _ => Token.SpelledIn.trivial) p hp).head⟩
  intro entry hentry
  have hmem : entry ∈ (Table.cells body).flatMap (·.lines) :=
    List.mem_flatMap.mpr ⟨p, hp, hentry⟩
  obtain ⟨a, ha, rfl⟩ := List.mem_map.mp (hentries ▸ hmem)
  obtain ⟨line, hline, hoccurs⟩ := hspots a ha
  exact ⟨line, hline, Source.occursAt_iff_infix.mp ⟨a.column, hoccurs⟩⟩

namespace PendingCell

variable (hp : p.InTable s marker opening body)

include hp

/-- The text of a cell has the lines of the cell as its lines. -/
theorem InTable.lines_text (hne : p.content ≠ []) : p.text.lines = p.content.map (·.2) := by
  refine lines_unlines (by simpa using hne) fun piece hpiece => ?_
  obtain ⟨entry, hentry, rfl⟩ := List.mem_map.mp hpiece
  obtain ⟨line, hline, hwithin⟩ := hp.infixes entry (p.content_subset hentry)
  exact fun hmem => s.numbers_numbered.not_mem hline (hwithin.subset hmem)

/-- No line before the text of a cell, but behind its bar, has what the text begins with. -/
theorem InTable.not_infix_between (hreturn : '\r' ∉ marker)
    (h : opening :: (body ++ after) <:+ s.tokens marker) (hplain : p.isAsciidoc = false)
    {first entry : Int × Text} (hfirst : p.content.head? = some first) (hentry : entry ∈ s.numbered)
    (hlow : p.line < entry.1) (hhigh : entry.1 < first.1)
    (hkept : Source.isKept marker entry = true) : ¬first.2 <:+: entry.2 := by
  obtain ⟨before, rest, hlines, hbefore, hne⟩ := p.exists_lines hfirst
  have hmem : first ∈ p.lines := by
    rw [hlines]
    simp
  obtain ⟨⟨bar, hbar, hbarLine⟩, hnumbers, hgrowing⟩ := hp.numbered
  obtain ⟨⟨t, ht, htLine⟩, -⟩ := hnumbers first hmem
  have hopening := (line_body h hbar).1
  have htoken := mem_body h hentry (by omega) ht (by omega)
  rcases hp.gathered.reaches first hmem _ htoken (by simp; omega) (by simp; omega) with
    hvoid | ⟨other, hother, hnumber⟩
  · simp only [Token.isVoid, Bool.or_eq_true, decide_eq_true_eq, List.isEmpty_iff] at hvoid
    rcases hvoid with hcomment | hblank
    · rw [Source.isKept_of_comment hreturn hcomment] at hkept
      cases hkept
    · -- What is in a blank line begins with a blank.
      intro hwithin
      obtain ⟨c, more, hcons⟩ := List.exists_cons_of_ne_nil hne
      have hc : c ∈ entry.2 := hwithin.subset (hcons ▸ List.mem_cons_self)
      have hall := (trim_eq_nil_iff _).mp ((trim_dropReturns entry.2).symm.trans hblank)
      have hhead := hp.heads first hmem c (by rw [hcons]; rfl)
      rw [List.all_eq_true.mp hall c hc] at hhead
      cases hhead
  · -- A line of the cell in between would be empty, and only the first may be.
    exfalso
    rw [Token.line_ofEntry] at hnumber
    obtain ⟨text, more, hmore, hnonempty⟩ := hp.gathered.bar
    have hempty : other.2 = [] := by
      rw [hlines] at hother hgrowing
      obtain ⟨-, hbehind, hlt⟩ := List.pairwise_append.mp hgrowing
      rcases List.mem_append.mp hother with hother | hother
      · exact hbefore other hother
      · rcases List.mem_cons.mp hother with rfl | hother
        · omega
        · have := (List.pairwise_cons.mp hbehind).1 other hother
          omega
    rw [hmore] at hother
    rcases List.mem_cons.mp hother with rfl | hother
    · dsimp only at hnumber
      omega
    · exact hnonempty hplain other hother hempty

/-- The lines of the text of a cell have room on the lines of the table. -/
theorem InTable.le_of_content (h : opening :: (body ++ after) <:+ s.tokens marker)
    {first : Int × Text} (hfirst : p.content.head? = some first) :
    p.line ≤ first.1 ∧ first.1 + p.content.length ≤ opening.line + body.length + 1 := by
  obtain ⟨hlines, hgrowing⟩ := hp.numbered.content
  have hne : p.content ≠ [] := by
    intro hnil
    rw [hnil] at hfirst
    cases hfirst
  have hlast := List.getLast?_eq_some_getLast hne
  have hspan := Source.le_of_growing hgrowing hfirst hlast
  obtain ⟨⟨t, ht, hline⟩, -⟩ := hlines _ (List.getLast_mem hne)
  have := (line_body h ht).2
  exact ⟨(hlines first (List.mem_of_head? hfirst)).2, by omega⟩

/-- The line of a bar is a line of the text. -/
theorem InTable.one_le (h : opening :: (body ++ after) <:+ s.tokens marker) : 1 ≤ p.line := by
  obtain ⟨t, ht, hline⟩ := hp.numbered.line
  have := (Source.numbered_of_suffix h).1
  have := (line_body h ht).1
  omega

omit hp in
/-- The text of a cell stands where it was gathered as a search from the line of its bar and from a
column on expects it: its lines are one after the other but for comments, and if none is on the line
of the bar, they do not stand from that line on. -/
def IsOffered (p : PendingCell) (s : Source) (marker : Text) (column : Int) : Prop :=
  ∃ first, p.content.head? = some first ∧ s.BeginsAt marker p.text.lines column first.1 ∧
    (first.1 ≠ p.line → ¬s.BeginsAt marker p.text.lines column p.line)

/-- A cell is found on the line that its text was gathered from exactly if it stands there as the
search expects it. -/
theorem InTable.find?_iff (hreturn : '\r' ∉ marker)
    (h : opening :: (body ++ after) <:+ s.tokens marker) (hplain : p.isAsciidoc = false)
    (hne : p.content ≠ []) (hskip : w.skipComments = true) (hcolumn : 0 ≤ w.startColumn)
    (hmin : w.minLine = p.line) (hmax : opening.line + body.length ≤ w.maxLine) :
    (∃ l, s.find? marker p.text.lines w = some l ∧
        p.content.head?.map Prod.fst = some l.start.line) ↔
      p.IsOffered s marker w.startColumn := by
  have hfirst := List.head?_eq_some_head hne
  generalize p.content.head hne = first at hfirst
  obtain ⟨hlow, hroom⟩ := hp.le_of_content h hfirst
  have hlines := hp.lines_text hne
  have hpos := hp.one_le h
  have hlength : p.text.lines.length = p.content.length := by rw [hlines, List.length_map]
  have hbetween : ∀ piece, p.text.lines.head? = some piece → ∀ entry ∈ s.numbered,
      w.minLine < entry.1 → entry.1 < first.1 → Source.isKept marker entry = true →
        ¬piece <:+: entry.2 := by
    intro piece hpiece entry hentry hbehind hbefore hkept
    rw [hlines, List.head?_map, hfirst] at hpiece
    obtain rfl := Option.some.inj hpiece
    exact hp.not_infix_between hreturn h hplain hfirst hentry (hmin ▸ hbehind) hbefore hkept
  have hbegins := Source.find?_begins_iff hskip hcolumn (hmin ▸ hpos) (hmin ▸ hlow)
    (by rw [hlength]; omega) hbetween
  rw [hfirst, Option.map_some]
  constructor
  · rintro ⟨l, hl, hstart⟩
    exact ⟨first, hfirst, hmin ▸ hbegins.mp ⟨l, hl, (Option.some.inj hstart).symm⟩⟩
  · rintro ⟨found, hfound, hoffered⟩
    obtain rfl := Option.some.inj (hfirst.symm.trans hfound)
    obtain ⟨l, hl, hstart⟩ := hbegins.mpr (hmin ▸ hoffered)
    exact ⟨l, hl, congrArg some hstart.symm⟩

end PendingCell

/-! ## Cells without gaps -/

/-- The text of a cell begins on the line of its bar, if it has one, and its lines follow one
another but for comments. -/
structure PendingCell.IsUnbroken (p : PendingCell) (s : Source) (marker : Text) : Prop where
  /-- The cell holds no document. -/
  plain : p.isAsciidoc = false
  /-- Its text begins with its first line. -/
  whole : p.content = p.lines ∨ p.content = []
  /-- Its lines are those from the line of its bar on that are no comments. -/
  lines : p.lines.map Prod.fst = (s.taken marker p.line p.lines.length).map Prod.fst

/-- The last of two lists are related as all others are. -/
theorem forall₂_getLast? {α β : Type} {R : α → β → Prop} {xs : List α} {ys : List β}
    (h : List.Forall₂ R xs ys) {x : α} {y : β} (hx : xs.getLast? = some x)
    (hy : ys.getLast? = some y) : R x y := by
  rw [List.getLast?_eq_head?_reverse] at hx hy
  obtain ⟨_, hx⟩ := List.head?_eq_some_iff.mp hx
  obtain ⟨_, hy⟩ := List.head?_eq_some_iff.mp hy
  have hreverse := List.forall₂_reverse_iff.mpr h
  rw [hx, hy] at hreverse
  exact (List.forall₂_cons.mp hreverse).1

/-- Spots on the lines from a line on that are no comments stand in these lines. -/
theorem forall₂_taken {spots : List Spot} {line : Int} (hline : 1 ≤ line)
    (hspots : ∀ a ∈ spots, a.In s)
    (htaken : spots.map (·.entry.1) = (s.taken marker line spots.length).map Prod.fst) :
    List.Forall₂ (fun (a : Spot) (entry : Int × Text) =>
      a.entry.1 = entry.1 ∧ a.entry.2.OccursAt entry.2 a.column) spots
        (s.taken marker line spots.length) := by
  have hmem : ∀ entry ∈ s.taken marker line spots.length, entry ∈ s.numbered :=
    fun entry hentry => (Source.mem_numbered_of_mem_taken hline hentry).1
  generalize s.taken marker line spots.length = entries at htaken hmem ⊢
  induction spots generalizing entries with
  | nil =>
    obtain rfl := List.map_eq_nil_iff.mp htaken.symm
    exact .nil
  | cons a rest ih =>
    obtain ⟨entry, others, rfl, hnumber, hothers⟩ := List.map_eq_cons_iff.mp htaken.symm
    obtain ⟨⟨text, htext, hoccurs⟩, hrest⟩ := List.forall_mem_cons.mp hspots
    obtain ⟨hentry, hmem⟩ := List.forall_mem_cons.mp hmem
    have hnumber : entry.1 = a.entry.1 := hnumber
    have hsame : s.line? a.entry.1 = some text := s.numbers_numbered.line?_eq htext
    rw [← hnumber, s.numbers_numbered.line?_eq hentry] at hsame
    obtain rfl := Option.some.inj hsame
    exact .cons ⟨hnumber.symm, hoccurs⟩ (ih hrest others hothers.symm hmem)

/-- Spots on the lines from the first of a window on that are no comments are found there, if the
first is not before the column of the window; and what is found ends no later than the last. -/
theorem exists_find?_of_spots {spots : List Spot} {first : Spot} (hfirst : spots.head? = some first)
    (hspots : ∀ a ∈ spots, a.In s)
    (htaken : spots.map (·.entry.1) = (s.taken marker w.minLine spots.length).map Prod.fst)
    (hskip : w.skipComments = true) (hcolumn : 0 ≤ w.startColumn) (hline : 1 ≤ w.minLine)
    (hnumber : first.entry.1 = w.minLine) (hbegins : w.startColumn ≤ first.column)
    (hmax : w.minLine + spots.length ≤ w.maxLine + 1) :
    ∃ l last, s.find? marker (spots.map (·.entry.2)) w = some l ∧ l.start.line = w.minLine ∧
      spots.getLast? = some last ∧ l.stop.line = last.entry.1 ∧
        l.stop.column ≤ last.column + last.entry.2.length := by
  have hlength : (spots.map (·.entry.2)).length = spots.length := List.length_map _
  have hlines := forall₂_taken hline hspots htaken
  obtain ⟨rest, rfl⟩ := List.head?_eq_some_iff.mp hfirst
  have hlast := List.getLast?_eq_some_getLast (List.cons_ne_nil first rest)
  generalize (first :: rest).getLast _ = last at hlast
  obtain ⟨text, htext, hoccurs⟩ := hspots first List.mem_cons_self
  have hhead : (s.taken marker w.minLine (first :: rest).length).head?.map Prod.fst
      = some w.minLine := by
    rw [← List.head?_map, ← htaken, List.map_cons, List.head?_cons, hnumber]
  have hfinal : (s.taken marker w.minLine (first :: rest).length).getLast?.map Prod.fst
      = some last.entry.1 := by
    rw [← List.getLast?_map, ← htaken, List.getLast?_map, hlast]
    rfl
  have hbeginsAt : s.BeginsAt marker ((first :: rest).map (·.entry.2)) w.startColumn w.minLine := by
    refine ⟨⟨last.entry.1, by rwa [hlength], ?_, by rwa [hlength]⟩, first.entry.2, text,
      first.column, rfl, ?_, hbegins, hoccurs⟩
    · rw [hlength, List.forall₂_map_left_iff]
      exact hlines.imp fun a entry h => Source.occursAt_iff_infix.mp ⟨a.column, h.2⟩
    · rw [← hnumber]
      exact s.numbers_numbered.line?_eq htext
  obtain ⟨l, hl, hruns⟩ := Source.find?_of_beginsAt hskip hcolumn hline hbeginsAt (by rwa [hlength])
  have hfor : s.linesFor marker ((first :: rest).map (·.entry.2)) w w.minLine
      = s.taken marker w.minLine (first :: rest).length := by
    rw [Source.linesFor_eq_taken hskip hline, hlength]
  refine ⟨l, last, hl, ?_, hlast, ?_⟩
  · obtain ⟨_, entry, _, -, hentry, -, hstart⟩ := hruns.start
    rw [hfor] at hentry
    rw [hentry] at hhead
    rw [hstart]
    exact Option.some.inj hhead
  · obtain ⟨piece, entry, k, hpiece, hentry, hk, hstop⟩ := hruns.stop
    rw [hfor] at hentry
    rw [List.getLast?_map, hlast] at hpiece
    obtain rfl := Option.some.inj hpiece
    obtain ⟨hlastNumber, hlastOccurs⟩ := forall₂_getLast? hlines hlast hentry
    rw [hstop]
    refine ⟨hlastNumber.symm, ?_⟩
    have hle : k ≤ last.column := by
      refine hk.2 ⟨?_, hlastOccurs⟩
      split
      next hone =>
        obtain rfl := List.eq_nil_of_length_eq_zero (Nat.succ.inj (hlength.symm.trans hone))
        obtain rfl := Option.some.inj hlast
        exact hbegins
      next => omega
    dsimp only
    omega

/-- A cell without gaps is found from the line of its bar on, if the search does not begin behind
it, and what is found ends no later than one of its lines. -/
theorem PendingCell.InTable.find?_unbroken (hp : p.InTable s marker opening body)
    (h : opening :: (body ++ after) <:+ s.tokens marker) (hunbroken : p.IsUnbroken s marker)
    {first : Spot} {rest : List Spot} (hstand : StandAt s [p] (first :: rest))
    (hskip : w.skipComments = true) (hcolumn : 0 ≤ w.startColumn) (hmin : w.minLine = p.line)
    (hbegins : w.startColumn ≤ first.column) (hmax : opening.line + body.length ≤ w.maxLine) :
    ∃ l, s.find? marker p.text.lines w = some l ∧ l.start.line = p.line ∧
      ∃ a ∈ first :: rest, l.stop.line = a.entry.1 ∧
        l.stop.column ≤ a.column + a.entry.2.length := by
  obtain ⟨hentries, hspots, -⟩ := hstand
  rw [List.flatMap_singleton] at hentries
  obtain ⟨text, more, hlines, -⟩ := hp.gathered.bar
  obtain ⟨t, ht, hline⟩ := hp.numbered.line
  have hpos := hp.one_le h
  have hlength := congrArg List.length hentries
  rw [List.length_map] at hlength
  have hfirst : first.entry = (p.line, text) := by
    rw [hlines] at hentries
    exact (List.cons.inj hentries).1
  have hnumbers := hunbroken.lines
  rw [← hlength, ← hentries, List.map_map] at hnumbers
  rcases hunbroken.whole with hwhole | hnone
  · have hne : p.content ≠ [] := by
      rw [hwhole, hlines]
      exact List.cons_ne_nil _ _
    have hhead : p.content.head? = some (p.line, text) := by rw [hwhole, hlines, List.head?_cons]
    have hroom := (hp.le_of_content h hhead).2
    rw [hwhole, ← hlength] at hroom
    obtain ⟨l, last, hl, hstart, hlast, hstop⟩ := exists_find?_of_spots rfl hspots (hmin ▸ hnumbers)
      hskip hcolumn (hmin ▸ hpos) (by rw [hfirst, hmin]) hbegins (by omega)
    refine ⟨l, ?_, hmin ▸ hstart, last, List.mem_of_getLast? hlast, hstop⟩
    rw [hp.lines_text hne, hwhole, ← hentries, List.map_map]
    exact hl
  · have hempty : first.entry.2 = [] :=
      p.forall_of_content_eq_nil hnone _ (hentries ▸ List.mem_map_of_mem List.mem_cons_self)
    have htext : p.text.lines = [first].map (·.entry.2) := by
      rw [List.map_singleton, hempty, p.text_eq_nil_iff.mpr hnone]
      rfl
    have hbar : [first].map (·.entry.1) = (s.taken marker p.line [first].length).map Prod.fst := by
      have htake := congrArg (List.take 1) hnumbers
      rw [← List.map_take, ← List.map_take, Source.taken, List.take_take,
        Nat.min_eq_left (by simp)] at htake
      exact htake
    obtain ⟨l, last, hl, hstart, hlast, hstop⟩ := exists_find?_of_spots rfl
      (List.forall_mem_singleton.mpr (hspots first List.mem_cons_self)) (hmin ▸ hbar) hskip hcolumn
      (hmin ▸ hpos) (by rw [hfirst, hmin]) hbegins (by
        have := (line_body h ht).2
        rw [List.length_singleton]
        omega)
    refine ⟨l, htext ▸ hl, hmin ▸ hstart, last, ?_, hstop⟩
    obtain rfl := List.mem_singleton.mp (List.mem_of_getLast? hlast)
    exact List.mem_cons_self

end Table

end Asciidoc
