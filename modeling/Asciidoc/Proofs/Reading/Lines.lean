import Asciidoc.Element.OfTokens
import Asciidoc.Proofs.Element.Spans

/-!
# Blocks made of lines stand on their lines

The blocks that are read from lines alone: paragraphs, verbatim lines, the texts of items, terms
and descriptions. Each is read from an end of the classified lines of a text, leaves a shorter
end, and stands on the lines between the two.

The comment marker must have no carriage return in it: the reader looks for it in a line without
the returns at its end, and the search in the line as it is.
-/

namespace Asciidoc

open Text

variable {s : Source} {marker : Text}

/-! ## Verbatim lines -/

/-- Verbatim lines are the first of the lines that are left. -/
theorem verbatimSpan_eq (closing : Text) (unread : List Token) :
    ∃ taken after, unread = taken ++ after ∧
      (verbatimSpan closing unread).1 = taken.map (·.text) ∧
        (verbatimSpan closing unread).2.1 <:+ after := by
  induction unread with
  | nil => exact ⟨[], [], rfl, rfl, List.suffix_refl _⟩
  | cons t rest ih =>
    rw [verbatimSpan]
    split
    · exact ⟨[], t :: rest, rfl, rfl, List.suffix_cons _ _⟩
    · obtain ⟨taken, after, hrest, hlines, hafter⟩ := ih
      refine ⟨t :: taken, after, by rw [hrest, List.cons_append], ?_, hafter⟩
      simp only [hlines, List.map_cons]

/-- The first of the lines that are left stand one after the other. -/
theorem Source.stands_of_suffix {taken after : List Token}
    (h : taken ++ after <:+ s.tokens marker) :
    s.Stands (s.lineAt (taken ++ after)) (taken.map (·.text)) := by
  obtain ⟨entries, behind, hdrop, rfl, -⟩ := List.map_eq_append_iff.mp (eq_map_drop h).symm
  rw [Stands, hdrop, List.length_map, List.length_map, List.take_left, List.map_map]
  rfl

/-- The line that a classified line of the text is of opens a block if the classified line does. -/
theorem Source.opensBlock_of_mem {t : Token} (h : t ∈ s.tokens marker) :
    s.opensBlock marker t.line = t.opensBlock := by
  obtain ⟨before, after, hsplit⟩ := List.append_of_mem h
  have hsuffix : t :: after <:+ s.tokens marker := ⟨before, hsplit.symm⟩
  obtain ⟨-, -, line, -, hline, htoken⟩ := Source.line_of_suffix hsuffix
  rw [opensBlock, hline]
  dsimp only
  rw [← htoken]

/-- Verbatim lines stand on the lines after the one that opens them, and end before the line that
is next. -/
theorem Cursor.verbatim_stands {c : Cursor} {opening : Token} (closing : Text)
    (h : opening :: c.unread <:+ s.tokens marker) :
    (c.verbatim closing).cursor.unread <:+ c.unread ∧
      s.Stands (opening.line + 1) (c.verbatim closing).value ∧
        opening.line + (c.verbatim closing).value.length
          < s.lineAt (c.verbatim closing).cursor.unread := by
  obtain ⟨taken, after, hunread, hlines, hafter⟩ := verbatimSpan_eq closing c.unread
  have hcursor : (c.verbatim closing).cursor.unread = (verbatimSpan closing c.unread).2.1 := by
    rw [Cursor.verbatim]
    dsimp only
    split <;> rfl
  have hvalue : (c.verbatim closing).value = taken.map (·.text) := hlines
  obtain ⟨-, hnext, -⟩ := Source.line_of_suffix h
  have hsuffix := (List.suffix_cons _ _).trans h
  rw [hcursor, hvalue, ← hnext, List.length_map]
  refine ⟨hafter.trans (hunread ▸ List.suffix_append _ _), ?_, ?_⟩
  · rw [hunread] at hsuffix ⊢
    exact Source.stands_of_suffix hsuffix
  · have := Source.lineAt_le_of_suffix (s := s) hafter
    rw [hunread, Source.lineAt, List.length_append] at hnext
    rw [Source.lineAt] at this
    omega

/-- The block of lines that a delimiter opens stands on its lines. -/
theorem Cursor.framedLines?_spans {c : Cursor} {frame : Option Frame} {opening : Token}
    {r : Reached c.size (Option Element)} (h : opening :: c.unread <:+ s.tokens marker)
    (hframed : opening.opensBlock = true)
    (hopens : frame = some .literal → s.opensLiteral marker opening.line = true)
    (hlines : c.framedLines? frame opening = some r) :
    r.cursor.unread <:+ c.unread ∧ ∀ e, r.value = some e →
      s.Spans marker opening.line (s.lineAt r.cursor.unread) e := by
  have hstands := Cursor.verbatim_stands (c := c.clearPending) opening.content h
  obtain ⟨hunread, hvalue, hbefore⟩ := hstands
  have hblock : s.opensBlock marker opening.line = true :=
    (Source.opensBlock_of_mem (h.subset List.mem_cons_self)).trans hframed
  unfold Cursor.framedLines? at hlines
  dsimp only at hlines
  split at hlines
  · obtain rfl := Option.some.inj hlines
    exact ⟨hunread, nofun⟩
  · split at hlines
    · obtain rfl := Option.some.inj hlines
      refine ⟨hunread, fun e he => ?_⟩
      obtain rfl := Option.some.inj he
      exact .listing (Int.le_refl _) hbefore hblock hvalue
    · split at hlines
      · obtain rfl := Option.some.inj hlines
        refine ⟨hunread, fun e he => ?_⟩
        obtain rfl := Option.some.inj he
        exact .delimited (Int.le_refl _) hbefore (hopens ‹_›) hvalue
      · split at hlines
        · obtain rfl := Option.some.inj hlines
          refine ⟨hunread, fun e he => ?_⟩
          obtain rfl := Option.some.inj he
          exact .unsupported (Int.le_refl _) (by simp only [Reached.map]; omega)
        · cases hlines

/-- The listing that a fence opens stands on its lines. -/
theorem Cursor.fenced_spans {c : Cursor} {opening : Token} (language : Option Text)
    (h : opening :: c.unread <:+ s.tokens marker) (hframed : opening.opensBlock = true) :
    (c.fenced opening.line language).cursor.unread <:+ c.unread ∧
      s.Spans marker opening.line (s.lineAt (c.fenced opening.line language).cursor.unread)
        (c.fenced opening.line language).value := by
  obtain ⟨hunread, hvalue, hbefore⟩ :=
    Cursor.verbatim_stands (c := c.clearPending) ['\x60', '\x60', '\x60'] h
  have hblock := (Source.opensBlock_of_mem (h.subset List.mem_cons_self)).trans hframed
  exact ⟨hunread, .listing (Int.le_refl _) hbefore hblock hvalue⟩

/-! ## Paragraphs -/

theorem dedent_isInfix (lines : List Text) :
    List.Forall₂ (fun piece line => piece <:+: line) (dedent lines) lines := by
  rw [dedent, List.forall₂_map_left_iff]
  exact List.forall₂_same.mpr fun line _ =>
    (trimRight_isPrefix _).isInfix.trans (List.drop_suffix _ _).isInfix

variable {first : Token} {others : List Token} {past low : Int}

/-- The lines of a paragraph without their outer blanks, the first perhaps without its label,
are taken from the lines of the paragraph. -/
theorem Source.Took.paragraph (h : s.Took marker first others past) (hlow : low ≤ first.line)
    {piece : Text} (hpiece : piece = trim first.text ∨
      ∃ label, Shape.label? (trim first.text) = some (label, piece)) :
    s.Spans marker low past (.paragraph (some first.line)
      (piece :: others.map fun t => trim t.text)) := by
  have htrimmed := h.trimmed
  have hlength : (piece :: others.map fun t => trim t.text).length = others.length + 1 := by
    simp
  have hwithin : piece <:+: first.text := by
    rcases hpiece with rfl | ⟨label, hlabel⟩
    · exact trim_isInfix _
    · exact (Shape.label?_suffix hlabel).2.isInfix.trans (trim_isInfix _)
  refine .paragraph hlow h.before (h.takes (.cons hwithin ?_)) ⟨?_, ?_, hlength ▸ h.notBlank⟩
  · rw [List.forall₂_map_left_iff]
    exact List.forall₂_same.mpr fun t _ => trim_isInfix _
  · have hhead := congrArg List.head? htrimmed
    rw [List.map_cons, List.head?_cons, List.head?_map] at hhead
    obtain ⟨entry, hentry, htext⟩ := Option.map_eq_some_iff.mp hhead.symm
    rw [hlength]
    exact ⟨piece, entry, rfl, hentry, htext ▸ hpiece⟩
  · have htail := congrArg List.tail htrimmed
    rw [List.map_cons, List.tail_cons, ← List.map_tail] at htail
    rw [hlength, List.tail_cons, htail]

/-- The block that the lines of a paragraph make stands on these lines. -/
theorem paragraphOf_spans {rules : Rules.Reading} {attributes : BlockAttributes}
    {document : List (Text × Text)} {indented : Bool} {e : Element}
    (h : s.Took marker first others past) (hlow : low ≤ first.line)
    (hopens : s.opensBlock marker first.line = false)
    (he : paragraphOf rules attributes document indented first others = some e) :
    s.Spans marker low past e := by
  have hwritten : List.Forall₂ (fun piece (t : Token) => piece <:+: t.text)
      (first.text :: others.map (·.text)) (first :: others) := by
    rw [← List.map_cons, List.forall₂_map_left_iff]
    exact List.forall₂_same.mpr fun t _ => List.infix_refl _
  have hplain := h.paragraph hlow (.inl rfl)
  have hwithin {piece : Text} (hpiece : piece = trim first.text ∨
      ∃ label, Shape.label? (trim first.text) = some (label, piece)) :
      s.SpansAll marker first.line past
        [.paragraph (some first.line) (piece :: others.map fun t => trim t.text)] :=
    .singleton (h.paragraph (Int.le_refl _) hpiece)
  have hline : first.line < past := (h.paragraph (Int.le_refl _) (.inl rfl)).lt
  unfold paragraphOf at he
  dsimp only at he
  split at he
  · cases he
  · split at he
    · obtain rfl := Option.some.inj he
      exact .styledListing hlow h.before hopens (h.takes hwritten)
    · split at he
      · obtain rfl := Option.some.inj he
        exact .unsupported hlow hline
      · split at he
        · obtain rfl := Option.some.inj he
          refine .literal hlow h.before hopens (h.takes ?_)
          have hdedent := dedent_isInfix (first.text :: others.map (·.text))
          rwa [← List.map_cons, List.forall₂_map_right_iff, List.map_cons] at hdedent
        · split at he
          · obtain rfl := Option.some.inj he
            exact .compound hlow hline (hwithin (.inl rfl))
          · split at he
            · obtain rfl := Option.some.inj he
              exact .quoteBlock hlow hline (hwithin (.inl rfl))
            · split at he
              · rename_i label body hlabel
                split at hlabel
                · split at he
                  · obtain rfl := Option.some.inj he
                    exact .compound hlow hline (hwithin (.inr ⟨label, hlabel⟩))
                  · obtain rfl := Option.some.inj he
                    exact hplain
                · cases hlabel
              · obtain rfl := Option.some.inj he
                exact hplain

/-- A line that goes on with a paragraph opens no block. -/
theorem Token.opensBlock_of_endsParagraph {t : Token} {inList : Bool}
    (h : t.endsParagraph inList = false) : t.opensBlock = false := by
  unfold endsParagraph at h
  unfold opensBlock
  cases hkind : t.kind <;> simp_all

/-- A line that opens no block is a comment or is kept, if it is not blank. -/
theorem Token.comment_or_isKept {t : Token} (hblank : t.kind ≠ .blank)
    (ht : t.opensBlock = false) : t.kind = .comment ∨ t.IsKept := by
  by_cases hcomment : t.kind = .comment
  · exact .inl hcomment
  · refine .inr ⟨hblank, hcomment, fun hkind => ?_⟩
    simp [opensBlock, hkind] at ht

/-- The lines of a run from the first that is no comment on are taken from the text. -/
theorem Source.took_of_filter (hreturn : '\r' ∉ marker) {run after others : List Token}
    {start : Token} (h : run ++ after <:+ s.tokens marker)
    (hrun : ∀ t ∈ run, t.kind = .comment ∨ t.IsKept)
    (hlines : run.filter (·.kind ≠ .comment) = start :: others) :
    s.Took marker start others (s.lineAt after) ∧ s.lineAt (run ++ after) ≤ start.line ∧
      start ∈ run := by
  obtain ⟨comments, rest, rfl, -, hstart, rfl⟩ := List.filter_eq_cons_iff.mp hlines
  have hmem : start ∈ comments ++ start :: rest := by simp
  have hkept : start.IsKept :=
    (hrun start hmem).resolve_left (by simpa only [ne_eq, decide_not, Bool.not_eq_true',
      decide_eq_false_iff_not] using hstart)
  have hsuffix : start :: (rest ++ after) <:+ s.tokens marker := by
    rw [List.append_assoc] at h
    exact (List.suffix_append comments _).trans h
  have hrest : ∀ t ∈ rest, t.kind = .comment ∨ t.IsKept := fun t ht =>
    hrun t (List.mem_append_right _ (List.mem_cons_of_mem _ ht))
  exact ⟨Source.took_of_run hreturn hsuffix hkept hrest, (Source.line_bounds _ h hmem).1, hmem⟩

/-- The block that a paragraph makes stands on the lines of the paragraph. -/
theorem Cursor.paragraph_spans (hreturn : '\r' ∉ marker) {c : Cursor} (rules : Rules.Reading)
    (inList : Bool) {t : Token} (h : t :: c.unread <:+ s.tokens marker)
    (hblank : t.kind ≠ .blank) (ht : t.opensBlock = false)
    (hcomment : t.kind = .comment → t.endsParagraph inList = false) :
    (c.paragraph rules inList t).cursor.unread <:+ c.unread ∧
      ∀ e, (c.paragraph rules inList t).value = some e →
        s.Spans marker t.line (s.lineAt (c.paragraph rules inList t).cursor.unread) e := by
  have hfirst := Token.comment_or_isKept hblank ht
  rw [Cursor.paragraph]
  dsimp only
  split
  next hends =>
    -- A line that would end a paragraph is one of its own.
    have hkept : t.IsKept := hfirst.resolve_left fun hkind => by
      rw [hcomment hkind] at hends
      cases hends
    have htook := Source.took_single hreturn h hkept
    have hopens := (Source.opensBlock_of_mem (h.subset List.mem_cons_self)).trans ht
    exact ⟨List.suffix_refl _, fun e he => paragraphOf_spans htook (Int.le_refl _) hopens he⟩
  next =>
    have hrun : ∀ u ∈ t :: (paragraphSpan inList c.unread).1,
        u.opensBlock = false ∧ (u.kind = .comment ∨ u.IsKept) := by
      intro u hu
      rcases List.mem_cons.mp hu with rfl | hu
      · exact ⟨ht, hfirst⟩
      · have hgoes := List.all_eq_true.mp List.all_takeWhile u hu
        have hopens := Token.opensBlock_of_endsParagraph (by simpa using hgoes)
        refine ⟨hopens, Token.comment_or_isKept (fun hkind => ?_) hopens⟩
        simp [Token.endsParagraph, hkind] at hgoes
    have hsplit : (paragraphSpan inList c.unread).1 ++ (paragraphSpan inList c.unread).2
        = c.unread := List.takeWhile_append_dropWhile
    have hsuffix : t :: (paragraphSpan inList c.unread).1 ++ (paragraphSpan inList c.unread).2
        <:+ s.tokens marker := by rwa [List.cons_append, hsplit]
    refine ⟨List.dropWhile_suffix _, fun e he => ?_⟩
    split at he
    · cases he
    · rename_i start others hlines
      obtain ⟨htook, hlow, hmem⟩ := Source.took_of_filter hreturn hsuffix
        (fun u hu => (hrun u hu).2) hlines
      obtain ⟨hline, -⟩ := Source.line_of_suffix h
      rw [List.cons_append, hsplit, ← hline] at hlow
      have hopens := Source.opensBlock_of_mem (hsuffix.subset (List.mem_append_left _ hmem))
      exact paragraphOf_spans htook hlow (hopens.trans (hrun start hmem).1) he

/-! ## Texts of items, terms and descriptions -/

/-- The lines that go on with an item are a run of text and comments without its comments. -/
theorem itemSpan_eq (unread : List Token) :
    ∃ run, unread = run ++ (itemSpan unread).2 ∧
      (itemSpan unread).1 = run.filter (·.kind ≠ .comment) ∧
        ∀ t ∈ run, t.kind = .comment ∨ t.kind = .text := by
  induction unread with
  | nil => exact ⟨[], rfl, rfl, by simp⟩
  | cons t rest ih =>
    obtain ⟨run, hrest, hlines, hrun⟩ := ih
    rw [itemSpan]
    split
    next htext =>
      refine ⟨t :: run, ?_, ?_, ?_⟩
      · rw [List.cons_append, ← hrest]
      · rw [List.filter_cons_of_pos (by simp [htext]), ← hlines]
      · exact List.forall_mem_cons.mpr ⟨.inr htext, hrun⟩
    next =>
      split
      next hcomment =>
        refine ⟨t :: run, ?_, ?_, ?_⟩
        · rw [List.cons_append, ← hrest]
        · rw [List.filter_cons_of_neg (by simp [hcomment]), ← hlines]
        · exact List.forall_mem_cons.mpr ⟨.inl hcomment, hrun⟩
      next => exact ⟨[], rfl, rfl, by simp⟩

theorem itemSpan_suffix (unread : List Token) : (itemSpan unread).2 <:+ unread := by
  obtain ⟨run, hunread, -⟩ := itemSpan_eq unread
  exact ⟨run, hunread.symm⟩

theorem Token.isKept_of_text {t : Token} (h : t.kind = .text) : t.IsKept := by
  constructor <;> simp [h]

/-- A line of the text whose kind is text has its own text, trimmed, as content. -/
theorem Token.content_of_text {t : Token} (h : t ∈ s.tokens marker) (htext : t.kind = .text) :
    t.content ≠ [] ∧ t.content <:+: t.text := by
  obtain ⟨before, after, hsplit⟩ := List.append_of_mem h
  have hsuffix : t :: after <:+ s.tokens marker := ⟨before, hsplit.symm⟩
  have hcaptures := Token.captures_of_suffix hsuffix
  rw [htext] at hcaptures
  exact ⟨hcaptures.1, hcaptures.2 ▸ trim_isInfix _⟩

/-- The texts of the lines that go on with an item are in these lines. -/
theorem itemSpan_contents {unread : List Token} (h : unread <:+ s.tokens marker) :
    List.Forall₂ (fun piece (t : Token) => piece <:+: t.text)
      ((itemSpan unread).1.map (·.content)) (itemSpan unread).1 := by
  obtain ⟨run, hunread, hlines, hrun⟩ := itemSpan_eq unread
  rw [List.forall₂_map_left_iff]
  refine List.forall₂_same.mpr fun t ht => ?_
  rw [hlines] at ht
  obtain ⟨hmem, hkind⟩ := List.mem_filter.mp ht
  have htext := (hrun t hmem).resolve_left (by simpa using hkind)
  exact (Token.content_of_text (h.subset (hunread ▸ List.mem_append_left _ hmem)) htext).2

/-- The text of an item from a line and the lines that go on with it is taken from these
lines. -/
theorem takes_item (hreturn : '\r' ∉ marker) {unread : List Token} {content : Text}
    (h : first :: unread <:+ s.tokens marker) (hkept : first.IsKept) (hne : content ≠ [])
    (hcontent : content <:+: first.text) :
    let text := unlines (content :: (itemSpan unread).1.map (·.content))
    text ≠ [] ∧ s.Takes marker first.line text.lines ((itemSpan unread).1.getLastD first).line ∧
      ((itemSpan unread).1.getLastD first).line < s.lineAt (itemSpan unread).2 := by
  have hsuffix := (List.suffix_cons _ _).trans h
  obtain ⟨run, hunread, hlines, hrun⟩ := itemSpan_eq unread
  have htook : s.Took marker first (itemSpan unread).1 (s.lineAt (itemSpan unread).2) := by
    rw [hlines]
    refine Source.took_of_run hreturn ?_ hkept fun t ht =>
      (hrun t ht).imp_right Token.isKept_of_text
    rwa [← hunread]
  have htakes := htook.takes (.cons hcontent (itemSpan_contents hsuffix))
  refine ⟨unlines_ne_nil hne _, ?_, htook.before⟩
  rwa [lines_unlines (by simp) htakes.not_mem]

/-- The text of the lines that go on with an item, when nothing stands before them, is taken from
these lines. -/
theorem takes_itemSpan (hreturn : '\r' ∉ marker) {unread : List Token}
    (h : unread <:+ s.tokens marker) (hlines : (itemSpan unread).1 = first :: others) :
    let text := unlines ((first :: others).map (·.content))
    text ≠ [] ∧ s.Takes marker first.line text.lines (others.getLastD first).line ∧
      (others.getLastD first).line < s.lineAt (itemSpan unread).2 ∧
        s.lineAt unread ≤ first.line := by
  have hcontents := itemSpan_contents h
  obtain ⟨run, hunread, hspan, hrun⟩ := itemSpan_eq unread
  have hsuffix : run ++ (itemSpan unread).2 <:+ s.tokens marker := by rwa [← hunread]
  obtain ⟨htook, hlow, -⟩ := Source.took_of_filter hreturn hsuffix
    (fun t ht => (hrun t ht).imp_right Token.isKept_of_text) (hspan.symm.trans hlines)
  have hfirst : first ∈ run.filter (·.kind ≠ .comment) :=
    hspan ▸ hlines ▸ List.mem_cons_self
  obtain ⟨hmem, hkind⟩ := List.mem_filter.mp hfirst
  have hcontent := Token.content_of_text (h.subset (hunread ▸ List.mem_append_left _ hmem))
    ((hrun first hmem).resolve_left (by simpa using hkind))
  rw [hlines] at hcontents
  have htakes := htook.takes hcontents
  refine ⟨unlines_ne_nil hcontent.1 _, ?_, htook.before, by rwa [hunread]⟩
  rwa [lines_unlines (by simp) htakes.not_mem]

/-- A piece of a single line is taken from it. -/
theorem takes_single (hreturn : '\r' ∉ marker) {unread : List Token} {content : Text}
    (h : first :: unread <:+ s.tokens marker) (hkept : first.IsKept)
    (hcontent : content <:+: first.text) : s.Takes marker first.line [content] first.line := by
  have htook := Source.took_single hreturn h hkept
  exact htook.takes (.cons hcontent .nil)

/-- A term stands on its line. -/
theorem termOf_spans (hreturn : '\r' ∉ marker) {unread : List Token}
    {delimiter description : Text} (h : first :: unread <:+ s.tokens marker)
    (hkind : first.kind = .term delimiter description) :
    s.Spans marker first.line (s.lineAt unread) (termOf first) ∧
      s.IsTerm marker (termOf first) := by
  have hkept : first.IsKept := by constructor <;> simp [hkind]
  have hcaptures := Token.captures_of_suffix h
  rw [hkind] at hcaptures
  obtain ⟨hne, hterm, -⟩ := hcaptures
  have htakes := takes_single hreturn h hkept
    (hterm.isInfix.trans (trimLeft_isSuffix _).isInfix)
  have hlines : lines first.content = [first.content] := htakes.lines_eq
  obtain ⟨-, hnext, -⟩ := Source.line_of_suffix h
  exact ⟨.item (Int.le_refl _) (by omega) (hlines ▸ htakes) hne (.nil (Int.le_of_eq hnext.symm)),
    first.line, first.content, rfl, htakes⟩

/-- The item that a line starts stands on the lines of its text and of its blocks. -/
theorem itemOf_spans (hreturn : '\r' ∉ marker) {unread : List Token} {high : Int}
    {blocks : List Element} {bullet : Text} (h : first :: unread <:+ s.tokens marker)
    (hmarker : first.marker? = some bullet)
    (hblocks : s.SpansAll marker (s.lineAt (itemSpan unread).2) high blocks) :
    s.Spans marker first.line high (itemOf first (itemSpan unread).1 blocks) := by
  have hcaptures := Token.captures_of_suffix h
  have hitem : first.IsKept ∧ first.content ≠ [] ∧ first.content <:+: first.text := by
    unfold Token.marker? at hmarker
    split at hmarker
    · rename_i hkind
      rw [hkind] at hcaptures
      exact ⟨by constructor <;> simp [hkind], hcaptures⟩
    · rename_i hkind
      rw [hkind] at hcaptures
      exact ⟨by constructor <;> simp [hkind], hcaptures⟩
    · cases hmarker
  obtain ⟨hkept, hne, hwithin⟩ := hitem
  obtain ⟨hne, htakes, hlast⟩ := takes_item hreturn h hkept hne hwithin
  have := htakes.line_le
  have := hblocks.le
  exact .item (Int.le_refl _) (by omega) htakes hne (hblocks.mono (by omega))

/-- What is left after terms is an end of what was there. -/
theorem termSpan_suffix (delimiter : Text) (first : Token) (description : Text)
    (unread : List Token) : (termSpan delimiter first description unread).2.2 <:+ unread := by
  induction unread generalizing first description with
  | nil => exact List.suffix_refl _
  | cons t rest ih =>
    rw [termSpan]
    split
    · split
      · split
        · exact (ih _ _).trans (List.suffix_cons _ _)
        · exact List.suffix_refl _
      · exact List.suffix_refl _
    · exact List.suffix_refl _

/-- The terms that share a description stand on their lines, and the lines that are left are
those after the last of them. -/
theorem termSpan_spans (hreturn : '\r' ∉ marker) {delimiter : Text} {unread : List Token}
    {description : Text} (h : first :: unread <:+ s.tokens marker)
    (hkind : first.kind = .term delimiter description) :
    let span := termSpan delimiter first description unread
    ∃ final, span.1.getLast? = some final ∧ final.kind = .term delimiter span.2.1 ∧
      final :: span.2.2 <:+ first :: unread ∧
        s.SpansAll marker first.line (s.lineAt span.2.2) (span.1.map termOf) ∧
          ∀ e ∈ span.1.map termOf, s.IsTerm marker e := by
  obtain ⟨hfirst, hterm⟩ := termOf_spans hreturn h hkind
  have halone : ∃ final, [first].getLast? = some final ∧
      final.kind = .term delimiter description ∧ final :: unread <:+ first :: unread ∧
        s.SpansAll marker first.line (s.lineAt unread) ([first].map termOf) ∧
          ∀ e ∈ [first].map termOf, s.IsTerm marker e :=
    ⟨first, rfl, hkind, List.suffix_refl _, .singleton hfirst, by simpa using hterm⟩
  induction unread generalizing first description with
  | nil => exact halone
  | cons t rest ih =>
    rw [termSpan]
    split
    · split
      · rename_i other next ht
        split
        · rename_i hsame
          subst hsame
          have hsuffix := (List.suffix_cons _ _).trans h
          obtain ⟨hnextSpans, hnextTerm⟩ := termOf_spans hreturn hsuffix ht
          obtain ⟨final, hfinal, hlast, hleft, hterms, hall⟩ := ih hsuffix ht hnextSpans hnextTerm
            ⟨t, rfl, ht, List.suffix_refl _, .singleton hnextSpans, by simpa using hnextTerm⟩
          obtain ⟨-, hnext, -⟩ := Source.line_of_suffix h
          obtain ⟨hline, -⟩ := Source.line_of_suffix hsuffix
          refine ⟨final, ?_, hlast, hleft.trans (List.suffix_cons _ _), ?_,
            List.forall_mem_cons.mpr ⟨hterm, hall⟩⟩
          · rw [List.getLast?_cons, hfinal]
            rfl
          · rw [List.map_cons]
            rw [hline] at hterms
            exact .cons hfirst hterms
        · exact halone
      · exact halone
    · exact halone

/-- What is left after the terms of an entry is an end of what is left after the last term. -/
theorem Cursor.pastTerms_suffix (c : Cursor) (delimiter : Text) (first : Token)
    (description : Text) : (c.pastTerms delimiter first description).unread
      <:+ (termSpan delimiter first description c.unread).2.2 := by
  rw [Cursor.pastTerms]
  split
  · exact List.dropWhile_suffix _
  · exact List.suffix_refl _

/-- A description that has no text on the line of its term stands on the lines of its own text, or
else on those of the blocks attached. -/
theorem descriptionOf_spans (hreturn : '\r' ∉ marker) {unread : List Token} {high : Int}
    {blocks : List Element} (h : unread <:+ s.tokens marker) (hlow : low ≤ s.lineAt unread)
    (hblocks : s.SpansAll marker (s.lineAt (itemSpan unread).2) high blocks) {e : Element}
    (he : descriptionOf ((itemSpan unread).1.map fun t => (t.line, t.content)) blocks
      = some e) : s.Spans marker low high e := by
  cases hlines : (itemSpan unread).1 with
  | nil =>
    rw [hlines, List.map_nil] at he
    cases hblocks with
    | nil => cases he
    | cons hfirst hothers =>
      obtain rfl := Option.some.inj he
      obtain ⟨line, hline, hbehind, hhigh, hspans⟩ := hfirst.exists_line
      have := Source.lineAt_le_of_suffix (s := s) (itemSpan_suffix unread)
      have := hothers.le
      rw [hline]
      exact .bareItem (by omega) (by omega) (.cons (hspans line (Int.le_refl _)) hothers)
  | cons first others =>
    obtain ⟨hne, htakes, hlast, hfirst⟩ := takes_itemSpan hreturn h hlines
    rw [hlines, List.map_cons] at he
    obtain rfl := Option.some.inj he
    have := htakes.line_le
    have := hblocks.le
    rw [List.map_cons, List.map_map]
    exact .item (by omega) (by omega) htakes hne (hblocks.mono (by omega))

/-- An entry stands on the lines of its terms, of its description and of the blocks attached. -/
theorem entryOf_spans (hreturn : '\r' ∉ marker) {c : Cursor} {delimiter description : Text}
    {blocks : List Element} {high : Int} (h : first :: c.unread <:+ s.tokens marker)
    (hkind : first.kind = .term delimiter description)
    (hblocks : s.SpansAll marker
      (s.lineAt (c.pastTerms delimiter first description).pastText.unread) high blocks) :
    s.SpansEntries marker first.line high [c.entryOf delimiter first description blocks] := by
  obtain ⟨final, hfinal, hlast, hleft, hterms, hterm⟩ := termSpan_spans hreturn h hkind
  have hpast := c.pastTerms_suffix delimiter first description
  have hsuffix := hleft.trans h
  obtain ⟨-, hnext, -⟩ := Source.line_of_suffix hsuffix
  have hbefore := Source.lineAt_le_of_suffix (s := s) hpast
  have hpastText := Source.lineAt_le_of_suffix (s := s)
    (itemSpan_suffix (c.pastTerms delimiter first description).unread)
  have hhigh := hblocks.le
  have hne : (termSpan delimiter first description c.unread).1.map termOf ≠ [] := by
    rw [ne_eq, List.map_eq_nil_iff]
    intro hnil
    rw [hnil] at hfinal
    cases hfinal
  by_cases hempty : (termSpan delimiter first description c.unread).2.1.isEmpty = true
  · -- The description starts on a line of its own.
    have hspans : ∀ e, (c.entryOf delimiter first description blocks).description = some e →
        s.Spans marker (s.lineAt (termSpan delimiter first description c.unread).2.2) high e := by
      intro e he
      rw [Cursor.entryOf] at he
      dsimp only at he
      rw [if_pos hempty, List.nil_append] at he
      exact descriptionOf_spans hreturn (hpast.trans ((List.suffix_cons _ _).trans hsuffix))
        hbefore hblocks he
    refine .cons hne hterms hterm (Int.le_trans hbefore (Int.le_trans hpastText hhigh))
      (fun e he => (hspans e he).mono (by omega)) (fun e he hline => ?_) (.nil (Int.le_refl _))
    obtain ⟨line, hline', hlow, -⟩ := (hspans e he).exists_line
    rw [hline] at hline'
    obtain rfl := Option.some.inj hline'
    omega
  · -- The text on the line of the last term and the lines that go on with it are one text.
    have hunread : (c.pastTerms delimiter first description).unread
        = (termSpan delimiter first description c.unread).2.2 := by
      rw [Cursor.pastTerms, if_neg hempty]
      rfl
    have hcaptures := Token.captures_of_suffix hsuffix
    rw [hlast] at hcaptures
    have hkept : final.IsKept := by constructor <;> simp [hlast]
    obtain ⟨htext, htakes, hbehind⟩ := takes_item hreturn hsuffix hkept
      (by simpa using hempty) hcaptures.2.2
    have hline : (termSpan delimiter first description c.unread).1.getLastD first = final := by
      rw [List.getLastD_eq_getLast?, hfinal]
      rfl
    have hitem : (c.entryOf delimiter first description blocks).description
        = some (.item (some final.line) (some (unlines ((termSpan delimiter first description
          c.unread).2.1 :: (itemSpan (termSpan delimiter first description c.unread).2.2).1.map
            (·.content)))) none blocks) := by
      rw [Cursor.entryOf]
      dsimp only
      rw [if_neg hempty, hunread, hline, List.cons_append, List.nil_append, descriptionOf,
        List.map_cons, List.map_map]
      rfl
    have hblocks : s.SpansAll marker
        (s.lineAt (itemSpan (c.pastTerms delimiter first description).unread).2) high blocks :=
      hblocks
    rw [hunread] at hblocks
    refine .cons hne hterms hterm (Int.le_trans hbefore (Int.le_trans hpastText hhigh))
      (fun e he => ?_) (fun e he _ => ?_) (.nil (Int.le_refl _))
    · obtain rfl := Option.some.inj (hitem.symm.trans he)
      have := htakes.line_le
      have := hblocks.le
      exact .item (by omega) (by omega) htakes htext (hblocks.mono (by omega))
    · exact ⟨_, _, _, _, (Option.some.inj (hitem.symm.trans he)).symm⟩

end Asciidoc
