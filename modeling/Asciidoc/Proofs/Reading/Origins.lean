import Asciidoc.Proofs.Element.Outside
import Asciidoc.Proofs.Reading.Every
import Asciidoc.Proofs.Reading.Progress
import Asciidoc.Proofs.Token.Spelled

/-!
# The lines that elements come from

An element says which line it starts on, and that line of the text tells what the element was read
from (`Element.OriginIn`): a title and the text of a list item begin with what the line captures;
the lines of a listing and of a literal block are those behind the delimiter, or those of the
paragraph without its comments; the cells of a table are those of the lines between its delimiters.

The induction goes over what reading can come to, as in the law about the lines that elements stand
on; here nothing is said about which elements come first.
-/

namespace Asciidoc

open Text

/-! ## Lines by their numbers -/

namespace Source

/-- The line that a hint points at, classified. -/
def token? (s : Source) (marker : Text) (line : Hint) : Option Token :=
  line.bind fun n => (s.tokensFrom marker n).head?

/-- The lines that a block that starts on a line takes its lines from, and those after it: the
lines behind a delimiter, or the lines from there on that are no comments. -/
def verbatimLines (s : Source) (marker : Text) (line : Int) : List Token :=
  match s.tokensFrom marker line with
  | [] => []
  | t :: rest => if t.opensBlock then rest else (t :: rest).filter (·.kind ≠ .comment)

/-- Lines are the first of those that a block on a line takes its lines from. -/
def IsVerbatim (s : Source) (marker : Text) (line : Int) (lines : List Text) : Prop :=
  lines = ((s.verbatimLines marker line).take lines.length).map (·.text)

variable {s : Source} {marker : Text} {t : Token} {rest : List Token}

theorem token?_of_suffix (h : t :: rest <:+ s.tokens marker) :
    s.token? marker (some t.line) = some t := by
  rw [token?, Option.bind_some, tokensFrom_of_suffix h]
  rfl

/-- A line that its number points at has lines behind it in the text. -/
theorem suffix_of_token? {line : Int} (h : s.token? marker (some line) = some t) :
    ∃ rest, t :: rest <:+ s.tokens marker := by
  rw [token?, Option.bind_some] at h
  obtain ⟨rest, hrest⟩ := List.head?_eq_some_iff.mp h
  exact ⟨rest, hrest ▸ List.drop_suffix _ _⟩

/-- It has this number. -/
theorem line_of_token? {line : Int} (h : s.token? marker (some line) = some t) (hline : 1 ≤ line) :
    t.line = line := by
  rw [token?, Option.bind_some, tokensFrom, tokens, ← List.map_drop, List.head?_map] at h
  obtain ⟨entry, hentry, rfl⟩ := Option.map_eq_some_iff.mp h
  rw [List.head?_drop] at hentry
  have := (line_of_getElem?_numbered hentry).1
  rw [Token.line_ofEntry]
  omega

/-- Only a delimiter of a literal block opens one. -/
theorem opensLiteral_eq (h : t :: rest <:+ s.tokens marker) :
    s.opensLiteral marker t.line = decide (t.kind = .blockDelimiter .literal) := by
  obtain ⟨-, -, line, -, hline, htoken⟩ := line_of_suffix h
  rw [opensLiteral, hline]
  dsimp only
  rw [← htoken]

end Source

/-- What a line of a text captures is on that line alone. -/
theorem Token.not_mem_content {s : Source} {marker : Text} {t : Token} {rest : List Token}
    (h : t :: rest <:+ s.tokens marker) : '\n' ∉ t.content := by
  obtain ⟨-, -, line, hline, -, htoken⟩ := Source.line_of_suffix h
  have hcontent : t.content <:+: line := by
    rw [htoken]
    exact (classify_isInfix marker (dropReturns line)).trans (dropReturns_isPrefix line).isInfix
  exact fun hmem => Source.not_mem_line hline (hcontent.subset hmem)

/-! ## What elements come from -/

namespace Element

variable {s : Source} {marker : Text} {e : Element}

/-- An item whose text begins with what a list line captures. -/
def IsListItem (s : Source) (marker : Text) (e : Element) : Prop :=
  ∃ t text checked blocks, e = .item (some t.line) (some text) checked blocks ∧
    s.token? marker (some t.line) = some t ∧ t.marker?.isSome = true ∧
      text.lines.head? = some t.content

/-- A cell is made of the lines that were gathered for it. -/
def IsCellOf (p : Table.PendingCell) (e : Element) : Prop :=
  ∃ inner, e = .cell (some p.line) p.text p.style inner p.columns

/-- An element is read from the line that it is said to start on and lines behind that. -/
def OriginIn (s : Source) (marker : Text) : Element → Prop
  | .header title => ∃ t, s.token? marker title.line = some t ∧ t.kind = .heading 0 ∧
      title.title = t.content
  | .sectionBlock line title level _ => ∃ (t : Token) (n : Nat),
      s.token? marker line = some t ∧ t.kind = .heading n ∧ title = t.content ∧ level = n
  | .unorderedList _ _ items | .orderedList _ _ items => ∀ x ∈ items, x.IsListItem s marker
  | .listing line lines _ => ∃ t, line = some t.line ∧ s.token? marker (some t.line) = some t ∧
      s.IsVerbatim marker t.line lines
  | .literal line lines => ∃ t, line = some t.line ∧ s.token? marker (some t.line) = some t ∧
      (s.opensLiteral marker t.line = true → s.IsVerbatim marker t.line lines)
  | .table line headerRows bodyRows => ∃ t left, line = some t.line ∧
      s.token? marker (some t.line) = some t ∧
      List.Forall₂ IsCellOf (Table.cells (s.tableBody marker t.line))
        ((headerRows.flatten ++ bodyRows.flatten) ++ left)
  | _ => True

/-- An element and everything inside it outside cells is read from lines of a text. -/
def Originates (s : Source) (marker : Text) (e : Element) : Prop :=
  ∀ x ∈ e.outside, x.OriginIn s marker

theorem Originates.of_parts (htitle : e.titleLine = []) (h : e.OriginIn s marker)
    (hparts : ∀ x ∈ e.parts, x.Originates s marker) : e.Originates s marker := by
  apply forall_mem_outside h
  · rw [htitle]
    exact nofun
  · exact fun _ => hparts

end Element

/-! ## Blocks made of lines -/

namespace Reading

variable {s : Source} {marker : Text} {t : Token} {e : Element}

/-- The block that the lines of a paragraph make comes from them. -/
theorem paragraphOf_originates {rules : Rules.Reading} {attributes : BlockAttributes}
    {document : List (Text × Text)} {indented : Bool} {first : Token} {run others after : List Token}
    (hline : first :: (run ++ after) <:+ s.tokens marker) (hopens : first.opensBlock = false)
    (hcomment : first.kind ≠ .comment) (hrun : run.filter (·.kind ≠ .comment) = others)
    (he : paragraphOf rules attributes document indented first others = some e) :
    e.Originates s marker := by
  have hleaf {e : Element} (htitle : e.titleLine = []) (h : e.OriginIn s marker)
      (hparts : e.parts = []) : e.Originates s marker :=
    .of_parts htitle h (by simp [hparts])
  have hfirst := Source.token?_of_suffix hline
  have hlisted : s.IsVerbatim marker first.line (first.text :: others.map (·.text)) := by
    have hlines : s.verbatimLines marker first.line
        = first :: (others ++ after.filter (·.kind ≠ .comment)) := by
      rw [Source.verbatimLines, Source.tokensFrom_of_suffix hline]
      dsimp only
      rw [hopens, if_neg Bool.false_ne_true, List.filter_cons_of_pos (by simpa using hcomment),
        List.filter_append, hrun]
    rw [Source.IsVerbatim, hlines, List.length_cons, List.length_map, List.take_succ_cons,
      List.take_left, List.map_cons]
  have hliteral : s.opensLiteral marker first.line = false := by
    rw [Source.opensLiteral_eq hline, decide_eq_false_iff_not]
    intro hkind
    simp [Token.opensBlock, hkind] at hopens
  unfold paragraphOf at he
  dsimp only at he
  repeat' split at he
  all_goals cases he
  all_goals first
    | exact hleaf rfl trivial rfl
    | exact .of_parts rfl trivial fun x hx => by
        obtain rfl := List.mem_singleton.mp hx
        exact hleaf rfl trivial rfl
    | exact hleaf rfl ⟨first, rfl, hfirst, hlisted⟩ rfl
    | exact hleaf rfl ⟨first, rfl, hfirst, fun h => by rw [hliteral] at h; cases h⟩ rfl

/-- So does the block that a paragraph makes. -/
theorem paragraph_originates {c : Cursor} {rules : Rules.Reading} {inList : Bool}
    (hline : t :: c.unread <:+ s.tokens marker) (ht : t.startsParagraph = true)
    (he : (c.paragraph rules inList t).value = some e) : e.Originates s marker := by
  have hopens := opensBlock_of_startsParagraph ht
  unfold Cursor.paragraph at he
  dsimp only at he
  split at he
  next hends =>
    have hcomment : t.kind ≠ .comment := by
      intro hkind
      simp [Token.endsParagraph, hkind] at hends
    have halone : t :: ([] ++ c.unread) <:+ s.tokens marker := hline
    exact paragraphOf_originates halone hopens hcomment rfl he
  next =>
    have hsplit : (paragraphSpan inList c.unread).1 ++ (paragraphSpan inList c.unread).2
        = c.unread := List.takeWhile_append_dropWhile
    split at he
    next => cases he
    next start others hlines =>
      obtain ⟨comments, run, heq, -, hstart, rfl⟩ := List.filter_eq_cons_iff.mp hlines
      have hmem : start ∈ t :: (paragraphSpan inList c.unread).1 := by
        rw [heq]
        simp
      have hstartOpens : start.opensBlock = false := by
        rcases List.mem_cons.mp hmem with rfl | hmem
        · exact hopens
        · have hgoes := List.all_eq_true.mp List.all_takeWhile start hmem
          unfold Token.endsParagraph at hgoes
          unfold Token.opensBlock
          cases hkind : start.kind <;> simp_all
      have hsuffix : start :: (run ++ (paragraphSpan inList c.unread).2) <:+ s.tokens marker := by
        rw [← hsplit, ← List.cons_append, heq, List.append_assoc] at hline
        exact (List.suffix_append comments _).trans hline
      exact paragraphOf_originates hsuffix hstartOpens (by simpa using hstart) rfl he

/-- Lines behind a delimiter come from there. -/
theorem verbatim_isVerbatim {c : Cursor} (hline : t :: c.unread <:+ s.tokens marker)
    (ht : t.opensBlock = true) (closing : Text) :
    s.IsVerbatim marker t.line (c.verbatim closing).value := by
  obtain ⟨taken, after, hunread, hlines, -⟩ := verbatimSpan_eq closing c.unread
  have hvalue : (c.verbatim closing).value = taken.map (·.text) := hlines
  have hbehind : s.verbatimLines marker t.line = c.unread := by
    rw [Source.verbatimLines, Source.tokensFrom_of_suffix hline]
    dsimp only
    rw [if_pos ht]
  rw [Source.IsVerbatim, hbehind, hvalue, hunread, List.length_map, List.take_left]

theorem framedLines?_originates {c : Cursor} {frame : Option Frame}
    (hline : t :: c.unread <:+ s.tokens marker) (ht : t.opensBlock = true)
    {r : Reached c.size (Option Element)} (h : c.framedLines? frame t = some r)
    (he : r.value = some e) : e.Originates s marker := by
  have hlines := verbatim_isVerbatim (c := c.clearPending) hline ht t.content
  unfold Cursor.framedLines? at h
  dsimp only at h
  repeat' split at h
  all_goals cases h
  all_goals cases he
  · exact .of_parts rfl ⟨t, rfl, Source.token?_of_suffix hline, hlines⟩ nofun
  · exact .of_parts rfl ⟨t, rfl, Source.token?_of_suffix hline, fun _ => hlines⟩ nofun
  all_goals exact .of_parts rfl trivial nofun

theorem framedBlocks_originates {rules : Rules.Reading} {attributes : BlockAttributes}
    {frame : Option Frame} {opening : Token} {blocks : List Element}
    (h : ∀ x ∈ blocks, x.Originates s marker) :
    (framedBlocks rules attributes frame opening blocks).Originates s marker := by
  rw [framedBlocks]
  repeat' split
  all_goals exact .of_parts rfl trivial h

/-- A table has the cells of its lines. -/
theorem tableAt_originates {env : Reading} {c : Cursor} (hline : t :: c.unread <:+ s.tokens marker)
    {read : Table.PendingCell → CellRead}
    (hread : ∀ p, (read p).cell.2.IsCellOf p) :
    (c.tableAt env t ((Table.cells (c.tableBody t)).map read)).1.Originates s marker := by
  obtain ⟨headerRows, bodyRows, left, htable, hcells⟩ :=
    c.tableAt_eq env t ((Table.cells (c.tableBody t)).map read)
  rw [htable]
  intro x hx
  rw [Element.outside_of_isTable rfl] at hx
  obtain rfl := List.mem_singleton.mp hx
  refine ⟨t, left, rfl, Source.token?_of_suffix hline, ?_⟩
  rw [hcells, tableBody_of_suffix hline, List.map_map, List.forall₂_map_right_iff]
  exact List.forall₂_same.mpr fun p _ => hread p

/-- The text of an item begins with what its line captures. -/
theorem itemOf_isListItem {more : List Token} {blocks : List Element} {unread : List Token}
    (hline : t :: unread <:+ s.tokens marker) (ht : t.marker?.isSome = true) :
    (itemOf t more blocks).IsListItem s marker := by
  have hnewline := Token.not_mem_content hline
  refine ⟨t, _, _, blocks, rfl, Source.token?_of_suffix hline, ht, ?_⟩
  cases more with
  | nil => rw [List.map_nil, unlines_singleton, lines, split_of_not_mem hnewline, List.head?_cons]
  | cons second others =>
    rw [List.map_cons, unlines_cons_cons, lines, split_append hnewline, List.head?_cons]

theorem termOf_originates (t : Token) : (termOf t).Originates s marker :=
  .of_parts rfl trivial nofun

theorem listOf_originates {first : Token} {items : List Element}
    (h : ∀ x ∈ items, x.IsListItem s marker ∧ x.Originates s marker) :
    (listOf first items).Originates s marker := by
  rw [listOf]
  split
  all_goals exact .of_parts rfl (fun x hx => (h x hx).1) fun x hx => (h x hx).2

theorem entryOf_originates {c : Cursor} {delimiter description : Text} {first : Token}
    {blocks : List Element} (h : ∀ x ∈ blocks, x.Originates s marker) :
    ∀ x ∈ (c.entryOf delimiter first description blocks).items, x.Originates s marker := by
  intro x hx
  rcases Entry.mem_items.mp hx with hx | hx
  · obtain ⟨t, -, rfl⟩ := List.mem_map.mp hx
    exact termOf_originates t
  · unfold Cursor.entryOf at hx
    dsimp only at hx
    unfold descriptionOf at hx
    split at hx
    · cases hx
    · obtain rfl := Option.some.inj hx
      exact .of_parts rfl trivial h
    · obtain rfl := Option.some.inj hx
      exact .of_parts rfl trivial h

/-! ## What is read -/

/-- The elements of a part that is read from an end of the lines of a text come from these. -/
def Part.Originates (s : Source) (marker : Text) : (part : Part) → Cursor → part.Value → Prop
  | .blocks .., c, es | .attached .., c, es =>
    c.unread <:+ s.tokens marker → ∀ x ∈ es, x.Originates s marker
  | .block _ _ first, c, e =>
    first :: c.unread <:+ s.tokens marker → ∀ x, e = some x → x.Originates s marker
  | .attachedBlock, c, e => c.unread <:+ s.tokens marker → ∀ x, e = some x → x.Originates s marker
  | .list _ bullet first, c, e =>
    first :: c.unread <:+ s.tokens marker → first.marker? = some bullet → e.Originates s marker
  | .items _ bullet first, c, es =>
    first :: c.unread <:+ s.tokens marker → first.marker? = some bullet →
      ∀ x ∈ es, x.IsListItem s marker ∧ x.Originates s marker
  | .item _ first, c, e =>
    first :: c.unread <:+ s.tokens marker → first.marker?.isSome = true →
      e.IsListItem s marker ∧ e.Originates s marker
  | .descriptionList _ _ _ first, c, e =>
    first :: c.unread <:+ s.tokens marker → e.Originates s marker
  | .entries _ _ _ first, c, es =>
    first :: c.unread <:+ s.tokens marker → ∀ e ∈ es, ∀ x ∈ e.items, x.Originates s marker
  | .entry _ _ _ first, c, e =>
    first :: c.unread <:+ s.tokens marker → ∀ x ∈ e.items, x.Originates s marker

/-- What is read comes from the lines that it is read from. -/
theorem Reads.originates {env : Reading} {admits : Token → Cursor → Prop} {part : Part}
    {c last : Cursor} {value : part.Value} (h : env.Reads admits part c value last) :
    part.Originates s marker c value := by
  have hoption {e : Option Element} {es : List Element}
      (he : ∀ x, e = some x → x.Originates s marker) (hes : ∀ x ∈ es, x.Originates s marker) :
      ∀ x ∈ e.toList ++ es, x.Originates s marker := by
    intro x hx
    rcases List.mem_append.mp hx with hx | hx
    · exact he x (Option.mem_toList.mp hx)
    · exact hes x hx
  have hbehind {c : Cursor} {t : Token} {rest : List Token}
      (h : c.skipBlank.unread = t :: rest) (hc : c.unread <:+ s.tokens marker) :
      t :: rest <:+ s.tokens marker :=
    (h ▸ c.skipBlank_suffix).trans hc
  have hnext {c : Cursor} {t : Token} {rest : List Token} (h : c.unread = t :: rest)
      (hc : c.unread <:+ s.tokens marker) : t :: rest <:+ s.tokens marker :=
    h ▸ hc
  have hrest {t : Token} {rest : List Token} (h : t :: rest <:+ s.tokens marker) :
      rest <:+ s.tokens marker :=
    (List.suffix_cons t rest).trans h
  induction h with
  | blocksEnd | blocksClosed | blocksHeading | attachedEnd => exact fun _ => nofun
  | metadata | nothingAttached => exact fun _ => nofun
  | blocksCons h _ _ hfirst _ ihfirst ihmore =>
    intro hc
    have ht := hbehind h hc
    exact hoption (ihfirst ht) (ihmore (hfirst.suffix.trans (hrest ht)))
  | lineBreak =>
    rintro - x ⟨⟩
    exact .of_parts rfl trivial nofun
  | headingAlone ht _ =>
    rintro hc x ⟨⟩
    exact .of_parts rfl ⟨_, _, Source.token?_of_suffix hc, ht, rfl, rfl⟩ nofun
  | heading ht _ ih =>
    rintro hc x ⟨⟩
    exact .of_parts rfl ⟨_, _, Source.token?_of_suffix hc, ht, rfl, rfl⟩ (ih (hrest hc))
  | listBlock ht _ ih =>
    rintro hc x ⟨⟩
    exact ih hc ht
  | descriptionBlock _ _ ih =>
    rintro hc x ⟨⟩
    exact ih hc
  | @framedLines _ _ t c frame r ht hlines =>
    exact fun hc x hx => framedLines?_originates hc (opensBlock_of_opens? ht) hlines hx
  | framedBlocks _ _ _ ih =>
    rintro hc x ⟨⟩
    exact framedBlocks_originates (ih (hrest hc))
  | @fence _ _ t c language ht =>
    rintro hc x ⟨⟩
    have hopens : t.opensBlock = true := by
      unfold Token.opensBlock
      rw [ht]
    exact .of_parts rfl ⟨t, rfl, Source.token?_of_suffix hc,
      verbatim_isVerbatim (c := c.clearPending) hc hopens _⟩ nofun
  | table =>
    rintro hc x ⟨⟩
    apply tableAt_originates hc
    intro p
    rw [cellOf]
    split
    · exact ⟨_, rfl⟩
    · exact ⟨_, rfl⟩
  | paragraph ht => exact fun hc x hx => paragraph_originates hc ht hx
  | list _ ih => exact fun hc hfirst => listOf_originates (ih hc hfirst)
  | itemsLast _ _ ih =>
    intro hc hfirst x hx
    obtain rfl := List.mem_singleton.mp hx
    exact ih hc (by rw [hfirst]; rfl)
  | itemsCons hitem h ht _ ihitem ihitems =>
    intro hc hfirst
    have hbullet := hbehind h (hitem.suffix.trans (hrest hc))
    exact List.forall_mem_cons.mpr ⟨ihitem hc (by rw [hfirst]; rfl), ihitems hbullet ht⟩
  | @item _ first c bs last _ ih =>
    intro hc hfirst
    refine ⟨itemOf_isListItem hc hfirst, .of_parts rfl trivial ?_⟩
    exact ih (c.pastText_suffix.trans (hrest hc))
  | attachedCons h _ hfirst _ ihfirst ihmore =>
    intro hc
    have ht := hrest (hnext h hc)
    exact hoption (ihfirst ht) (ihmore (hfirst.suffix.trans ht))
  | attachedList h ht _ hlist _ ihlist ihmore =>
    intro hc
    have hbullet := hbehind h hc
    exact List.forall_mem_cons.mpr
      ⟨ihlist hbullet ht, ihmore (hlist.suffix.trans (hrest hbullet))⟩
  | attachedDescriptions h _ _ hlist _ ihlist ihmore =>
    intro hc
    have hterm := hbehind h hc
    exact List.forall_mem_cons.mpr ⟨ihlist hterm, ihmore (hlist.suffix.trans (hrest hterm))⟩
  | metadataAttached h _ hblock _ _ _ ihmore =>
    intro hc
    exact ihmore (hblock.suffix.trans (hrest (hnext h hc)))
  | blockAttached h _ _ _ ih => exact fun hc => ih (hnext h hc)
  | descriptionList _ ih =>
    intro hc
    refine .of_parts rfl trivial fun x hx => ?_
    obtain ⟨entry, hentry, hx⟩ := List.mem_flatMap.mp hx
    exact ih hc entry hentry x hx
  | entriesLast _ _ ih =>
    intro hc e he
    obtain rfl := List.mem_singleton.mp he
    exact ih hc
  | entriesCons hentry h _ _ ihentry ihentries =>
    intro hc
    exact List.forall_mem_cons.mpr
      ⟨ihentry hc, ihentries (hbehind h (hentry.suffix.trans (hrest hc)))⟩
  | @entry _ delimiter description first c bs last _ ih =>
    intro hc
    exact entryOf_originates
      (ih ((c.entry_suffix delimiter first description).trans (hrest hc)))

end Reading

/-- A document that is read from the lines of a text comes from these. -/
theorem Cursor.readDocument_originates {s : Source} {marker : Text} (env : Reading) {c : Cursor}
    (hc : c.unread <:+ s.tokens marker) (source : Text) :
    (c.readDocument env true source).1.Originates s marker := by
  have hblocks := (env.blocks_reads false (-1) none c.header.2).originates
    (c.header_keeps.1.trans hc)
  obtain ⟨attributes, hdocument⟩ : ∃ attributes, (c.readDocument env true source).1
      = .document (some 1) c.header.1 (env.blocks false (-1) none c.header.2).value attributes
        source := ⟨_, rfl⟩
  rw [hdocument]
  apply Element.forall_mem_outside
  · trivial
  · intro x hx
    cases htop : c.header.1 with
    | none =>
      rw [htop] at hx
      cases hx
    | some title =>
      rw [htop] at hx
      obtain rfl := List.mem_singleton.mp hx
      obtain ⟨t, rest, hline, ht, rfl, -⟩ := Cursor.header_title htop
      exact ⟨t, Source.token?_of_suffix (hline.trans hc), ht, rfl⟩
  · exact fun _ => hblocks

end Asciidoc
