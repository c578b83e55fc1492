import Asciidoc.Proofs.Element.Hints
import Asciidoc.Proofs.Reading.Progress
import Asciidoc.Proofs.Table.Numbers

/-!
# The hints of what is read

The lines that a part is read from have numbers that go forward, and the elements of the part start
on lines from the first of these on and before those that are left (`Reads.hinted`). The hint of an
element is taken from one of its lines: the line that opens it, the first line of a paragraph that
is no comment, the line of the text of a description or else of the first block in it, the line of
the bar of a cell. The document in a cell is read from the lines of the cell, which keep their
numbers, so that its blocks start on lines of the table.
-/

namespace Asciidoc

open Text

/-! ## Lines that were read -/

/-- A line is one of those that were to be read, and comes before those that still are. -/
def ReadBetween (unread left : List Token) (line : Int) : Prop :=
  (∃ t ∈ unread, t.line = line) ∧ ∀ t ∈ left, line < t.line

/-- The numbers of lines go forward. -/
def LinesGrow (ts : List Token) : Prop := ts.Pairwise fun t u => t.line < u.line

variable {unread left last rest : List Token} {t : Token} {n m : Int}

theorem LinesGrow.suffix (h : LinesGrow unread) (hrest : rest <:+ unread) : LinesGrow rest :=
  h.sublist hrest.sublist

namespace ReadBetween

theorem mono (h : ReadBetween unread left n) {unread' left' : List Token}
    (hunread : unread ⊆ unread') (hleft : left' ⊆ left) : ReadBetween unread' left' n := by
  obtain ⟨⟨t, ht, hline⟩, hbefore⟩ := h
  exact ⟨⟨t, hunread ht, hline⟩, fun u hu => hbefore u (hleft hu)⟩

/-- What is read first comes before what is read next. -/
theorem lt (h : ReadBetween unread left n) (hnext : ReadBetween left last m) : n < m := by
  obtain ⟨⟨t, ht, rfl⟩, -⟩ := hnext
  exact h.2 t ht

/-- The first line was read. -/
theorem first (hgrow : LinesGrow (t :: rest)) (hleft : left ⊆ rest) :
    ReadBetween (t :: rest) left t.line :=
  ⟨⟨t, List.mem_cons_self, rfl⟩, fun u hu => (List.pairwise_cons.mp hgrow).1 u (hleft hu)⟩

/-- Whatever was read behind the first line was read, and comes behind it. -/
theorem behind (hgrow : LinesGrow (t :: rest)) (hunread : unread ⊆ rest)
    (h : ReadBetween unread left n) : ReadBetween (t :: rest) left n ∧ t.line < n := by
  obtain ⟨⟨u, hu, rfl⟩, -⟩ := id h
  exact ⟨h.mono (List.Subset.trans hunread (List.subset_cons_self t rest)) (List.Subset.refl left),
    (List.pairwise_cons.mp hgrow).1 u (hunread hu)⟩

/-- Nothing that was read comes before the first line. -/
theorem first_le (hgrow : LinesGrow (t :: rest)) (h : ReadBetween (t :: rest) left n) :
    t.line ≤ n := by
  obtain ⟨⟨u, hu, rfl⟩, -⟩ := h
  rcases List.mem_cons.mp hu with rfl | hu
  · exact Int.le_refl _
  · exact Int.le_of_lt ((List.pairwise_cons.mp hgrow).1 u hu)

end ReadBetween

/-! ## Blocks made of lines -/

namespace Reading

open Element (HintedAll HintedBlock HintedBy HintedEntry HintedEntries Apart)

variable {P Q : Int → Prop} {env : Reading} {admits : Token → Cursor → Prop}

theorem paragraphOf_hinted {rules : Rules.Reading} {attributes : BlockAttributes}
    {document : List (Text × Text)} {indented : Bool} {first : Token} {others : List Token}
    {e : Element} (hfirst : P first.line)
    (h : paragraphOf rules attributes document indented first others = some e) :
    e.HintedBlock P := by
  have hparagraph (lines : List Text) :
      HintedAll (fun n => n = first.line) [Element.paragraph (some first.line) lines] :=
    .singleton (.leaf rfl rfl rfl rfl trivial)
  -- A label or a style makes a block around the paragraph, on the same line.
  have hsame (n : Int) (hn : n = first.line) : P n ∧ first.line ≤ n :=
    ⟨hn ▸ hfirst, Int.le_of_eq hn.symm⟩
  unfold paragraphOf at h
  dsimp only at h
  repeat' split at h
  all_goals cases h
  all_goals first
    | exact .leaf rfl rfl hfirst rfl trivial
    | exact (hparagraph _).around rfl rfl rfl hfirst hsame id

theorem paragraph_hinted {c : Cursor} (rules : Rules.Reading) (inList : Bool)
    (hgrow : LinesGrow (t :: c.unread)) :
    HintedAll (ReadBetween (t :: c.unread) (c.paragraph rules inList t).cursor.unread)
      (c.paragraph rules inList t).value.toList := by
  have hsuffix := (c.paragraph_suffix rules inList t).subset
  cases hvalue : (c.paragraph rules inList t).value with
  | none => exact .nil
  | some e =>
    refine .singleton ?_
    unfold Cursor.paragraph at hvalue hsuffix ⊢
    dsimp only at hvalue hsuffix ⊢
    by_cases hends : t.endsParagraph inList = true
    · rw [if_pos hends] at hvalue hsuffix ⊢
      exact paragraphOf_hinted (.first hgrow hsuffix) hvalue
    · rw [if_neg hends] at hvalue hsuffix ⊢
      -- The first line that is no comment is one of those that go on with the paragraph.
      have hspan : t :: c.unread = (t :: (paragraphSpan inList c.unread).1)
          ++ (paragraphSpan inList c.unread).2 := by
        rw [List.cons_append, paragraphSpan, List.takeWhile_append_dropWhile]
      dsimp only at hvalue
      split at hvalue
      · cases hvalue
      · rename_i start others hlines
        have hstart : start ∈ t :: (paragraphSpan inList c.unread).1 :=
          List.mem_of_mem_filter (hlines ▸ List.mem_cons_self)
        rw [hspan] at hgrow ⊢
        exact paragraphOf_hinted ⟨⟨start, List.mem_append_left _ hstart, rfl⟩,
          fun u hu => (List.pairwise_append.mp hgrow).2.2 start hstart u hu⟩ hvalue

theorem framedLines?_hinted {c : Cursor} {frame : Option Frame} {opening : Token}
    {r : Reached c.size (Option Element)} (h : c.framedLines? frame opening = some r)
    (hgrow : LinesGrow (opening :: c.unread)) :
    HintedAll (ReadBetween (opening :: c.unread) r.cursor.unread) r.value.toList := by
  have hopening := ReadBetween.first hgrow (Cursor.framedLines?_suffix h).subset
  unfold Cursor.framedLines? at h
  dsimp only at h
  repeat' split at h
  all_goals cases h
  all_goals first
    | exact .nil
    | exact .singleton (.leaf rfl rfl hopening rfl trivial)

theorem framedBlocks_hinted {rules : Rules.Reading} {attributes : BlockAttributes}
    {frame : Option Frame} {opening : Token} {blocks : List Element} (h : HintedAll Q blocks)
    (hopening : P opening.line) (hQ : ∀ n, Q n → P n ∧ opening.line ≤ n) :
    (framedBlocks rules attributes frame opening blocks).HintedBlock P := by
  unfold framedBlocks
  dsimp only
  repeat' split
  all_goals exact h.around rfl rfl rfl hopening hQ id

/-! ## Entries of description lists -/

/-- The terms of an entry and the lines after them are what was there. -/
theorem termSpan_eq (delimiter : Text) (first : Token) (description : Text)
    (unread : List Token) : ∃ before final,
      (termSpan delimiter first description unread).1 = before ++ [final] ∧
      first :: unread = before ++ final :: (termSpan delimiter first description unread).2.2 := by
  induction unread generalizing first description with
  | nil => exact ⟨[], first, rfl, rfl⟩
  | cons t rest ih =>
    rw [termSpan]
    split
    · split
      · split
        · rename_i other next _ _
          obtain ⟨before, final, hterms, hrest⟩ := ih t next
          exact ⟨first :: before, final, congrArg (first :: ·) hterms, congrArg (first :: ·) hrest⟩
        · exact ⟨[], first, rfl, rfl⟩
      · exact ⟨[], first, rfl, rfl⟩
    · exact ⟨[], first, rfl, rfl⟩

/-- The terms that share a description are on lines with their delimiter. -/
theorem termSpan_terms (delimiter : Text) (first : Token) (description : Text)
    (unread : List Token) : ∃ others,
      (termSpan delimiter first description unread).1 = first :: others ∧
      unread = others ++ (termSpan delimiter first description unread).2.2 ∧
      ∀ t ∈ others, ∃ next, t.kind = .term delimiter next := by
  induction unread generalizing first description with
  | nil => exact ⟨[], rfl, rfl, nofun⟩
  | cons t rest ih =>
    rw [termSpan]
    split
    · split
      · split
        · rename_i other next ht hother
          obtain ⟨others, hterms, hrest, hothers⟩ := ih t next
          subst hother
          exact ⟨t :: others, congrArg (first :: ·) hterms, congrArg (t :: ·) hrest,
            List.forall_mem_cons.mpr ⟨⟨next, ht⟩, hothers⟩⟩
        · exact ⟨[], rfl, rfl, nofun⟩
      · exact ⟨[], rfl, rfl, nofun⟩
    · exact ⟨[], rfl, rfl, nofun⟩

/-- The lines of an entry are those of its terms, those passed over, those of the text of its
description with comments among them, and those that are left for the blocks attached. -/
theorem entryOf_eq (c : Cursor) (delimiter description : Text) (first : Token)
    (blocks : List Element) : ∃ before final skipped run lines,
      first :: c.unread = before ++ final ::
        (skipped ++ (run ++ (c.pastTerms delimiter first description).pastText.unread)) ∧
      c.entryOf delimiter first description blocks
        = ⟨(before ++ [final]).map termOf, descriptionOf lines blocks⟩ ∧
      ∀ entry ∈ lines, entry.1 = final.line ∨ ∃ t ∈ run, t.line = entry.1 := by
  obtain ⟨before, final, hterms, hspan⟩ := termSpan_eq delimiter first description c.unread
  obtain ⟨skipped, hskipped⟩ := c.pastTerms_suffix delimiter first description
  obtain ⟨run, hrun, hmore, -⟩ := itemSpan_eq (c.pastTerms delimiter first description).unread
  have hunread : first :: c.unread = before ++ final ::
      (skipped ++ (run ++ (c.pastTerms delimiter first description).pastText.unread)) := by
    rw [hspan, ← hskipped]
    exact congrArg (fun unread => before ++ final :: (skipped ++ unread)) hrun
  have hentry : c.entryOf delimiter first description blocks = ⟨_, descriptionOf _ blocks⟩ := rfl
  rw [hterms, List.getLastD_concat] at hentry
  refine ⟨before, final, skipped, run, _, hunread, hentry, List.forall_mem_append.mpr
    ⟨fun entry hstart => .inl ?_, fun entry hmem => .inr ?_⟩⟩
  · split at hstart
    · cases hstart
    · rw [List.mem_singleton.mp hstart]
  · obtain ⟨t, ht, rfl⟩ := List.mem_map.mp hmem
    exact ⟨t, List.mem_of_mem_filter (hmore ▸ ht), rfl⟩

/-- A description starts on the line of its text, or else where the blocks attached to it do. -/
theorem descriptionOf_hinted {lines : List (Int × Text)} {blocks : List Element} {d : Element}
    (hlines : ∀ entry ∈ lines, P entry.1) (hblocks : HintedAll Q blocks)
    (hQ : ∀ n, Q n → P n) (hlt : ∀ entry ∈ lines, ∀ n, Q n → entry.1 < n)
    (h : descriptionOf lines blocks = some d) : d.HintedBlock P := by
  unfold descriptionOf at h
  split at h
  · cases h
  · rename_i first others
    obtain rfl := Option.some.inj h
    obtain ⟨n, hline, hn, hle⟩ := (hblocks.blocks first List.mem_cons_self).exists_line
    have hQn := (hblocks.blocks first List.mem_cons_self).kind n hn
    -- The first block starts before the others, so that all of them start no earlier than it.
    have hbehind : ∀ x ∈ first :: others, ∀ m ∈ x.hints, n ≤ m := by
      refine List.forall_mem_cons.mpr ⟨hle, fun x hx m hm => ?_⟩
      exact Int.le_of_lt ((List.pairwise_cons.mp hblocks.apart).1 x hx n hn m hm)
    exact .of_parts rfl hline (hQ n hQn)
      (fun x hx => (hblocks.blocks x hx).toHintedBy.mono hQ) hbehind hblocks.sorted hblocks.leadsTo
  · rename_i line text others _
    obtain rfl := Option.some.inj h
    exact hblocks.around rfl rfl rfl (hlines _ List.mem_cons_self)
      (fun m hm => ⟨hQ m hm, Int.le_of_lt (hlt _ List.mem_cons_self m hm)⟩) id

/-- A description with a text on the line of the last term or behind it. -/
theorem description_behind {final : Token} {skipped run : List Token}
    {lines : List (Int × Text)} {blocks : List Element} {d : Element}
    (hgrow : LinesGrow (final :: (skipped ++ (run ++ unread)))) (hleft : left <:+ unread)
    (hlines : ∀ entry ∈ lines, entry.1 = final.line ∨ ∃ t ∈ run, t.line = entry.1)
    (hblocks : HintedAll (ReadBetween unread left) blocks)
    (h : descriptionOf lines blocks = some d) :
    d.HintedBlock (ReadBetween (final :: (skipped ++ (run ++ unread))) left) := by
  have hunread : unread ⊆ skipped ++ (run ++ unread) :=
    ((List.suffix_append run unread).trans (List.suffix_append skipped _)).subset
  have hrun : run ⊆ skipped ++ (run ++ unread) :=
    List.Subset.trans (List.subset_append_left run unread) (List.subset_append_right skipped _)
  have hbetween := (List.pairwise_append.mp (hgrow.suffix
    ((List.suffix_append skipped _).trans (List.suffix_cons final _)))).2.2
  refine descriptionOf_hinted (fun entry hentry => ?_) hblocks (fun n hn => ?_)
    (fun entry hentry n hn => ?_) h
  · rcases hlines entry hentry with hline | ⟨t, ht, hline⟩
    · exact hline ▸ .first hgrow (List.Subset.trans hleft.subset hunread)
    · exact ⟨⟨t, List.mem_cons_of_mem _ (hrun ht), hline⟩,
        fun u hu => hline ▸ hbetween t ht u (hleft.subset hu)⟩
  · exact (hn.behind hgrow hunread).1
  · rcases hlines entry hentry with hline | ⟨t, ht, hline⟩
    · exact hline ▸ (hn.behind hgrow hunread).2
    · obtain ⟨⟨u, hu, rfl⟩, -⟩ := hn
      exact hline ▸ hbetween t ht u hu

theorem termOf_hinted (t : Token) : (termOf t).HintedBlock fun n => n = t.line :=
  .leaf rfl rfl rfl rfl .nil

theorem entryOf_hinted {c : Cursor} {delimiter description : Text} {first : Token}
    {blocks : List Element} (hgrow : LinesGrow (first :: c.unread))
    (hleft : left <:+ (c.pastTerms delimiter first description).pastText.unread)
    (hblocks : HintedAll
      (ReadBetween (c.pastTerms delimiter first description).pastText.unread left) blocks) :
    HintedEntry (ReadBetween (first :: c.unread) left)
      (c.entryOf delimiter first description blocks) := by
  obtain ⟨before, final, skipped, run, lines, hunread, hentry, hlines⟩ :=
    entryOf_eq c delimiter description first blocks
  generalize (c.pastTerms delimiter first description).pastText.unread = unread at *
  rw [hunread] at hgrow ⊢
  rw [hentry]
  have hfinal : LinesGrow (final :: (skipped ++ (run ++ unread))) :=
    hgrow.suffix (List.suffix_append _ _)
  have hdescription : ∀ d ∈ descriptionOf lines blocks,
      d.HintedBlock (ReadBetween (final :: (skipped ++ (run ++ unread))) left) :=
    fun d hd => description_behind hfinal hleft hlines hblocks hd
  have hafter : left ⊆ skipped ++ (run ++ unread) := ((hleft.trans
    (List.suffix_append run unread)).trans (List.suffix_append skipped _)).subset
  rw [List.append_cons] at hgrow
  obtain ⟨hterms, -, hbetween⟩ := List.pairwise_append.mp hgrow
  have hle : ∀ t ∈ before ++ [final], t.line ≤ final.line := by
    refine List.forall_mem_append.mpr
      ⟨fun t ht => ?_, List.forall_mem_singleton.mpr (Int.le_refl _)⟩
    exact Int.le_of_lt ((List.pairwise_append.mp hterms).2.2 t ht final List.mem_cons_self)
  refine ⟨fun x hx => ?_, ?_, fun term hx d hd => ?_⟩
  · rcases Entry.mem_items.mp hx with hx | hx
    · obtain ⟨t, ht, rfl⟩ := List.mem_map.mp hx
      refine (termOf_hinted t).mono fun n hn => hn ▸ ⟨⟨t, ?_, rfl⟩, fun u hu => ?_⟩
      · exact List.append_cons before final _ ▸ List.mem_append_left _ ht
      · exact hbetween t ht u (hafter hu)
    · exact (hdescription x hx).mono fun n hn =>
        hn.mono (List.subset_append_right before _) (List.Subset.refl left)
  · refine List.pairwise_map.mpr (hterms.imp fun {t u} htu => ?_)
    exact .of_kinds (termOf_hinted t).toHintedBy (termOf_hinted u).toHintedBy
      fun a b ha hb => ha ▸ hb ▸ htu
  · obtain ⟨t, ht, rfl⟩ := List.mem_map.mp hx
    refine .of_kinds (termOf_hinted t).toHintedBy (hdescription d hd).toHintedBy fun a b ha hb => ?_
    exact ha ▸ Int.le_trans (hle t ht) (hb.first_le hfinal)

/-! ## Cells of tables -/

/-- The line of a cell or one of those gathered for it. -/
def OfCell (p : Table.PendingCell) (n : Int) : Prop := n = p.line ∨ ∃ entry ∈ p.lines, entry.1 = n

theorem OfCell.line_le {p : Table.PendingCell} (hp : p.Numbered P) (hn : OfCell p n) :
    P n ∧ p.line ≤ n := by
  rcases hn with rfl | ⟨entry, hentry, rfl⟩
  · exact ⟨hp.line, Int.le_refl _⟩
  · exact hp.lines entry hentry

theorem OfCell.le_line {p q : Table.PendingCell} (hpq : p.NotAfter q) (hn : OfCell p n) :
    n ≤ q.line := by
  rcases hn with rfl | ⟨entry, hentry, rfl⟩
  · exact hpq.1
  · exact hpq.2 entry hentry

/-- A cell starts no later than the blocks of its document. -/
theorem cellOf_hinted {attributes : List (Text × Text)} {p : Table.PendingCell}
    {blocks : List Element} {after : Cursor} (hp : p.Numbered P)
    (hblocks : p.holdsDocument = true →
      HintedAll (fun n => ∃ entry ∈ p.content, entry.1 = n) blocks) :
    (env.cellOf attributes p blocks after).cell.2.HintedBlock (OfCell p) := by
  unfold cellOf
  dsimp only
  split
  · rename_i hholds
    have hinner : (Element.document (some 1) none blocks after.attributes p.text).HintedBy
        fun n => ∃ entry ∈ p.content, entry.1 = n := (hblocks hholds).document nofun
    refine .of_parts rfl rfl (.inl rfl) ?_ ?_ (List.pairwise_singleton _ _) trivial
    · refine List.forall_mem_singleton.mpr (hinner.mono ?_)
      rintro n ⟨entry, hentry, rfl⟩
      exact .inr ⟨entry, p.content_subset hentry, rfl⟩
    · refine List.forall_mem_singleton.mpr fun n hn => ?_
      obtain ⟨entry, hentry, rfl⟩ := hinner.kind n hn
      exact (hp.lines entry (p.content_subset hentry)).2
  · exact .leaf rfl rfl (.inl rfl) rfl trivial

/-- The document in a cell is read from lines of the cell. -/
theorem unread_ofCell (marker : Text) (attributes : List (Text × Text)) {p : Table.PendingCell}
    (hp : p.Numbered P) : LinesGrow (Cursor.ofCell marker attributes p).unread ∧
      ∀ t ∈ (Cursor.ofCell marker attributes p).unread, ∃ entry ∈ p.content, entry.1 = t.line := by
  refine ⟨List.pairwise_map.mpr hp.content.2, fun t ht => ?_⟩
  obtain ⟨entry, hentry, rfl⟩ := List.mem_map.mp ht
  exact ⟨entry, hentry, rfl⟩

/-- The cells of a table are numbered by its lines. -/
theorem cells_tableBody {c : Cursor} (hgrow : LinesGrow c.unread) (opening : Token) :
    Table.NumberedCells (fun n => ∃ t ∈ c.tableBody opening, t.line = n)
      (Table.cells (c.tableBody opening)) := by
  obtain ⟨closing, hunread⟩ := tableSpan_eq opening.content c.unread
  unfold LinesGrow at hgrow
  rw [hunread] at hgrow
  exact Table.cells_numbered (List.pairwise_append.mp hgrow).1

/-- The cells of a table start on its lines, each no earlier than what is in the one before. -/
theorem tableAt_hinted {c : Cursor} {opening : Token} {read : Table.PendingCell → CellRead}
    (hgrow : LinesGrow (opening :: c.unread))
    (hread : ∀ p ∈ Table.cells (c.tableBody opening), (read p).cell.2.HintedBlock (OfCell p)) :
    let table := c.tableAt env opening ((Table.cells (c.tableBody opening)).map read)
    table.1.HintedBlock (ReadBetween (opening :: c.unread) table.2.unread) := by
  dsimp only
  rw [unread_tableAt]
  obtain ⟨headerRows, bodyRows, dropped, htable, hcells⟩ := c.tableAt_eq env opening
    ((Table.cells (c.tableBody opening)).map read)
  obtain ⟨closing, hunread⟩ := tableSpan_eq opening.content c.unread
  have hleft := (tableSpan_suffix opening.content c.unread).subset
  generalize (tableSpan opening.content c.unread).2.1 = left at hunread hleft ⊢
  have hparts := (List.pairwise_cons.mp hgrow).2
  have hnumbered := cells_tableBody hparts opening
  rw [hunread] at hparts
  have hbehind := (List.pairwise_append.mp hparts).2.2
  have hline (n : Int) (hn : ∃ t ∈ c.tableBody opening, t.line = n) :
      ReadBetween (opening :: c.unread) left n := by
    obtain ⟨t, ht, rfl⟩ := hn
    refine ⟨⟨t, List.mem_cons_of_mem _ (hunread ▸ List.mem_append_left _ ht), rfl⟩, fun u hu => ?_⟩
    exact hbehind t ht u (List.mem_append_right closing hu)
  have hall : ∀ x ∈ headerRows.flatten ++ bodyRows.flatten,
      x.HintedBlock (ReadBetween (opening :: c.unread) left) := by
    intro x hx
    rw [List.map_map] at hcells
    obtain ⟨p, hp, rfl⟩ := List.mem_map.mp (hcells ▸ List.mem_append_left dropped hx)
    exact (hread p hp).mono fun n hn => hline n (hn.line_le (hnumbered.each p hp)).1
  have hsorted : (headerRows.flatten ++ bodyRows.flatten).Pairwise (Apart (· ≤ ·)) := by
    refine List.Pairwise.sublist (hcells ▸ List.sublist_append_left _ dropped) ?_
    rw [List.map_map, List.pairwise_map]
    refine hnumbered.ordered.imp_of_mem fun {p q} hp hq hpq => ?_
    refine .of_kinds (hread p hp).toHintedBy (hread q hq).toHintedBy fun a b ha hb => ?_
    exact Int.le_trans (ha.le_line hpq) (hb.line_le (hnumbered.each q hq)).2
  rw [htable]
  exact .table (.first hgrow hleft) hall (fun n hn => hn.first_le hgrow) hsorted

/-! ## All that is read -/

/-- The hints of the elements of a part are of some kind, and go forward. -/
def Part.Hinted (P : Int → Prop) : (part : Part) → part.Value → Prop
  | .blocks .., es | .items .., es | .attached .., es => HintedAll P es
  | .block .., e | .attachedBlock, e => HintedAll P e.toList
  | .list .., e | .item .., e | .descriptionList .., e => e.HintedBlock P
  | .entries .., es => HintedEntries P es
  | .entry .., e => HintedEntry P e

/-- What is read first and what is read next. -/
theorem append_hinted {es others : List Element} {middle : List Token}
    (h : HintedAll (ReadBetween unread middle) es)
    (hothers : HintedAll (ReadBetween middle left) others) (hmiddle : middle <:+ unread)
    (hleft : left <:+ middle) : HintedAll (ReadBetween unread left) (es ++ others) :=
  h.append hothers (fun _ _ ha hb => ha.lt hb)
    (fun _ hn => hn.mono (List.Subset.refl unread) hleft.subset)
    (fun _ hn => hn.mono hmiddle.subset (List.Subset.refl left))

/-- The hints of all that is read are ordered and nested, and are lines of what was read. -/
theorem Reads.hinted {part : Part} {c last : Cursor} {value : part.Value}
    (h : env.Reads admits part c value last) (hgrow : LinesGrow (part.lines c)) :
    part.Hinted (ReadBetween (part.lines c) last.unread) value := by
  have hskip {c : Cursor} {t : Token} {rest : List Token} (h : c.skipBlank.unread = t :: rest) :
      t :: rest <:+ c.unread := h ▸ c.skipBlank_suffix
  have hnow {c : Cursor} {t : Token} {rest : List Token} (h : c.unread = t :: rest) :
      t :: rest <:+ c.unread := h ▸ List.suffix_refl _
  have hbehind {t : Token} {rest unread left : List Token} (hgrow : LinesGrow (t :: rest))
      (hunread : unread <:+ rest) (n : Int) (hn : ReadBetween unread left n) :
      ReadBetween (t :: rest) left n ∧ t.line ≤ n :=
    (hn.behind hgrow hunread.subset).imp_right Int.le_of_lt
  have hwithin {unread unread' left left' : List Token} (hunread : unread <:+ unread')
      (hleft : left' <:+ left) (n : Int) (hn : ReadBetween unread left n) :
      ReadBetween unread' left' n := hn.mono hunread.subset hleft.subset
  have hsame {unread : List Token} : unread <:+ unread := List.suffix_refl unread
  have htail {t : Token} {rest : List Token} : rest <:+ t :: rest := List.suffix_cons t rest
  induction h with
  | blocksEnd | blocksClosed | blocksHeading | attachedEnd | metadata | nothingAttached =>
    exact .nil
  | blocksCons h _ _ hfirst hmore ihfirst ihmore =>
    have ht := hskip h
    have hnext := hfirst.suffix_lines
    exact (append_hinted (ihfirst (hgrow.suffix ht)) (ihmore (hgrow.suffix (hnext.trans ht)))
      hnext hmore.suffix).mono (hwithin ht hsame)
  | lineBreak => exact .singleton (.leaf rfl rfl (.first hgrow hsame.subset) rfl trivial)
  | headingAlone => exact .singleton (.leaf rfl rfl (.first hgrow hsame.subset) rfl .nil)
  | heading _ hblocks ih =>
    exact .singleton ((ih (hgrow.suffix htail)).around rfl rfl rfl
      (.first hgrow hblocks.suffix.subset) (hbehind hgrow hsame) id)
  | listBlock _ _ ih | descriptionBlock _ _ ih => exact .singleton (ih hgrow)
  | framedLines _ hlines => exact framedLines?_hinted hlines hgrow
  | framedBlocks _ _ hblocks ih =>
    exact .singleton (framedBlocks_hinted (ih (hgrow.suffix htail))
      (.first hgrow hblocks.suffix.subset) (hbehind hgrow hsame))
  | @fence _ _ t c language =>
    exact .singleton (.leaf rfl rfl (.first hgrow (c.fenced_suffix t.line language).subset) rfl
      trivial)
  | @table _ _ t c _ _ _ _ _ ih =>
    refine .singleton (tableAt_hinted hgrow fun p hp => ?_)
    have hcell := (cells_tableBody (hgrow.suffix htail) t).each p hp
    obtain ⟨hcellGrow, hlines⟩ := unread_ofCell env.marker c.attributes hcell
    refine cellOf_hinted hcell fun hholds => (ih p hp hholds hcellGrow).mono ?_
    rintro n ⟨⟨u, hu, rfl⟩, -⟩
    exact hlines u hu
  | paragraph => exact paragraph_hinted env.rules _ hgrow
  | @list _ _ first _ _ _ hitems ih =>
    have hfirst := ReadBetween.first hgrow hitems.suffix.subset
    unfold listOf
    split
    all_goals exact (ih hgrow).around rfl rfl rfl hfirst (fun n hn => ⟨hn, hn.first_le hgrow⟩) id
  | itemsLast _ _ ih =>
    exact .singleton ((ih hgrow).mono (hwithin hsame (Cursor.skipBlank_suffix _)))
  | itemsCons hitem h _ hitems ihitem ihitems =>
    have ht := hskip h
    have hnext := hitem.suffix_lines
    have hmore := ihitems (hgrow.suffix (ht.trans hnext))
    exact append_hinted (.singleton (ihitem hgrow)) (hmore.mono (hwithin ht hsame)) hnext
      ((hitems.suffix.trans htail).trans ht)
  | @item _ _ c _ _ hattached ih =>
    have htext := c.pastText_suffix
    exact (ih (hgrow.suffix (htext.trans htail))).around rfl rfl rfl
      (.first hgrow (hattached.suffix.trans htext).subset) (hbehind hgrow htext) id
  | attachedCons h _ hfirst hmore ihfirst ihmore =>
    have hrest := htail.trans (hnow h)
    exact (append_hinted (ihfirst (hgrow.suffix hrest))
      (ihmore (hgrow.suffix (hfirst.suffix.trans hrest))) hfirst.suffix hmore.suffix).mono
      (hwithin hrest hsame)
  | attachedList h _ _ hlist hmore ihlist ihmore
  | attachedDescriptions h _ _ hlist hmore ihlist ihmore =>
    have ht := hskip h
    have hnext := hlist.suffix_lines
    exact (append_hinted (.singleton (ihlist (hgrow.suffix ht)))
      (ihmore (hgrow.suffix (hnext.trans ht))) hnext hmore.suffix).mono (hwithin ht hsame)
  | metadataAttached h _ hblock _ _ _ ihmore =>
    have hnext := hblock.suffix.trans (h ▸ htail)
    exact (ihmore (hgrow.suffix hnext)).mono (hwithin hnext hsame)
  | blockAttached h _ _ _ ih =>
    have ht := hnow h
    exact (ih (hgrow.suffix ht)).mono (hwithin ht hsame)
  | descriptionList hentries ih =>
    exact (ih hgrow).descriptionList (.first hgrow hentries.suffix.subset)
      fun n hn => hn.first_le hgrow
  | entriesLast _ _ ih =>
    exact .singleton ((ih hgrow).mono (hwithin hsame (Cursor.skipBlank_suffix _)))
  | entriesCons hentry h _ hentries ihentry ihentries =>
    have ht := hskip h
    have hnext := hentry.suffix_lines
    have hmore := ihentries (hgrow.suffix (ht.trans hnext))
    have hlast := (hentries.suffix.trans htail).trans ht
    exact .cons (ihentry hgrow) hmore (fun a b ha hb => ha.lt (hwithin ht hsame b hb))
      (hwithin hsame hlast) (hwithin (ht.trans hnext) hsame)
  | @entry _ delimiter description first c _ _ hattached ih =>
    have hentry := c.entry_suffix delimiter first description
    exact entryOf_hinted hgrow hattached.suffix (ih (hgrow.suffix (hentry.trans htail)))

end Reading

/-! ## Documents -/

/-- The hints of a document are ordered and nested, and are lines it was read from. -/
theorem Cursor.readDocument_hinted {c : Cursor} (env : Reading) (allowHeader : Bool)
    (source : Text) (hgrow : LinesGrow c.unread) :
    (c.readDocument env allowHeader source).1.HintedBy fun n => ∃ t ∈ c.unread, t.line = n := by
  have hblocks {start : Cursor} (hstart : start.unread <:+ c.unread) :
      Element.HintedAll (fun n => ∃ t ∈ start.unread, t.line = n)
        (env.blocks false (-1) none start).value :=
    Element.HintedAll.mono ((env.blocks_reads false (-1) none start).hinted (hgrow.suffix hstart))
      fun n hn => hn.1
  have hwithin {start : Cursor} (hstart : start.unread <:+ c.unread) (n : Int)
      (hn : ∃ t ∈ start.unread, t.line = n) : ∃ t ∈ c.unread, t.line = n := by
    obtain ⟨t, ht, hline⟩ := hn
    exact ⟨t, hstart.subset ht, hline⟩
  cases allowHeader with
  | false => exact (hblocks (List.suffix_refl _)).document nofun
  | true =>
    have hstart := c.header_keeps.1
    refine ((hblocks hstart).mono (hwithin hstart)).document fun title htitle => ?_
    obtain ⟨t, rest, hline, -, rfl, hpast⟩ := Cursor.header_title htitle
    refine ⟨t.line, rfl, ⟨t, hline.subset List.mem_cons_self, rfl⟩, fun x hx m hm => ?_⟩
    -- The blocks are read from what is left behind the title.
    obtain ⟨u, hu, rfl⟩ := ((hblocks hstart).blocks x hx).kind m hm
    exact Int.le_of_lt ((List.pairwise_cons.mp (hgrow.suffix hline)).1 u (hpast.subset hu))

/-- The lines of a text are numbered from one on. -/
theorem Source.tokens_grow (s : Source) (marker : Text) : LinesGrow (s.tokens marker) ∧
    ∀ t ∈ s.tokens marker, 1 ≤ t.line ∧ t.line ≤ s.count := by
  refine ⟨List.pairwise_map.mpr s.numbers_numbered.growing, fun t ht => ?_⟩
  obtain ⟨entry, hentry, rfl⟩ := List.mem_map.mp ht
  obtain ⟨index, hnumber, hline⟩ := s.numbers_numbered.lines_eq entry hentry
  have hcount : index < s.count := (List.getElem?_eq_some_iff.mp hline).1
  rw [Token.line_ofEntry]
  omega

/-- A document that a text is read as is read from the place before its first line. -/
theorem Element.ofText_eq_ok {rules : Rules.Reading} {marker : Marker} {t : Text} {root : Element}
    (h : (Element.ofText rules marker t).document = .ok root) :
    (((Source.ofText t).start marker.textD).readDocument ⟨rules, marker.textD⟩ true t).1
      = root := by
  unfold ofText ofLines Tokens.ofLines? at h
  split at h
  · cases h
  · rename_i tokens htokens
    split at htokens
    · cases htokens
    · obtain rfl := Option.some.inj htokens
      dsimp only at h
      split at h
      · exact Except.ok.inj h
      · cases h

/-- Whatever document a text is read as, every element in it that is no document starts on a line
of the text and every document on line 1, the hints in source order do not go back, and those of
siblings go forward. -/
theorem Element.ofText_hints {rules : Rules.Reading} {marker : Marker} {t : Text} {root : Element}
    (h : (Element.ofText rules marker t).document = .ok root) :
    (∀ e ∈ root.preorder,
      if e.isDocument then e.line = some 1
      else ∃ line, e.line = some line ∧ 1 ≤ line ∧ line ≤ t.lines.length) ∧
    root.hints.Pairwise (· ≤ ·) ∧ ∀ e ∈ root.preorder, e.PartsApart := by
  obtain ⟨hgrow, hnumber⟩ := (Source.ofText t).tokens_grow marker.textD
  have hread := Cursor.readDocument_hinted (c := (Source.ofText t).start marker.textD)
    ⟨rules, marker.textD⟩ true t hgrow
  rw [ofText_eq_ok h] at hread
  refine ⟨fun e he => ?_, hread.sorted, fun e he => (hread.every e he).apart⟩
  have hline := (hread.every e he).line
  cases hdocument : e.isDocument with
  | true => rwa [hdocument] at hline
  | false =>
    rw [hdocument, if_neg Bool.false_ne_true] at hline
    obtain ⟨n, hn⟩ := Option.isSome_iff_exists.mp hline
    obtain ⟨u, hu, rfl⟩ := hread.kind n (mem_hints he hdocument hn)
    exact ⟨u.line, hn, hnumber u hu⟩

/-- A title, a term with its description on one line, and a table with a document in its cell. -/
theorem Element.ofText_hints_nested :
    ∃ root, (Element.ofText {} (.text Marker.slashes)
        "= T\n\na:: b\n\n|===\na|c\n|===".toList).document = .ok root ∧
      root.hints = [1, 3, 3, 3, 5, 6, 6] ∧ root.hints.Pairwise (· ≤ ·) := by
  have hread : (Element.ofText {} (.text Marker.slashes)
      "= T\n\na:: b\n\n|===\na|c\n|===".toList).document
        = .ok (.document (some 1) (some ⟨some 1, ['T'], 0⟩)
          [.descriptionList (some 3) "::".toList [⟨[.item (some 3) (some ['a']) none []],
              some (.item (some 3) (some ['b']) none [])⟩],
            .table (some 5) [] [[.cell (some 6) ['c'] (some Element.asciidocStyle)
              (some (.document (some 1) none [.paragraph (some 6) [['c']]] [] ['c'])) 1]]]
          [] "= T\n\na:: b\n\n|===\na|c\n|===".toList) := by
    with_unfolding_all rfl
  refine ⟨_, hread, ?_, (ofText_hints hread).2.1⟩
  simp [hints_eq, ownHints, isDocument, titleLine, parts, Entry.items, line]

end Asciidoc
