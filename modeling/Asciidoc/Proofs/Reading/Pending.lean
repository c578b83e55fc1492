import Asciidoc.Proofs.Reading.Hints
import Asciidoc.Proofs.Reading.Lists

/-!
# What is left pending behind a container

What lines say about the block after them is pending until a block starts. A block of blocks and a
list start with nothing pending, and so does every block inside them, but nothing makes a container
give up at its end what was said last inside it. It goes to the block behind the container.

Such a line is told by what follows it (`CutOff`): a run of blocks ends at its closing delimiter,
before a heading or with the last line, and after a plus sign a blank line is enough. The law
`pending_of_container` says that nothing else is left pending: behind a container there is what the
lines that are cut off have said since the last block started in it, and nothing from before.

The induction goes over what reading can come to. A part of a container either keeps what was
pending before it and adds what its own lines say (`Cursor.Keeps`), or has started a block
(`Cursor.Renews`).
-/

namespace Asciidoc

open Text

/-! ## What a line says -/

namespace BlockAttributes

variable {a : BlockAttributes}

/-- What is known about the next block after one more line. -/
def hearing (a : BlockAttributes) (t : Token) : BlockAttributes :=
  match t.kind with
  | .blockAttribute => (a.add t.content).attributes
  | .anchor => a.name identifierKey t.content
  | .blockTitle => a.name titleKey t.content
  | _ => a

theorem hearing_of_not_isMetadata {t : Token} (h : t.isMetadata = false) : a.hearing t = a := by
  unfold hearing
  split <;> simp_all [Token.isMetadata]

theorem foldl_hearing_of_not_isMetadata {lines : List Token}
    (h : ∀ t ∈ lines, t.isMetadata = false) : lines.foldl hearing a = a := by
  induction lines with
  | nil => rfl
  | cons t rest ih =>
    obtain ⟨ht, hrest⟩ := List.forall_mem_cons.mp h
    rw [List.foldl_cons, hearing_of_not_isMetadata ht, ih hrest]

theorem name_ne_empty (a : BlockAttributes) (key value : Text) : a.name key value ≠ {} := by
  unfold name
  split
  · simp
  · intro h
    have hput : Entries.put key value a.named = [] := congrArg named h
    cases hnamed : a.named with
    | nil => simp [hnamed, Entries.put] at hput
    | cons entry rest =>
      rw [hnamed, Entries.put] at hput
      split at hput <;> cases hput

theorem addOptions_ne_empty (a : BlockAttributes) (options : List Text) :
    a.addOptions options ≠ {} := by
  simp [addOptions]

theorem addEntry_ne_empty (a : BlockAttributes) (key value : Text) : a.addEntry key value ≠ {} := by
  unfold addEntry
  dsimp only
  split
  · exact a.addOptions_ne_empty _
  · exact a.name_ne_empty _ _

theorem addStyle_ne_empty (h : a ≠ {}) (part : Text) : a.addStyle part ≠ {} := by
  have hnames (marks : List (Char × Text)) (a : BlockAttributes) (h : a ≠ {}) :
      marks.foldl (fun a mark => a.name (if mark.1 = '#' then identifierKey else roleKey) mark.2) a
        ≠ {} := by
    induction marks generalizing a with
    | nil => exact h
    | cons mark rest ih => exact ih _ (a.name_ne_empty _ _)
  unfold addStyle
  split
  · exact h
  · dsimp only
    split
    · split
      · exact hnames _ a h
      · exact name_ne_empty _ _ _
    · exact addOptions_ne_empty _ _

theorem addParts_ne_empty (h : a ≠ {}) (atFirst : Bool) (parts : List Text) :
    (a.addParts atFirst parts).1 ≠ {} := by
  induction parts generalizing a atFirst with
  | nil => exact h
  | cons part rest ih =>
    unfold addParts
    split
    · exact ih (a.addEntry_ne_empty _ _) false
    · split
      · exact ih (addStyle_ne_empty h part) false
      · exact ih h false

/-- What was said about a block is not taken back by a later line. -/
theorem hearing_ne_empty (h : a ≠ {}) (t : Token) : a.hearing t ≠ {} := by
  unfold hearing
  split
  · have hparts := addParts_ne_empty h true (parts t.content)
    unfold add
    dsimp only
    split
    · exact hparts
    · split
      · simp
      · simp
      · exact hparts
  · exact a.name_ne_empty _ _
  · exact a.name_ne_empty _ _
  · exact h

/-- Lines have said nothing exactly if none of them has. -/
theorem foldl_hearing_eq_empty_iff {lines : List Token} :
    lines.foldl hearing {} = {} ↔ ∀ t ∈ lines, hearing {} t = {} := by
  have hkeeps (lines : List Token) (a : BlockAttributes) (h : a ≠ {}) :
      lines.foldl hearing a ≠ {} := by
    induction lines generalizing a with
    | nil => exact h
    | cons t rest ih => exact ih _ (hearing_ne_empty h t)
  induction lines with
  | nil => simp
  | cons t rest ih =>
    rw [List.foldl_cons, List.forall_mem_cons]
    by_cases ht : hearing {} t = {}
    · rw [ht]
      exact ih.trans (and_iff_right rfl).symm
    · exact iff_of_false (hkeeps rest _ ht) fun h => ht h.1

end BlockAttributes

theorem Cursor.pending_described (c : Cursor) (t : Token) :
    (c.described t).pending = c.pending.hearing t := by
  unfold described BlockAttributes.hearing
  cases t.kind <;> rfl

/-! ## Lines that are cut off -/

/-- A heading of any level. -/
def Token.isHeading (t : Token) : Bool :=
  match t.kind with
  | .heading _ => true
  | _ => false

/-- After lines that say something about the next block, and after blank lines and comments, there
is nothing more, or a delimiter or a heading. -/
def EndsRun (following : List Token) : Prop :=
  ∀ t, (following.dropWhile fun t => t.isMetadata || t.isSkipped).head? = some t →
    t.isDelimiter = true ∨ t.isHeading = true

/-- After lines that say something about the next block there is nothing more, or a blank line. -/
def EndsAttached (following : List Token) : Prop :=
  ∀ t, (following.dropWhile Token.isMetadata).head? = some t → t.kind = .blank

/-- No block follows, or none that belongs with what was before. -/
def CutOff (following : List Token) : Prop := EndsRun following ∨ EndsAttached following

theorem EndsRun.cons {t : Token} {following : List Token} (h : EndsRun following)
    (ht : (t.isMetadata || t.isSkipped) = true) : EndsRun (t :: following) := by
  unfold EndsRun
  rw [List.dropWhile_cons_of_pos (by simpa using ht)]
  exact h

theorem EndsAttached.cons {t : Token} {following : List Token} (h : EndsAttached following)
    (ht : t.isMetadata = true) : EndsAttached (t :: following) := by
  unfold EndsAttached
  rw [List.dropWhile_cons_of_pos ht]
  exact h

theorem endsAttached_of_blank {following : List Token}
    (h : ∀ t, following.head? = some t → t.kind = .blank) : EndsAttached following := by
  cases following with
  | nil => exact nofun
  | cons t rest =>
    have ht : t.kind = .blank := h t rfl
    unfold EndsAttached
    rw [List.dropWhile_cons_of_neg (by simp [Token.isMetadata, ht])]
    exact h

theorem EndsRun.of_dropWhile {following : List Token}
    (h : EndsRun (following.dropWhile Token.isSkipped)) : EndsRun following := by
  induction following with
  | nil => exact h
  | cons t rest ih =>
    by_cases ht : t.isSkipped = true
    · rw [List.dropWhile_cons_of_pos ht] at h
      exact (ih h).cons (by simp [ht])
    · rwa [List.dropWhile_cons_of_neg ht] at h

/-! ## How what is pending moves -/

/-- From the start of some lines to a place what was pending is kept, the lines on the way have
added to it, and those of them that say something are cut off. -/
structure Leaves (before : BlockAttributes) (start : List Token) (last : Cursor) : Prop where
  pending : ∃ lines, start = lines ++ last.unread ∧
    last.pending = lines.foldl BlockAttributes.hearing before
  cutOff : ∀ t following, t :: following <:+ start → last.unread.length ≤ following.length →
    t.isMetadata = true → CutOff following

namespace Cursor

/-- What was pending at a place is kept up to another, and what lines between have added to it is
cut off. -/
def Keeps (c last : Cursor) : Prop := Leaves c.pending c.unread last

/-- Nothing that was pending at a place is kept up to another; since a block started, lines that are
cut off have said what is pending there. -/
def Renews (c last : Cursor) : Prop := ∃ start, start <:+ c.unread ∧ Leaves {} start last

/-- What is pending at a place comes from another or from lines between. -/
def Carries (c last : Cursor) : Prop := c.Keeps last ∨ c.Renews last

end Cursor

variable {c next last : Cursor}

/-- A line that begins an end of lines, the last of which lie behind it, is one of the others. -/
theorem exists_of_suffix_append {t : Token} {following lines behind : List Token}
    (h : t :: following <:+ lines ++ behind) (hlength : behind.length ≤ following.length) :
    ∃ first more, lines = first ++ t :: more ∧ following = more ++ behind := by
  obtain ⟨more, rfl⟩ : behind <:+ following :=
    List.suffix_of_suffix_length_le (List.suffix_append _ _) ((List.suffix_cons _ _).trans h)
      hlength
  obtain ⟨first, hfirst⟩ := h
  refine ⟨first, more, ?_, rfl⟩
  exact (List.append_cancel_right (by simpa using hfirst)).symm

theorem Leaves.suffix {before : BlockAttributes} {start : List Token}
    (h : Leaves before start last) : last.unread <:+ start := by
  obtain ⟨lines, hlines, -⟩ := h.pending
  exact ⟨lines, hlines.symm⟩

theorem Leaves.trans {before : BlockAttributes} {start : List Token}
    (h : Leaves before start next) (hnext : next.Keeps last) : Leaves before start last := by
  obtain ⟨first, rfl, hpending⟩ := h.pending
  obtain ⟨more, hmore, hlast⟩ := hnext.pending
  refine ⟨⟨first ++ more, ?_, ?_⟩, fun t following hsuffix hlength ht => ?_⟩
  · rw [hmore, List.append_assoc]
  · rw [hlast, hpending, List.foldl_append]
  · rcases Nat.lt_or_ge following.length next.unread.length with hlt | hle
    · have hbehind : t :: following <:+ next.unread :=
        List.suffix_of_suffix_length_le hsuffix (List.suffix_append _ _) hlt
      exact hnext.cutOff t following hbehind hlength ht
    · exact h.cutOff t following hsuffix hle ht

namespace Cursor

theorem Keeps.trans (h : c.Keeps next) (hnext : next.Keeps last) : c.Keeps last :=
  Leaves.trans h hnext

theorem Renews.suffix (h : c.Renews last) : last.unread <:+ c.unread := by
  obtain ⟨start, hstart, hleaves⟩ := h
  exact hleaves.suffix.trans hstart

theorem Renews.of_suffix (h : next.Renews last) (hnext : next.unread <:+ c.unread) :
    c.Renews last := by
  obtain ⟨start, hstart, hleaves⟩ := h
  exact ⟨start, hstart.trans hnext, hleaves⟩

/-- What is kept from where nothing is pending is new. -/
theorem Keeps.renews (h : c.Keeps last) (hc : c.pending = {}) : c.Renews last :=
  ⟨c.unread, List.suffix_refl _, hc ▸ h⟩

theorem Carries.renews (h : c.Carries last) (hc : c.pending = {}) : c.Renews last :=
  h.elim (fun h => h.renews hc) id

theorem Renews.carries (h : c.Renews next) (hnext : next.Carries last) : c.Renews last := by
  rcases hnext with hnext | hnext
  · obtain ⟨start, hstart, hleaves⟩ := h
    exact ⟨start, hstart, hleaves.trans hnext⟩
  · exact hnext.of_suffix h.suffix

theorem Keeps.carries (h : c.Keeps next) (hnext : next.Carries last) : c.Carries last :=
  hnext.imp h.trans fun hnext => hnext.of_suffix (Leaves.suffix h)

theorem Carries.trans (h : c.Carries next) (hnext : next.Carries last) : c.Carries last :=
  h.elim (fun h => h.carries hnext) fun h => .inr (h.carries hnext)

/-- Lines that say nothing keep what is pending. -/
theorem keeps_of_silent {lines : List Token} (hlines : c.unread = lines ++ last.unread)
    (hpending : last.pending = c.pending) (h : ∀ t ∈ lines, t.isMetadata = false) :
    c.Keeps last := by
  refine ⟨⟨lines, hlines, ?_⟩, fun t following hsuffix hlength ht => ?_⟩
  · rw [hpending, BlockAttributes.foldl_hearing_of_not_isMetadata h]
  · obtain ⟨first, more, rfl, -⟩ := exists_of_suffix_append (hlines ▸ hsuffix) hlength
    rw [h t (List.mem_append_right _ List.mem_cons_self)] at ht
    cases ht

theorem Keeps.refl (hunread : last.unread = c.unread) (hpending : last.pending = c.pending) :
    c.Keeps last := by
  have hlines : c.unread = [] ++ last.unread := hunread.symm
  exact keeps_of_silent hlines hpending nofun

/-- A block has started. -/
theorem renews_of_pending (hpending : last.pending = {}) (h : last.unread <:+ c.unread) :
    c.Renews last :=
  ⟨last.unread, h, ⟨⟨[], rfl, hpending⟩, fun t following hsuffix hlength => by
    have := hsuffix.length_le
    simp only [List.length_cons] at this
    omega⟩⟩

/-! ## Lines that say nothing -/

theorem skipBlank_keeps (c : Cursor) : c.Keeps c.skipBlank := by
  refine keeps_of_silent (List.takeWhile_append_dropWhile (p := Token.isSkipped)).symm rfl
    fun t ht => ?_
  have hskipped := List.mem_takeWhile_imp ht
  unfold Token.isMetadata
  split <;> simp_all [Token.isSkipped]

theorem keeps_moveTo {t : Token} {rest : List Token} (h : c.unread = t :: rest)
    (ht : t.isMetadata = false) : c.Keeps (c.moveTo rest) := by
  have hlines : c.unread = [t] ++ (c.moveTo rest).unread := h
  exact keeps_of_silent hlines rfl (List.forall_mem_singleton.mpr ht)

theorem keeps_of_skipBlank {t : Token} {rest : List Token} (h : c.skipBlank.unread = t :: rest)
    (ht : t.isMetadata = false) : c.Keeps (c.skipBlank.moveTo rest) :=
  c.skipBlank_keeps.trans (keeps_moveTo h ht)

theorem pastText_keeps (c : Cursor) : c.Keeps c.pastText := by
  obtain ⟨run, hunread, -, hrun⟩ := itemSpan_eq c.unread
  refine keeps_of_silent hunread rfl fun t ht => ?_
  rcases hrun t ht with hkind | hkind <;> simp [Token.isMetadata, hkind]

theorem pastTerms_keeps (c : Cursor) (delimiter : Text) (first : Token) (description : Text) :
    c.Keeps (c.pastTerms delimiter first description) := by
  obtain ⟨others, -, hunread, hothers⟩ := Reading.termSpan_terms delimiter first description c.unread
  have hterms : c.Keeps (c.moveTo (termSpan delimiter first description c.unread).2.2) := by
    refine keeps_of_silent hunread rfl fun t ht => ?_
    obtain ⟨next, hkind⟩ := hothers t ht
    simp [Token.isMetadata, hkind]
  unfold pastTerms
  dsimp only
  split
  · exact hterms.trans (skipBlank_keeps _)
  · exact hterms

/-- A line that says something about the next block is added to what is pending. -/
theorem described_keeps {t : Token} {rest : List Token} (h : c.unread = t :: rest)
    (hcutOff : CutOff rest) : c.Keeps ((c.moveTo rest).described t) := by
  refine ⟨⟨[t], ?_, ?_⟩, fun u following hsuffix hlength _ => ?_⟩
  · rw [Reading.unread_described]
    exact h
  · rw [pending_described]
    rfl
  · rw [Reading.unread_described] at hlength
    rw [h] at hsuffix
    obtain ⟨-, rfl⟩ := List.cons.inj (hsuffix.eq_of_length_le (Nat.succ_le_succ hlength))
    exact hcutOff

end Cursor

/-! ## Parts of a document -/

namespace Reading

variable {env : Reading} {admits : Token → Cursor → Prop} {c last : Cursor}

/-- What a part does to what is pending. -/
def Part.Passes : (part : Part) → Cursor → part.Value → Cursor → Prop
  | .block _ _ t, c, value, last =>
    t.isMetadata = true ∧ value = none ∧ last = c.described t ∨ c.Renews last
  | .list .., c, _, last | .descriptionList .., c, _, last => c.Renews last
  | .blocks .., c, _, last => c.Keeps last ∧ EndsRun c.unread ∨ c.Renews last
  | .attachedBlock, c, _, last => c.Keeps last ∧ EndsAttached c.unread ∨ c.Renews last
  | .items .., c, _, last | .item .., c, _, last | .attached _, c, _, last
  | .entries .., c, _, last | .entry .., c, _, last => c.Carries last

theorem carries_of_blocks {inList : Bool} {level : Int} {closing : Option Text}
    {bs : List Element} (h : (Part.blocks inList level closing).Passes c bs last) :
    c.Carries last :=
  h.imp_left And.left

theorem isMetadata_of_marker? {t : Token} {marker : Text} (h : t.marker? = some marker) :
    t.isMetadata = false := by
  rcases Token.kind_of_marker? h with ⟨checked, hkind⟩ | hkind <;> simp [Token.isMetadata, hkind]

theorem isMetadata_of_isDelimiter {t : Token} (h : t.isDelimiter = true) :
    t.isMetadata = false := by
  unfold Token.isMetadata
  split <;> simp_all [Token.isDelimiter]

theorem isMetadata_of_description? {t : Token} {delimiter other : Text}
    (h : t.description? delimiter = some other) : t.isMetadata = false := by
  unfold Token.isMetadata
  split <;> simp_all [Token.description?]

/-- A delimiter or a heading that is come to ends what lines have said about the next block. -/
theorem endsRun_of_skipBlank {t : Token} {rest : List Token} (h : c.skipBlank.unread = t :: rest)
    (ht : t.isDelimiter = true ∨ t.isHeading = true) : EndsRun c.unread := by
  refine .of_dropWhile ?_
  rw [show c.unread.dropWhile Token.isSkipped = t :: rest from h]
  intro u hu
  have hkind : (t.isMetadata || t.isSkipped) = false := by
    unfold Token.isDelimiter Token.isHeading at ht
    unfold Token.isMetadata
    rcases ht with ht | ht <;> split at ht <;> simp_all [Token.isSkipped]
  rw [List.dropWhile_cons_of_neg (by simp [hkind])] at hu
  obtain rfl := Option.some.inj hu
  exact ht

theorem pending_tableAt (env : Reading) (c : Cursor) (opening : Token) (cells : List CellRead) :
    (c.tableAt env opening cells).2.pending = {} := by
  have hpast : (c.clearPending.pastTable opening).pending = {} := by
    unfold Cursor.pastTable
    dsimp only
    split <;> rfl
  unfold Cursor.tableAt Cursor.closeTable
  dsimp only
  split <;> exact hpast

theorem pending_verbatim (c : Cursor) (closing : Text) :
    (c.clearPending.verbatim closing).cursor.pending = {} := by
  unfold Cursor.verbatim
  dsimp only
  split <;> rfl

theorem pending_paragraph (c : Cursor) (rules : Rules.Reading) (inList : Bool) (t : Token) :
    (c.paragraph rules inList t).cursor.pending = {} := by
  unfold Cursor.paragraph
  dsimp only
  split <;> rfl

/-- Whatever reading a part comes to, what is pending behind it is what was pending before it and
what its own lines have said, or only what these have said since a block started. -/
theorem Reads.passes {part : Part} {value : part.Value} (h : env.Reads admits part c value last) :
    part.Passes c value last := by
  induction h with
  | @blocksEnd _ _ closing c h =>
    have hends : EndsRun c.unread := by
      refine .of_dropWhile ?_
      rw [show c.unread.dropWhile Token.isSkipped = [] from h]
      exact nofun
    refine .inl ⟨c.skipBlank_keeps.trans ?_, hends⟩
    cases closing with
    | none => exact .refl rfl rfl
    | some delimiter => exact .refl rfl rfl
  | blocksClosed h _ ht =>
    exact .inl ⟨Cursor.keeps_of_skipBlank h (isMetadata_of_isDelimiter ht),
      endsRun_of_skipBlank h (.inl ht)⟩
  | @blocksHeading _ _ c t rest h ht =>
    have hheading : t.isHeading = true := by
      unfold Token.endsSection at ht
      unfold Token.isHeading
      split at ht <;> simp_all
    exact .inl ⟨c.skipBlank_keeps, endsRun_of_skipBlank h (.inr hheading)⟩
  | @blocksCons _ _ _ c t rest first next more last h _ _ _ _ ihfirst ihmore =>
    rcases ihfirst with ⟨ht, -, rfl⟩ | hfirst
    -- A line was added to what is pending. Whether that stays is told by what follows.
    · have hunread : ((c.skipBlank.moveTo rest).described t).unread = rest := unread_described _ t
      rcases ihmore with ⟨hmore, hends⟩ | hmore
      · rw [hunread] at hends
        refine .inl ⟨c.skipBlank_keeps.trans
          ((Cursor.described_keeps h (.inl hends)).trans hmore), .of_dropWhile ?_⟩
        rw [show c.unread.dropWhile Token.isSkipped = t :: rest from h]
        exact hends.cons (by simp [ht])
      · refine .inr (hmore.of_suffix ?_)
        rw [hunread]
        exact Cursor.suffix_of_skipBlank h
    · exact .inr ((hfirst.carries (carries_of_blocks ihmore)).of_suffix
        (Cursor.suffix_of_skipBlank h))
  | metadata ht => exact .inl ⟨ht, rfl, rfl⟩
  | lineBreak | headingAlone => exact .inr (Cursor.renews_of_pending rfl (List.suffix_refl _))
  | heading _ _ ih | framedBlocks _ _ _ ih =>
    exact .inr ((carries_of_blocks ih).renews rfl)
  | listBlock _ _ ih | descriptionBlock _ _ ih => exact .inr ih
  | @framedLines _ _ t c frame r _ hlines =>
    refine .inr (Cursor.renews_of_pending ?_ (Cursor.framedLines?_suffix hlines))
    rw [Cursor.framedLines?_cursor hlines]
    exact pending_verbatim c t.content
  | @fence _ _ t c language =>
    exact .inr (Cursor.renews_of_pending (pending_verbatim c _) (c.fenced_suffix t.line language))
  | table => exact .inr (Cursor.renews_of_pending (pending_tableAt _ _ _ _) (tableAt_suffix _ _ _ _))
  | @paragraph inList _ t c =>
    exact .inr (Cursor.renews_of_pending (pending_paragraph _ _ _ _)
      (c.paragraph_suffix env.rules inList t))
  | list _ ih | descriptionList _ ih => exact ih.renews rfl
  | itemsLast _ _ ih | entriesLast _ _ ih =>
    exact ih.trans (.inl (Cursor.skipBlank_keeps _))
  | itemsCons _ h ht _ ihfirst ihmore =>
    exact ihfirst.trans ((Cursor.keeps_of_skipBlank h (isMetadata_of_marker? ht)).carries ihmore)
  | entriesCons _ h ht _ ihfirst ihmore =>
    exact ihfirst.trans
      ((Cursor.keeps_of_skipBlank h (isMetadata_of_description? ht)).carries ihmore)
  | @item _ _ c _ _ _ ih => exact c.pastText_keeps.carries ih
  | attachedEnd => exact .inl (.refl rfl rfl)
  | attachedCons h ht _ _ ihfirst ihmore =>
    have hplus := Cursor.keeps_moveTo h (by simp [Token.isMetadata, ht])
    exact (hplus.carries (ihfirst.imp_left And.left)).trans ihmore
  | attachedList h _ _ _ _ ihlist ihmore =>
    exact .inr ((ihlist.of_suffix (Cursor.suffix_of_skipBlank h)).carries ihmore)
  | attachedDescriptions h _ _ _ _ ihlist ihmore =>
    exact .inr ((ihlist.of_suffix (Cursor.suffix_of_skipBlank h)).carries ihmore)
  | nothingAttached h => exact .inl ⟨.refl rfl rfl, endsAttached_of_blank h⟩
  | @metadataAttached c t rest next e last h _ _ _ _ ihblock ihmore =>
    rcases ihblock with ⟨ht, -, rfl⟩ | hblock
    · have hunread : ((c.moveTo rest).described t).unread = rest := unread_described _ t
      rcases ihmore with ⟨hmore, hends⟩ | hmore
      · rw [hunread] at hends
        refine .inl ⟨(Cursor.described_keeps h (.inr hends)).trans hmore, ?_⟩
        exact h ▸ hends.cons ht
      · refine .inr (hmore.of_suffix ?_)
        rw [hunread, h]
        exact List.suffix_cons t rest
    · exact .inr ((hblock.carries (ihmore.imp_left And.left)).of_suffix (h ▸ List.suffix_cons _ _))
  | @blockAttached c t rest e next h _ _ ht ih =>
    rcases ih with ⟨hmetadata, hnone, -⟩ | hblock
    · exact absurd ⟨by rw [hnone]; rfl, hmetadata⟩ ht
    · exact .inr (hblock.of_suffix (h ▸ List.suffix_cons _ _))
  | @entry _ delimiter description first c _ _ _ ih =>
    exact (c.pastTerms_keeps delimiter first description).carries
      ((Cursor.pastText_keeps _).carries ih)

/-- The places behind a block between delimiters, a list or a description list that is read from a
place. -/
inductive EndsContainer (env : Reading) (c : Cursor) : Cursor → Prop where
  | framed (frame : Option Frame) (opening : Token) :
    EndsContainer env c (env.framed frame opening c).cursor
  | list (enclosing : List Text) (marker : Text) (first : Token) :
    EndsContainer env c (env.list enclosing marker first c).cursor
  | descriptionList (enclosing : List Text) (delimiter description : Text) (first : Token) :
    EndsContainer env c (env.descriptionList enclosing delimiter description first c).cursor

theorem EndsContainer.renews (h : env.EndsContainer c last) : c.Renews last := by
  cases h with
  | framed frame opening =>
    rw [Reading.framed.eq_def]
    split
    next r hlines =>
      refine Cursor.renews_of_pending ?_ (Cursor.framedLines?_suffix hlines)
      rw [Cursor.framedLines?_cursor hlines]
      exact pending_verbatim c opening.content
    next =>
      have hblocks := (env.blocks_reads false (-1) (some opening.content) c.clearPending).passes
      exact (carries_of_blocks hblocks).renews rfl
  | list enclosing marker first => exact (env.list_reads enclosing marker first c).passes
  | descriptionList enclosing delimiter description first =>
    exact (env.descriptionList_reads enclosing delimiter description first c).passes

/-- Behind a container is pending what the last of its lines have said, since no block started after
them in it, and nothing from before it. All of those lines that say something about a block are cut
off, so that nothing is pending if no line there is cut off. -/
theorem pending_of_container (h : env.EndsContainer c last) :
    (∃ lines, lines ++ last.unread <:+ c.unread ∧
      last.pending = lines.foldl BlockAttributes.hearing {} ∧
      (last.pending = {} ↔ ∀ t ∈ lines, BlockAttributes.hearing {} t = {}) ∧
      ∀ before t behind, lines = before ++ t :: behind → t.isMetadata = true →
        CutOff (behind ++ last.unread)) ∧
    ((∀ t following, t :: following <:+ c.unread → t.isMetadata = true → ¬CutOff following) →
      last.pending = {}) := by
  obtain ⟨start, hstart, ⟨lines, rfl, hpending⟩, hcutOff⟩ := h.renews
  refine ⟨⟨lines, hstart, hpending, ?_, ?_⟩, fun hnone => ?_⟩
  · rw [hpending]
    exact BlockAttributes.foldl_hearing_eq_empty_iff
  · rintro before t behind rfl ht
    refine hcutOff t (behind ++ last.unread) ⟨before, by simp⟩ ?_ ht
    rw [List.length_append]
    exact Nat.le_add_left _ _
  · rw [hpending]
    refine BlockAttributes.foldl_hearing_of_not_isMetadata fun t ht => ?_
    obtain ⟨before, behind, rfl⟩ := List.append_of_mem ht
    have hsuffix : t :: (behind ++ last.unread) <:+ (before ++ t :: behind) ++ last.unread :=
      ⟨before, by simp⟩
    by_contra hmetadata
    rw [Bool.not_eq_false] at hmetadata
    refine hnone t _ (hsuffix.trans hstart) hmetadata (hcutOff t _ hsuffix ?_ hmetadata)
    rw [List.length_append]
    exact Nat.le_add_left _ _

/-- A style last before a closing delimiter is left pending, and turns the paragraph behind the block
into a listing. -/
theorem pending_of_container_source :
    (∃ (opening : Token) (c : Cursor),
      opening :: c.unread = (Source.ofText "====\n[source]\n====\ntext".toList).tokens Marker.slashes ∧
      (({} : Reading).framed (some .example) opening c).cursor.pending.style = "source".toList ∧
      ∃ t following, t :: following <:+ c.unread ∧ t.isMetadata = true ∧ CutOff following) ∧
    (Element.ofText {} (.text Marker.slashes) "====\n[source]\n====\ntext".toList).document
      = .ok (.document (some 1) none [.compound (some 1) .example [],
        .listing (some 4) ["text".toList] none] [] "====\n[source]\n====\ntext".toList) := by
  refine ⟨⟨Token.ofLine Marker.slashes 1 "====".toList, { unread := (Tokens.ofLines Marker.slashes
    [(2, "[source]".toList), (3, "====".toList), (4, "text".toList)]).list }, rfl, ?_⟩, ?_⟩
  · generalize hc : ({ unread := (Tokens.ofLines Marker.slashes [(2, "[source]".toList),
      (3, "====".toList), (4, "text".toList)]).list } : Cursor) = c
    generalize hopening : Token.ofLine Marker.slashes 1 "====".toList = opening
    have hstyle : (({} : Reading).framed (some .example) opening c).cursor.pending.style
        = "source".toList := by
      subst hc hopening
      with_unfolding_all rfl
    refine ⟨hstyle, ?_⟩
    by_contra hnone
    have hends : EndsContainer {} c (({} : Reading).framed (some .example) opening c).cursor :=
      .framed (some .example) opening
    have hempty := (pending_of_container hends).2 fun t following hsuffix ht hcutOff =>
      hnone ⟨t, following, hsuffix, ht, hcutOff⟩
    rw [hempty] at hstyle
    cases hstyle
  · with_unfolding_all rfl

end Reading

end Asciidoc
