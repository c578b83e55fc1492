import Asciidoc.Proofs.Reading.Hints
import Asciidoc.Proofs.Reading.Progress
import Asciidoc.Proofs.Reading.Roles
import Mathlib.Data.List.Chain

/-!
# The outline of a document

A heading ends the sections of its level and below, so a section goes on until a heading comes that
it cannot hold. Where it has blocks, nothing but that heading can follow it: in a section there are
only deeper ones, and what comes after a section with blocks among its siblings is a section of its
level or above (`Element.ofText_outlined`). A heading on its own has no blocks, and whatever may
follow it.

Three things keep this up. The block of a heading line is a section of its level, and if it has
blocks it stopped before a heading or at the end (`Reads.isSectionOf`). A run of blocks that goes on
at a heading starts with the section of it (`Reads.level?_head`). And nothing more is attached to
an item once the next line is a heading (`Reads.eq_nil_of_heading`).

In a frame every heading stands on its own, but the block behind a plus sign is read as if it were
in none. So there is a section with blocks in a frame if and only if one is attached to an item
there (`Element.ofText_sections_in_frames`); it goes on past the end of the frame.
-/

namespace Asciidoc

open Text

namespace Element

/-- What may follow a section with blocks among its siblings: a section of its level or above. -/
def MayPrecede (x y : Element) : Prop :=
  ∀ level, x.level? = some level → x.parts ≠ [] → ∃ other, y.level? = some other ∧ other ≤ level

/-- Sections directly in a section are deeper, and each section directly in an element goes on
until a section comes that it cannot hold. -/
structure IsOutlined (e : Element) : Prop where
  deeper : ∀ level, e.level? = some level → ∀ x ∈ e.parts, ∀ other, x.level? = some other →
    level < other
  maximal : e.parts.IsChain MayPrecede

theorem mayPrecede_of_level? {x : Element} (h : x.level? = none) (y : Element) :
    x.MayPrecede y := by
  intro level hlevel
  rw [h] at hlevel
  cases hlevel

theorem isChain_of_level? {es : List Element} (h : ∀ x ∈ es, x.level? = none) :
    es.IsChain MayPrecede := by
  induction es with
  | nil => exact .nil
  | cons x rest ih =>
    obtain ⟨hx, hrest⟩ := List.forall_mem_cons.mp h
    exact (ih hrest).cons fun y _ => mayPrecede_of_level? hx y

theorem isOutlined_of_level? {e : Element} (h : e.level? = none)
    (hparts : e.parts.IsChain MayPrecede) : e.IsOutlined := by
  refine ⟨fun level hlevel => ?_, hparts⟩
  rw [h] at hlevel
  cases hlevel

/-- Where no sections are there is nothing to outline. -/
theorem isOutlined_of_parts {e : Element} (h : e.level? = none)
    (hparts : ∀ x ∈ e.parts, x.level? = none) : e.IsOutlined :=
  isOutlined_of_level? h (isChain_of_level? hparts)

/-- Only blocks are sections. -/
theorem level?_of_role {e : Element} (h : e.role ≠ .block) : e.level? = none := by
  cases e with
  | sectionBlock => exact absurd rfl h
  | _ => rfl

end Element

theorem Token.kind_of_endsSection {t : Token} {level : Int} (h : t.endsSection level = true) :
    ∃ n : Nat, t.kind = .heading n ∧ (n : Int) ≤ level := by
  unfold endsSection at h
  split at h
  · exact ⟨_, ‹_›, of_decide_eq_true h⟩
  · cases h

namespace Reading

variable {env : Reading} {admits : Token → Cursor → Prop} {c last : Cursor} {t : Token}

open Element (MayPrecede IsOutlined)

/-! ## The section of a heading -/

theorem Reads.level?_list {enclosing : List Text} {marker : Text} {e : Element}
    (h : env.Reads admits (.list enclosing marker t) c e last) : e.level? = none := by
  cases h
  unfold listOf
  split <;> rfl

theorem Reads.level?_descriptionList {enclosing : List Text} {delimiter description : Text}
    {e : Element}
    (h : env.Reads admits (.descriptionList enclosing delimiter description t) c e last) :
    e.level? = none := by
  cases h
  rfl

/-- An element is the section of a heading line, with a place to stop at if it has blocks. It has
none in a frame. -/
structure IsSectionOf (inDelimited : Bool) (t : Token) (e : Element) (level : Int) (last : Cursor) :
    Prop where
  heading : ∃ n : Nat, t.kind = .heading n ∧ level = n
  alone : inDelimited = true → e.parts = []
  stops : e.parts ≠ [] → ∀ u, last.unread.head? = some u → u.endsSection level = true

/-- If the block of a line is a section, the line is its heading. -/
theorem Reads.isSectionOf {inList inDelimited : Bool} {value : Option Element} {e : Element}
    {level : Int} (h : env.Reads admits (.block inList inDelimited t) c value last)
    (he : value = some e) (hlevel : e.level? = some level) :
    IsSectionOf inDelimited t e level last := by
  have hother (h : e.level? = none) : IsSectionOf inDelimited t e level last := by
    rw [h] at hlevel
    cases hlevel
  cases h with
  | metadata => cases he
  | headingAlone ht =>
    cases he
    cases hlevel
    exact ⟨⟨_, ht, rfl⟩, fun _ => rfl, fun hparts => absurd rfl hparts⟩
  | heading ht hblocks =>
    cases he
    cases hlevel
    exact ⟨⟨_, ht, rfl⟩, nofun, fun _ => hblocks.stops⟩
  | lineBreak | fence =>
    cases he
    exact hother rfl
  | listBlock _ hlist =>
    cases he
    exact hother hlist.level?_list
  | descriptionBlock _ hlist =>
    cases he
    exact hother hlist.level?_descriptionList
  | framedLines _ hlines => exact hother (framedLines?_isSimple hlines he).level?_eq_none
  | framedBlocks =>
    cases he
    exact hother (Element.level?_of_isFrame (framedBlocks_eq _ _ _ _ _).1)
  | table =>
    cases he
    obtain ⟨headerRows, bodyRows, left, htable, -⟩ := Cursor.tableAt_eq _ _ _ _
    exact hother (htable ▸ rfl)
  | paragraph => exact hother (paragraph_isSimple he).level?_eq_none

/-- The block of a heading line is a section of its level. -/
theorem Reads.level?_of_heading {inList inDelimited : Bool} {n : Nat} {value : Option Element}
    (h : env.Reads admits (.block inList inDelimited t) c value last) (ht : t.kind = .heading n) :
    ∃ e, value = some e ∧ e.level? = some (n : Int) := by
  cases h with
  | headingAlone hkind | heading hkind =>
    obtain rfl : n = _ := Token.Kind.heading.inj (ht.symm.trans hkind)
    exact ⟨_, rfl, rfl⟩
  | descriptionBlock hkind | fence hkind | table hkind =>
    rw [ht] at hkind
    cases hkind
  | metadata hkind => simp [Token.isMetadata, ht] at hkind
  | lineBreak hkind => simp [Token.breakName?, ht] at hkind
  | listBlock hkind => simp [Token.marker?, ht] at hkind
  | framedLines hkind | framedBlocks hkind => simp [Token.opens?, ht] at hkind
  | paragraph hkind => simp [Token.startsParagraph, ht] at hkind

/-! ## What comes after a section with blocks -/

/-- At the end and before a heading of a level or above there is nothing to pass over. -/
theorem unread_skipBlank_of_endsSection {level : Int}
    (hc : ∀ u, c.unread.head? = some u → u.endsSection level = true) :
    c.skipBlank.unread = c.unread := by
  cases hunread : c.unread with
  | nil => simp [Cursor.skipBlank, Cursor.moveTo, hunread]
  | cons u rest =>
    obtain ⟨n, hkind, -⟩ := Token.kind_of_endsSection (hc u (by rw [hunread]; rfl))
    simp [Cursor.skipBlank, Cursor.moveTo, hunread, Token.isSkipped, hkind]

variable {inList : Bool} {level : Int} {closing : Option Text} {scope : List Text}
  {es : List Element}

/-- A run of blocks that goes on at a heading starts with the section of it. -/
theorem Reads.level?_head (h : env.Reads admits (.blocks inList level closing) c es last)
    {bound : Int} (hc : ∀ u, c.unread.head? = some u → u.endsSection bound = true) :
    ∀ e ∈ es.head?, ∃ n, e.level? = some n ∧ n ≤ bound := by
  cases h with
  | blocksEnd | blocksClosed | blocksHeading => exact nofun
  | blocksCons h _ _ hfirst _ =>
    rw [unread_skipBlank_of_endsSection hc] at h
    obtain ⟨n, ht, hn⟩ := Token.kind_of_endsSection (hc _ (by rw [h]; rfl))
    obtain ⟨x, rfl, hx⟩ := hfirst.level?_of_heading ht
    rintro e ⟨⟩
    exact ⟨n, hx, hn⟩

/-- Nothing is attached to an item at the end or at a heading. -/
theorem Reads.eq_nil_of_heading (h : env.Reads admits (.attached scope) c es last) {bound : Int}
    (hc : ∀ u, c.unread.head? = some u → u.endsSection bound = true) : es = [] := by
  have hheading {u : Token} {rest : List Token} (h : c.unread = u :: rest) :
      ∃ n : Nat, u.kind = .heading n := by
    obtain ⟨n, hkind, -⟩ := Token.kind_of_endsSection (hc u (by rw [h]; rfl))
    exact ⟨n, hkind⟩
  cases h with
  | attachedEnd => rfl
  | attachedCons h ht =>
    obtain ⟨n, hkind⟩ := hheading h
    rw [ht] at hkind
    cases hkind
  | attachedList h ht =>
    obtain ⟨n, hkind⟩ := hheading (unread_skipBlank_of_endsSection hc ▸ h)
    simp [Token.marker?, hkind] at ht
  | attachedDescriptions h ht =>
    obtain ⟨n, hkind⟩ := hheading (unread_skipBlank_of_endsSection hc ▸ h)
    rw [ht] at hkind
    cases hkind

/-- The block behind a plus sign was read as if it were in no frame. -/
def Part.FromBlock (env : Reading) (admits : Token → Cursor → Prop) :
    (part : Part) → part.Value → Cursor → Prop
  | .attachedBlock, e, last =>
    e = none ∨ ∃ t c, env.Reads admits (.block true false t) c e last
  | _, _, _ => True

theorem Reads.fromBlock {part : Part} {value : part.Value}
    (h : env.Reads admits part c value last) : part.FromBlock env admits value last := by
  induction h with
  | nothingAttached => exact .inl rfl
  | metadataAttached _ _ _ _ _ _ ih => exact ih
  | blockAttached _ _ hblock => exact .inr ⟨_, _, hblock⟩
  | _ => trivial

/-! ## Runs of blocks -/

/-- The section that starts a run before others, if what follows was read where it stopped. -/
theorem isChain_append {first : Option Element} {more : List Element}
    (hmore : more.IsChain MayPrecede)
    (hnext : ∀ e, first = some e → ∀ level, e.level? = some level → e.parts ≠ [] →
      ∀ y ∈ more.head?, ∃ n, y.level? = some n ∧ n ≤ level) :
    (first.toList ++ more).IsChain MayPrecede := by
  cases first with
  | none => exact hmore
  | some e => exact hmore.cons fun y hy level hlevel hparts => hnext e rfl level hlevel hparts y hy

/-- What is known of the sections that are read for a part: in a run of blocks that a heading ends
they are deeper, in one that a delimiter ends they have no blocks. -/
def Part.Outlined : (part : Part) → part.Value → Prop
  | .blocks _ level closing, es =>
    es.IsChain MayPrecede ∧ ∀ x ∈ es, ∀ n, x.level? = some n →
      if closing.isSome then x.parts = [] else level < n
  | .attached _, es => es.IsChain MayPrecede
  | _, _ => True

theorem Reads.outlined {part : Part} {value : part.Value} (h : env.Reads admits part c value last) :
    part.Outlined value := by
  induction h with
  | blocksEnd | blocksClosed | blocksHeading => exact ⟨.nil, nofun⟩
  | @blocksCons _ level closing _ t _ _ _ _ _ _ _ hheading hfirst hmore _ ih =>
    refine ⟨isChain_append ih.1 fun e he _ hlevel hparts =>
      hmore.level?_head ((hfirst.isSectionOf he hlevel).stops hparts), ?_⟩
    intro x hx n hn
    rcases List.mem_append.mp hx with hx | hx
    · obtain hsection := hfirst.isSectionOf (Option.mem_toList.mp hx) hn
      obtain ⟨k, hkind, rfl⟩ := hsection.heading
      cases closing with
      | some delimiter => exact hsection.alone rfl
      | none =>
        have hdeeper : ¬(k : Int) ≤ level := by
          simpa [Token.endsSection, hkind] using hheading
        exact Int.lt_of_not_ge hdeeper
    · exact ih.2 x hx n hn
  | attachedEnd => exact .nil
  | attachedCons _ _ hfirst hmore _ ih =>
    refine isChain_append ih fun e he level hlevel hparts => ?_
    rcases hfirst.fromBlock with hnone | ⟨t, c, hblock⟩
    · rw [he] at hnone
      cases hnone
    · rw [hmore.eq_nil_of_heading ((hblock.isSectionOf he hlevel).stops hparts)]
      exact nofun
  | attachedList _ _ _ hlist _ _ ih =>
    exact ih.cons fun y _ => Element.mayPrecede_of_level? hlist.level?_list y
  | attachedDescriptions _ _ _ hlist _ _ ih =>
    exact ih.cons fun y _ => Element.mayPrecede_of_level? hlist.level?_descriptionList y
  | _ => trivial

/-! ## The tree -/

/-- Whatever is read is outlined. -/
theorem Arises.isOutlined {e : Element} (h : env.Arises admits e) : e.IsOutlined := by
  cases h with
  | simple hsimple =>
    exact Element.isOutlined_of_parts hsimple.level?_eq_none fun _ => hsimple.level?_of_mem_parts
  | headingAlone => exact ⟨fun _ _ => nofun, .nil⟩
  | heading hblocks =>
    obtain ⟨hchain, hlevels⟩ := hblocks.outlined
    refine ⟨?_, hchain⟩
    rintro level ⟨⟩ x hx other hother
    exact hlevels x hx other hother
  | framed hframe hblocks =>
    exact Element.isOutlined_of_level? (Element.level?_of_isFrame hframe) hblocks.outlined.1
  | document hblocks => exact Element.isOutlined_of_level? rfl hblocks.outlined.1
  | item hattached => exact Element.isOutlined_of_level? rfl hattached.outlined
  | list hitems =>
    unfold listOf
    split <;> exact Element.isOutlined_of_parts rfl fun x hx =>
      Element.level?_of_role (by rw [(hitems.arranged x hx).2]; nofun)
  | descriptionList hentries =>
    refine Element.isOutlined_of_parts rfl fun x hx => ?_
    obtain ⟨entry, hentry, hx⟩ := List.mem_flatMap.mp hx
    exact Element.level?_of_role (by rw [(hentries.arranged entry hentry x hx).2]; nofun)
  | table =>
    obtain ⟨headerRows, bodyRows, left, htable, -⟩ := Cursor.tableAt_eq _ _ _ _
    refine Element.isOutlined_of_parts (htable ▸ rfl) fun x hx => ?_
    obtain ⟨read, hread, rfl⟩ := exists_of_mem_parts_tableAt hx
    obtain ⟨p, -, rfl⟩ := List.mem_map.mp hread
    unfold cellOf
    dsimp only
    split <;> rfl
  | cell hinner =>
    exact Element.isOutlined_of_parts rfl fun x hx => Element.level?_of_isDocument (hinner x hx)

/-- A section directly in a frame has no blocks. -/
theorem Arises.parts_of_section_in_frame {e x : Element} (h : env.Arises admits e)
    (hframe : e.isFrame = true) (hx : x ∈ e.parts) (hsection : x.level?.isSome = true) :
    x.parts = [] := by
  obtain ⟨level, hlevel⟩ := Option.isSome_iff_exists.mp hsection
  cases h with
  | simple hsimple =>
    rw [hsimple.level?_of_mem_parts hx] at hlevel
    cases hlevel
  | framed _ hblocks => exact hblocks.outlined.2 x hx level hlevel
  | list =>
    unfold listOf at hframe
    split at hframe <;> cases hframe
  | table =>
    obtain ⟨headerRows, bodyRows, left, htable, -⟩ := Cursor.tableAt_eq _ _ _ _
    rw [htable] at hframe
    cases hframe
  | _ => cases hframe

end Reading

namespace Element

variable {rules : Rules.Reading} {marker : Marker} {t : Text} {root : Element}

theorem ofText_arises (h : (ofText rules marker t).document = .ok root) :
    root.Every ((⟨rules, marker.textD⟩ : Reading).Arises Reading.Anywhere) := by
  rw [← ofText_eq_ok h]
  exact Cursor.readDocument_arises _ _ true t

/-- Whatever document a text is read as, the sections directly in a section have a greater level,
and what comes after a section with blocks among its siblings is a section of its level or a smaller
one; so it is at every depth and in the documents in cells. -/
theorem ofText_outlined (h : (ofText rules marker t).document = .ok root) :
    ∀ e ∈ root.preorder, e.IsOutlined := fun _ he =>
  ((ofText_arises h).imp fun _ hx => hx.isOutlined).of_mem_preorder
    (fun _ => isOutlined_of_parts rfl nofun) he

/-- Two sections of one level, the first with a heading on its own and a section in it. -/
theorem ofText_outlined_siblings :
    ∃ root, (ofText {} (.text Marker.slashes)
        "== A\n[discrete]\n=== d\n=== B\nb\n\n== C".toList).document = .ok root ∧
      (root.parts.map fun x => (x.level?, x.parts.map level?))
        = [(some 1, [some 2, some 2]), (some 1, [])] ∧
      ∀ e ∈ root.preorder, e.IsOutlined := by
  have hread : (ofText {} (.text Marker.slashes)
      "== A\n[discrete]\n=== d\n=== B\nb\n\n== C".toList).document
        = .ok (.document (some 1) none
          [.sectionBlock (some 1) ['A'] 1 [.sectionBlock (some 3) ['d'] 2 [],
              .sectionBlock (some 4) ['B'] 2 [.paragraph (some 5) [['b']]]],
            .sectionBlock (some 7) ['C'] 1 []]
          [] "== A\n[discrete]\n=== d\n=== B\nb\n\n== C".toList) := by
    with_unfolding_all rfl
  exact ⟨_, hread, rfl, ofText_outlined hread⟩

/-! ## Sections in frames -/

/-- A section directly in a frame has no blocks. -/
def IsSealed (e : Element) : Prop :=
  e.isFrame = true → ∀ x ∈ e.parts, x.level?.isSome = true → x.parts = []

/-- Whether an element is a section with blocks. -/
def IsOpen (e : Element) : Prop := e.level?.isSome = true ∧ e.parts ≠ []

variable {e x y : Element}

theorem role_of_isOpen (h : x.IsOpen) : x.role = .block := by
  by_contra hrole
  have hsection := h.1
  rw [level?_of_role hrole] at hsection
  cases hsection

/-- A section with blocks stands directly in another or in an item, among what blocks and items are
made of. -/
theorem role_of_isOpen_mem_parts (hsealed : e.IsSealed) (harranged : e.IsArranged)
    (hrole : e.role = .block ∨ e.role = .item) (hclosed : ¬e.IsOpen) (hx : x ∈ e.parts)
    (hopen : x.IsOpen) : e.role = .item := by
  have hpart : e.partRole = .block := (harranged x hx).symm.trans (role_of_isOpen hopen)
  cases e with
  | item => rfl
  | document => rcases hrole with hrole | hrole <;> cases hrole
  | sectionBlock => exact absurd ⟨rfl, List.ne_nil_of_mem hx⟩ hclosed
  | quoteBlock | compound => exact absurd (hsealed rfl x hx hopen.1) hopen.2
  | unorderedList | orderedList | descriptionList | table | cell => cases hpart
  | _ => cases hx

/-- Blocks and items but for tables are made of blocks and items. -/
theorem partRole_of_role (hrole : e.role = .block ∨ e.role = .item) (htable : ¬e.isTable = true) :
    e.partRole = .block ∨ e.partRole = .item := by
  cases e with
  | document | cell => rcases hrole with hrole | hrole <;> cases hrole
  | table => exact absurd rfl htable
  | unorderedList | orderedList | descriptionList => exact .inr rfl
  | _ => exact .inl rfl

/-- What is outside cells in a part of an element that is no table is outside cells in it. -/
theorem outside_subset_of_mem_parts (htable : ¬e.isTable = true) (hx : x ∈ e.parts) :
    x.outside ⊆ e.outside := by
  intro y hy
  rw [outside_eq, if_neg htable]
  exact List.mem_cons_of_mem _ (List.mem_append_right _ (List.mem_flatMap.mpr ⟨x, hx, hy⟩))

theorem outside_subset (hx : x ∈ e.outside) : x.outside ⊆ e.outside := by
  induction e using induction with
  | step e ih =>
    rw [outside_eq] at hx
    rcases List.mem_cons.mp hx with rfl | hx
    · exact List.Subset.refl _
    rcases List.mem_append.mp hx with htitle | hx
    · -- A title is outside only with itself.
      obtain ⟨title, rfl⟩ := exists_title_of_mem_titleLine htitle
        (preorder_eq x ▸ List.mem_cons_self)
      intro y hy
      obtain rfl : y = .header title := by simpa [outside_eq, titleLine, parts, isTable] using hy
      rw [outside_eq]
      exact List.mem_cons_of_mem _ (List.mem_append_left _ htitle)
    split at hx
    · cases hx
    obtain ⟨z, hz, hx⟩ := List.mem_flatMap.mp hx
    exact List.Subset.trans (ih z hz hx) (outside_subset_of_mem_parts ‹_› hz)

/-- Where no frame holds a section with blocks directly, every section with blocks inside a closed
element is in one that is attached to an item. -/
theorem exists_item_of_isOpen (hsealed : e.Every IsSealed) (harranged : e.Every IsArranged)
    (hrole : e.role = .block ∨ e.role = .item) (hclosed : ¬e.IsOpen) (hx : x ∈ e.outside)
    (hopen : x.IsOpen) :
    ∃ item ∈ e.outside, item.role = .item ∧ ∃ a ∈ item.parts, a.IsOpen ∧ x ∈ a.outside := by
  induction e using induction with
  | step e ih =>
    rw [outside_eq] at hx
    rcases List.mem_cons.mp hx with rfl | hx
    · exact absurd hopen hclosed
    rcases List.mem_append.mp hx with htitle | hx
    · obtain ⟨title, rfl⟩ := exists_title_of_mem_titleLine htitle
        (preorder_eq x ▸ List.mem_cons_self)
      exact absurd hopen.1 (by simp [level?])
    split at hx
    · cases hx
    rename_i htable
    obtain ⟨y, hy, hx⟩ := List.mem_flatMap.mp hx
    by_cases hyopen : y.IsOpen
    · exact ⟨e, mem_outside_self e,
        role_of_isOpen_mem_parts hsealed.self harranged.self hrole hclosed hy hyopen,
        y, hy, hyopen, hx⟩
    · have hyrole : y.role = .block ∨ y.role = .item := by
        rw [harranged.self y hy]
        exact partRole_of_role hrole htable
      obtain ⟨item, hitem, hrest⟩ := ih y hy (hsealed.part hy) (harranged.part hy) hyrole hyopen hx
      exact ⟨item, outside_subset_of_mem_parts htable hy hitem, hrest⟩

theorem role_of_isFrame (h : e.isFrame = true) : e.role = .block := by
  cases e with
  | quoteBlock | compound => rfl
  | _ => cases h

/-- Whatever document a text is read as, in each of its frames, cells aside, all sections are
without blocks if and only if those are that are attached to an item there. -/
theorem ofText_sections_in_frames (h : (ofText rules marker t).document = .ok root) :
    ∀ e ∈ root.preorder, e.isFrame = true →
      ((∀ x ∈ e.outside, x.level?.isSome = true → x.parts = []) ↔
        ∀ item ∈ e.outside, item.role = .item →
          ∀ x ∈ item.parts, x.level?.isSome = true → x.parts = []) := by
  have hread := ofText_arises h
  have harranged : root.Every IsArranged := by
    rw [← ofText_eq_ok h]
    exact (Cursor.readDocument_arranged _ _ true t).1
  intro e he hframe
  have hsealed : e.Every IsSealed :=
    (hread.every.of_mem_preorder (fun _ => Reading.Arises.every_of_alone rfl rfl rfl) he).imp
      fun x hx hx' _ hy => hx.parts_of_section_in_frame hx' hy
  have harranged : e.Every IsArranged :=
    harranged.every.of_mem_preorder (fun _ => .intro nofun nofun) he
  constructor
  · intro hempty item hitem hrole x hx
    have htable : ¬item.isTable = true := by
      cases item with
      | table => cases hrole
      | _ => nofun
    exact hempty x (outside_subset hitem
      (outside_subset_of_mem_parts htable hx (mem_outside_self x)))
  · intro hattached x hx hsection
    by_contra hparts
    have hclosed : ¬e.IsOpen := fun hopen => by
      rw [IsOpen, level?_of_isFrame hframe] at hopen
      cases hopen.1
    obtain ⟨item, hitem, hrole, a, ha, haopen, -⟩ := exists_item_of_isOpen hsealed harranged
      (.inl (role_of_isFrame hframe)) hclosed hx ⟨hsection, hparts⟩
    exact haopen.2 (hattached item hitem hrole a ha haopen.1)

/-- A heading behind a plus sign in an example block: its section takes in the line that was to
close the example, and what comes after it. -/
theorem ofText_section_attached_in_frame :
    ∃ root, (ofText {} (.text Marker.slashes)
        "====\n- a\n+\n== B\n====\nc".toList).document = .ok root ∧
      ∃ e ∈ root.preorder, e.isFrame = true ∧
        ¬(∀ x ∈ e.outside, x.level?.isSome = true → x.parts = []) ∧
        ¬∀ item ∈ e.outside, item.role = .item →
          ∀ x ∈ item.parts, x.level?.isSome = true → x.parts = [] := by
  obtain ⟨heading, hheading⟩ : ∃ x, x = Element.sectionBlock (some 4) ['B'] 1
    [.compound (some 5) .example [.paragraph (some 6) [['c']]]] := ⟨_, rfl⟩
  obtain ⟨frame, hframe⟩ : ∃ x, x = Element.compound (some 1) .example
    [.unorderedList (some 2) ['-'] [.item (some 2) (some ['a']) none [heading]]] := ⟨_, rfl⟩
  have hread : (ofText {} (.text Marker.slashes)
      "====\n- a\n+\n== B\n====\nc".toList).document
        = .ok (.document (some 1) none [frame] [] "====\n- a\n+\n== B\n====\nc".toList) := by
    subst hframe hheading
    with_unfolding_all rfl
  have hmem : heading ∈ frame.outside := by
    simp [hframe, outside_eq, titleLine, parts, isTable]
  have hopen : ¬∀ x ∈ frame.outside, x.level?.isSome = true → x.parts = [] := fun hempty => by
    subst hheading
    exact List.cons_ne_nil _ _ (hempty _ hmem rfl)
  have hroot : frame ∈ (Element.document (some 1) none [frame] []
      "====\n- a\n+\n== B\n====\nc".toList).preorder := by
    rw [preorder_eq]
    simp [titleLine, parts, preorder_eq frame]
  have hisFrame : frame.isFrame = true := hframe ▸ rfl
  exact ⟨_, hread, frame, hroot, hisFrame, hopen, fun hattached =>
    hopen ((ofText_sections_in_frames hread frame hroot hisFrame).mpr hattached)⟩

end Element

end Asciidoc
