import Asciidoc.Proofs.Element.Conflict
import Asciidoc.Proofs.Reading.Reads

/-!
# Where reading meets faults

The reader goes on past a fault and keeps it among the remarks, so that faults say nothing about
the recursion of the reader. They are met in two steps: at a line about a block that cannot be
taken in, and at a table with a number of columns that is too long to be read. `Token.IsClean`
says that a line at a place is no such step.

Faults are only ever added, so that what a part adds is what its parts add (`Adds.trans`), and
reading adds none exactly when it can do with clean steps alone (`Reads.adds`).
-/

namespace Asciidoc

open Text

/-! ## Clean steps -/

/-- The runs of digits that are read as numbers of columns in the table that a line opens. -/
def Cursor.numerals (c : Cursor) (opening : Token) : List Text :=
  let pending := Table.cells (c.tableBody opening)
  Table.columnNumerals ((c.pending.value? "cols".toList).getD []) pending
    ++ pending.map (·.spanDigits)

/-- A line at a place where reading it meets no fault: a line about a block does not give
positional values where a text stands in their place, and all numbers of columns in the table
that it opens can be read. -/
structure Token.IsClean (t : Token) (c : Cursor) : Prop where
  /-- Positional values can be added. -/
  values : t.kind = .blockAttribute → BlockAttributes.GivesValues t.content →
    ¬(c.pending.HasText ∨ BlockAttributes.NamesPositional t.content)
  /-- Numbers of columns can be read. -/
  numerals : t.kind = .tableDelimiter → ∀ digits ∈ c.numerals t, digits.length ≤ Digit.longest

/-! ## The faults among remarks -/

/-- The faults among remarks. -/
def faultsIn (remarks : List Remark) : List Fault :=
  remarks.filterMap fun r => r.fault?.map (·.1)

/-- The faults that were met. -/
def Cursor.faults (c : Cursor) : List Fault := faultsIn c.remarks

@[simp] theorem faultsIn_append (before more : List Remark) :
    faultsIn (before ++ more) = faultsIn before ++ faultsIn more := List.filterMap_append

/-- A notice is no fault. -/
theorem Cursor.faults_notice (c : Cursor) (n : Notice) : (c.notice n).faults = c.faults :=
  (faultsIn_append _ _).trans (List.append_nil _)

/-- Remarks are faults wherever they are made. -/
@[simp] theorem faultsIn_movedTo (place : Place) (remarks : List Remark) :
    faultsIn (remarks.map (·.movedTo place)) = faultsIn remarks := by
  rw [faultsIn, List.filterMap_map]
  congr 1
  funext r
  cases r <;> rfl

/-- A document is refused on account of the first fault. -/
theorem Cursor.fault?_eq (c : Cursor) : c.fault?.map (·.1) = c.faults.head? := by
  rw [fault?, faults, faultsIn, List.head?_filterMap, List.map_findSome?]
  rfl

/-- What reading a part does to the faults: it adds some behind those before, none of them about
the marker of comments; none if all that was admitted is clean; and if it adds none, the part is
read so. -/
def Adds (before after : List Fault) (clean read : Prop) : Prop :=
  ∃ more, after = before ++ more ∧ .markerNotText ∉ more ∧ (clean → more = []) ∧
    (more = [] → read)

namespace Adds

variable {first second third : List Fault} {clean P Q R : Prop}

/-- A step that is no fault. -/
theorem none (h : R) : Adds first first clean R :=
  ⟨[], (List.append_nil _).symm, nofun, fun _ => rfl, fun _ => h⟩

/-- Two parts that are read one after the other. -/
theorem trans (hfirst : Adds first second clean P) (hsecond : Adds second third clean Q)
    (h : P → Q → R) : Adds first third clean R := by
  obtain ⟨more, rfl, hmarker, hclean, hread⟩ := hfirst
  obtain ⟨others, rfl, hothers, hcleanOthers, hreadOthers⟩ := hsecond
  refine ⟨more ++ others, List.append_assoc _ _ _, ?_, fun hc => ?_, fun hnil => ?_⟩
  · simp [hmarker, hothers]
  · rw [hclean hc, hcleanOthers hc, List.append_nil]
  · obtain ⟨hmore, hothers⟩ := List.append_eq_nil_iff.mp hnil
    exact h (hread hmore) (hreadOthers hothers)

theorem imp (h : Adds first second clean P) (hread : P → R) : Adds first second clean R :=
  h.trans (none trivial) fun hP _ => hread hP

/-- What a part adds is added behind whatever was there before. -/
theorem behind (h : Adds [] second clean R) (before : List Fault) :
    Adds before (before ++ second) clean R := by
  obtain ⟨more, hsecond, hmore⟩ := h
  obtain rfl : second = more := hsecond
  exact ⟨second, rfl, hmore⟩

/-- Parts that are read each on its own. -/
theorem flatMap {α : Type} {added : α → List Fault} {read : α → Prop} {parts : List α}
    (h : ∀ part ∈ parts, Adds [] (added part) clean (read part)) :
    Adds [] (parts.flatMap added) clean (∀ part ∈ parts, read part) := by
  induction parts with
  | nil => exact none nofun
  | cons part rest ih =>
    have hrest := ih fun other hother => h other (List.mem_cons_of_mem _ hother)
    exact (h part List.mem_cons_self).trans (hrest.behind (added part))
      fun hpart hothers => List.forall_mem_cons.mpr ⟨hpart, hothers⟩

end Adds

/-! ## What single lines add -/

namespace Cursor

variable {c : Cursor} {t : Token}

/-- A number that is read is a fault if it is too long. -/
theorem numeralRemarks_adds (place : Place) {numerals : List Text} {clean : Prop}
    (h : clean → ∀ digits ∈ numerals, digits.length ≤ Digit.longest) :
    Adds [] (faultsIn (numeralRemarks place numerals)) clean
      (∀ digits ∈ numerals, digits.length ≤ Digit.longest) := by
  rw [numeralRemarks]
  split
  · rename_i hlong
    obtain ⟨digits, hdigits, hlong⟩ := List.any_eq_true.mp hlong
    have hlong := of_decide_eq_true hlong
    exact ⟨[.numeralTooLong], rfl, by simp, fun hc => absurd (h hc digits hdigits) (by omega),
      nofun⟩
  · rename_i hshort
    refine .none fun digits hdigits => Nat.le_of_not_lt fun hlong => hshort ?_
    exact List.any_eq_true.mpr ⟨digits, hdigits, decide_eq_true hlong⟩

/-- A line that says something about the block after it is a fault if it cannot be taken in. -/
theorem described_adds (env : Reading) {inList inDelimited clean} (ht : t.isMetadata = true)
    (hclean : clean → t.IsClean c) :
    Adds c.faults (c.described t).faults clean
      (env.Reads Token.IsClean (.block inList inDelimited t) c none (c.described t)) := by
  by_cases hkind : t.kind = .blockAttribute
  · have hfaults : (c.described t).faults
        = c.faults ++ if (c.pending.add t.content).conflict then [.positionalText] else [] := by
      rw [described, hkind]
      dsimp only [addPending, faults]
      rw [faultsIn_append]
      split <;> rfl
    have hiff := BlockAttributes.conflict_add_iff c.pending t.content
    refine ⟨_, hfaults, by split <;> simp, fun hc => ?_, fun hnil => ?_⟩
    · refine if_neg fun hconflict => ?_
      exact (hclean hc).values hkind (hiff.mp hconflict).1 (hiff.mp hconflict).2
    · refine .metadata ht ⟨fun _ hgives hother => ?_, fun h => by simp [hkind] at h⟩
      rw [if_pos (hiff.mpr ⟨hgives, hother⟩)] at hnil
      cases hnil
  · have hfaults : (c.described t).faults = c.faults := by
      unfold described
      split <;> first | rfl | contradiction
    rw [hfaults]
    refine .none (.metadata ht ⟨fun h => absurd h hkind, fun h => ?_⟩)
    simp [Token.isMetadata, h] at ht

/-- A paragraph is no fault. -/
theorem paragraph_faults (c : Cursor) (rules : Rules.Reading) (inList : Bool) (t : Token) :
    (c.paragraph rules inList t).cursor.faults = c.faults := by
  unfold paragraph
  dsimp only
  split <;> rfl

/-- Lines that are kept as they are are no fault. -/
theorem verbatim_faults (c : Cursor) (closing : Text) :
    (c.verbatim closing).cursor.faults = c.faults := by
  unfold verbatim
  dsimp only
  split
  · rfl
  · exact faults_notice _ _

/-- Blocks of lines end where their lines do. -/
theorem framedLines?_cursor {frame : Option Frame} {r : Reached c.size (Option Element)}
    (h : c.framedLines? frame t = some r) :
    r.cursor = (c.clearPending.verbatim t.content).cursor := by
  unfold framedLines? at h
  dsimp only at h
  repeat' split at h
  all_goals cases h
  all_goals rfl

end Cursor

namespace Reading

variable {env : Reading} {c : Cursor} {opening : Token}

/-! ## Tables -/

/-- The faults of a table are those of its numbers of columns and those in its cells. -/
theorem tableAt_faults (cells : List CellRead) :
    (c.tableAt env opening cells).2.faults = c.faults ++
      (faultsIn (numeralRemarks (c.clearPending.pastTable opening).toPlace
        (Table.columnNumerals ((c.pending.value? "cols".toList).getD [])
          (Table.cells (c.tableBody opening))))
      ++ cells.flatMap fun cell => faultsIn cell.remarks) := by
  have hpast : (c.clearPending.pastTable opening).faults = c.faults := by
    rw [Cursor.pastTable]
    split
    · rfl
    · exact Cursor.faults_notice _ _
  have htold (counted : Cursor) : (counted.remark (cells.flatMap (·.remarks))).faults
      = counted.faults ++ cells.flatMap fun cell => faultsIn cell.remarks := by
    rw [Cursor.faults, Cursor.remark, faultsIn_append, faultsIn_movedTo]
    exact congrArg (faultsIn counted.remarks ++ ·) List.filterMap_flatMap
  have hcounted (past : Cursor) (numerals : List Remark) :
      (past.remark numerals).faults = past.faults ++ faultsIn numerals := by
    rw [Cursor.faults, Cursor.remark, faultsIn_append, faultsIn_movedTo]
    rfl
  rw [← List.append_assoc, ← hpast, ← hcounted, ← htold, Cursor.tableAt]
  dsimp only [Cursor.closeTable]
  split
  · rfl
  · exact Cursor.faults_notice _ _

/-- A cell is read if the number of columns it spans can be, and its document. -/
theorem cellOf_adds {attributes : List (Text × Text)} {p : Table.PendingCell}
    {blocks : List Element} {after : Cursor} {clean R : Prop}
    (hclean : clean → p.spanDigits.length ≤ Digit.longest)
    (hdocument : p.holdsDocument = true → Adds [] after.faults clean R) :
    Adds [] (faultsIn (env.cellOf attributes p blocks after).remarks) clean
      (p.spanDigits.length ≤ Digit.longest ∧ (p.holdsDocument = true → R)) := by
  have hdigits (hc : clean) : ∀ digits ∈ [p.spanDigits], digits.length ≤ Digit.longest :=
    List.forall_mem_singleton.mpr (hclean hc)
  have hnumeral := Cursor.numeralRemarks_adds (Cursor.ofCell env.marker attributes p).toPlace hdigits
  rw [cellOf]
  split
  · rename_i hholds
    dsimp only
    rw [faultsIn_append]
    exact hnumeral.trans ((hdocument hholds).behind _) fun hdigits hread =>
      ⟨hdigits _ (List.mem_singleton_self _), fun _ => hread⟩
  · rename_i hholds
    exact hnumeral.trans (.none trivial) fun hdigits _ =>
      ⟨hdigits _ (List.mem_singleton_self _), fun h => absurd h hholds⟩

/-- A table is read if its numbers of columns can be, and its cells. -/
theorem tableAt_adds {inList inDelimited : Bool} {inner : Table.PendingCell → List Element}
    {after : Table.PendingCell → Cursor} {clean : Prop} (ht : opening.kind = .tableDelimiter)
    (hclean : clean → opening.IsClean c)
    (hcells : ∀ p ∈ Table.cells (c.tableBody opening), p.holdsDocument = true →
      Adds [] (after p).faults clean (env.Reads Token.IsClean (.blocks false (-1) none)
        (Cursor.ofCell env.marker c.attributes p) (inner p) (after p))) :
    let cells := (Table.cells (c.tableBody opening)).map fun p =>
      env.cellOf c.attributes p (inner p) (after p)
    Adds c.faults (c.tableAt env opening cells).2.faults clean
      (env.Reads Token.IsClean (.block inList inDelimited opening) c
        (some (c.tableAt env opening cells).1) (c.tableAt env opening cells).2) := by
  have hshort (hc : clean) := (hclean hc).numerals ht
  have hcolumns := Cursor.numeralRemarks_adds (c.clearPending.pastTable opening).toPlace
    fun hc digits hdigits => hshort hc digits (List.mem_append_left _ hdigits)
  have hall : Adds [] ((Table.cells (c.tableBody opening)).flatMap fun p =>
      faultsIn (env.cellOf c.attributes p (inner p) (after p)).remarks) clean _ :=
    Adds.flatMap fun p hp => cellOf_adds
      (fun hc => hshort hc _ (List.mem_append_right _ (List.mem_map_of_mem hp))) (hcells p hp)
  dsimp only
  rw [tableAt_faults, List.flatMap_map]
  refine (hcolumns.trans (hall.behind _) fun hnumerals hread => ?_).behind c.faults
  refine .table ht ⟨fun h => ?_, fun _ digits hdigits => ?_⟩ fun p hp => (hread p hp).2
  · rw [ht] at h
    cases h
  · rcases List.mem_append.mp hdigits with hdigits | hdigits
    · exact hnumerals digits hdigits
    · obtain ⟨p, hp, rfl⟩ := List.mem_map.mp hdigits
      exact (hread p hp).1

/-! ## All parts -/

theorem framedLines_adds {inList inDelimited : Bool} {t : Token} {frame : Option Frame}
    {r : Reached c.size (Option Element)} {clean : Prop} (ht : t.opens? = some frame)
    (hlines : c.framedLines? frame t = some r) :
    Adds c.faults r.cursor.faults clean
      (env.Reads Token.IsClean (.block inList inDelimited t) c r.value r.cursor) := by
  have hfaults : r.cursor.faults = c.faults :=
    Cursor.framedLines?_cursor hlines ▸ c.clearPending.verbatim_faults t.content
  rw [hfaults]
  exact .none (.framedLines ht hlines)

/-- Reading adds no fault if all steps are clean, and if it adds none, clean steps alone lead to
the same value. -/
theorem Reads.adds {admits : Token → Cursor → Prop} {clean : Prop} {part : Part} {last : Cursor}
    {value : part.Value} (h : env.Reads admits part c value last)
    (hclean : clean → ∀ t c, admits t c → t.IsClean c) :
    Adds c.faults last.faults clean (env.Reads Token.IsClean part c value last) := by
  induction h with
  | @blocksEnd _ _ closing c h =>
    have hlast : (closing.elim c.skipBlank fun delimiter =>
        c.skipBlank.notice (.unclosedBlock delimiter)).faults = c.faults := by
      cases closing with
      | none => rfl
      | some delimiter => exact Cursor.faults_notice _ _
    rw [hlast]
    exact .none (.blocksEnd h)
  | blocksClosed h hclosing ht => exact .none (.blocksClosed h hclosing ht)
  | blocksHeading h ht => exact .none (.blocksHeading h ht)
  | blocksCons h hclosed hheading _ _ ihfirst ihmore =>
    exact ihfirst.trans ihmore (.blocksCons h hclosed hheading)
  | metadata ht hadmits => exact Cursor.described_adds env ht fun hc => hclean hc _ _ hadmits
  | lineBreak ht => exact .none (.lineBreak ht)
  | headingAlone ht halone => exact .none (.headingAlone ht halone)
  | heading ht _ ih => exact ih.imp (.heading ht)
  | listBlock ht _ ih => exact ih.imp (.listBlock ht)
  | descriptionBlock ht _ ih => exact ih.imp (.descriptionBlock ht)
  | framedLines ht hlines => exact framedLines_adds ht hlines
  | framedBlocks ht hlines _ ih => exact ih.imp (.framedBlocks ht hlines)
  | @fence _ _ t c language ht =>
    have hlast : (c.fenced t.line language).cursor.faults = c.faults :=
      c.clearPending.verbatim_faults _
    rw [hlast]
    exact .none (.fence ht)
  | table ht hadmits _ ih => exact tableAt_adds ht (fun hc => hclean hc _ _ hadmits) ih
  | @paragraph inList _ t c ht =>
    rw [c.paragraph_faults env.rules inList t]
    exact .none (.paragraph ht)
  | list _ ih => exact ih.imp .list
  | itemsLast _ hnext ih => exact ih.imp (.itemsLast · hnext)
  | itemsCons _ h ht _ ihitem ihitems => exact ihitem.trans ihitems (.itemsCons · h ht)
  | item _ ih => exact ih.imp .item
  | attachedEnd hfirst hnext => exact .none (.attachedEnd hfirst hnext)
  | attachedCons h ht _ _ ihfirst ihmore => exact ihfirst.trans ihmore (.attachedCons h ht)
  | attachedList h ht hscope _ _ ihlist ihmore =>
    exact ihlist.trans ihmore (.attachedList h ht hscope)
  | attachedDescriptions h ht hscope _ _ ihlist ihmore =>
    exact ihlist.trans ihmore (.attachedDescriptions h ht hscope)
  | nothingAttached h => exact .none (.nothingAttached h)
  | metadataAttached h hblank _ ht _ ihblock ihmore =>
    exact ihblock.trans ihmore (.metadataAttached h hblank · ht)
  | blockAttached h hblank _ ht ih => exact ih.imp (.blockAttached h hblank · ht)
  | descriptionList _ ih => exact ih.imp .descriptionList
  | entriesLast _ hnext ih => exact ih.imp (.entriesLast · hnext)
  | entriesCons _ h ht _ ihentry ihentries => exact ihentry.trans ihentries (.entriesCons · h ht)
  | @entry _ delimiter description first c _ _ _ ih =>
    have hpast : (c.pastTerms delimiter first description).faults = c.faults := by
      rw [Cursor.pastTerms]
      split <;> rfl
    rw [← hpast]
    exact ih.imp .entry

end Reading

end Asciidoc
